/-!
# Names of the gateway's own metrics

* one definition per counter, gauge and histogram;
* `rateTracked` : the counters that the health verdict also counts by time;
* the types of the security events that the gateway raises, and `securityEvents`, their counters.
-/

namespace Ingress.Metrics.Name

/-- Messages received. -/
def received : String := "events_received_total"

/-- Events handed to the aggregator. -/
def processed : String := "events_processed_total"

/-- Messages that are no JSON text. -/
def invalidMessages : String := "invalid_messages_total"

/-- Events that break a limit or a rule. -/
def invalidEvents : String := "invalid_events_total"

def rateLimited : String := "rate_limited_total"

/-- Accepted payloads that are no event. -/
def processingErrors : String := "processing_errors_total"

def connections : String := "websocket_connections"

def connectionsOpened : String := "connections_opened_total"

/-- Time spent on a message. -/
def messageMs : String := "message_processing_ms"

def limiterClients : String := "rate_limiter_clients"

/-- Events that the aggregator refused. -/
def dropped : String := "events_dropped_total"

def queueDepth : String := "queue_depth"

def batches : String := "batches_dispatched_total"

def batchSize : String := "batch_size"

/-- Time from the opening of a window to its dispatch. -/
def batchMs : String := "batch_processing_ms"

def slowBatches : String := "slow_batches_total"

def deliveryMs : String := "delivery_ms"

def deliveries : String := "deliveries_total"

def deliveryErrors : String := "delivery_errors_total"

/-- Events delivered, by type. -/
def batchedEvents : String := "batched_events_total"

/-- The counters that are also counted by time. -/
def rateTracked : List String :=
  [received, processed, invalidMessages, invalidEvents, processingErrors, deliveries,
    deliveryErrors]

/-- An event that breaks a rule. -/
def invalidSchema : String := "invalid_schema"

/-- A message that is too large. -/
def oversized : String := "oversized_event"

def rateExceeded : String := "rate_limit_exceeded"

def invalidClient : String := "invalid_client_id"

/-- The counter of the security events of a type. -/
def securityEvents (type : String) : String := "security_events_" ++ type ++ "_total"

end Ingress.Metrics.Name
