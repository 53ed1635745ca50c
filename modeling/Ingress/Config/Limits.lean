import Ingress.Config.Section
import Ingress.Validation.Limits

/-!
# The section of event limits

* `Limits.config` : the settings of `Limits` with their ranges.
-/

namespace Ingress

open Config

def Limits.config : Section Limits :=
  { typeName := "ValidationConfig"
    standard := .standard
    settings :=
      [.nat "max_event_size_bytes" .size (.between 64 1048576) (·.maxEventBytes)
          fun n l => { l with maxEventBytes := n },
        .nat "timestamp_tolerance_secs" .u64 (.atLeast 1) (·.timestampTolerance)
          fun n l => { l with timestampTolerance := n },
        .nat "max_game_id_length" .size (.between 1 256) (·.maxGameIdLength)
          fun n l => { l with maxGameIdLength := n },
        .nat "max_object_properties" .size (.atLeast 1) (·.maxProperties)
          fun n l => { l with maxProperties := n },
        .nat "max_array_length" .size (.atLeast 1) (·.maxElements)
          fun n l => { l with maxElements := n },
        .nat "max_depth" .size (.between 1 32) (·.maxDepth)
          fun n l => { l with maxDepth := n },
        .nat "max_key_length" .size (.atLeast 1) (·.maxKeyLength)
          fun n l => { l with maxKeyLength := n },
        .nat "max_string_length" .size (.atLeast 1) (·.maxStringLength)
          fun n l => { l with maxStringLength := n },
        .real "max_numeric_magnitude" (.atLeast (real 1)) (·.maxMagnitude)
          fun d l => { l with maxMagnitude := d },
        .nat "max_hand_size" .size (.between 1 52) (·.maxHandSize)
          fun n l => { l with maxHandSize := n },
        .list "allowed_event_types" Kind.decoder (fun k => .string k.name) (.atLeast 1)
          (·.allowedKinds) fun ks l => { l with allowedKinds := ks }] }

end Ingress
