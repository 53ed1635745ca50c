import Ingress.Config.Gateway
import Ingress.Launch.Dotenv
import Ingress.Launch.Filter
import Ingress.Launch.Host
import Ingress.Toml.Document

/-!
# Launching a gateway

The configuration comes in layers, later ones over earlier ones: defaults, the configuration file,
the environment. A file of variables only adds variables that the environment does not have.

* `Surroundings` : what a launch reads;
* `Failure` : why a launch fails, with `Failure.message`;
* `Surroundings.config` : the configuration of a launch;
* `Surroundings.launch` : how far a launch gets;
* `loadedFields` : what the log tells of the configuration.
-/

namespace Ingress.Launch

open Config

/-- What a launch reads: the environment, the configuration file and the file of variables, if they
are there, and whether its port is taken. -/
structure Surroundings where
  env : Variables
  file : Option String
  dotenv : Option String
  occupied : Bool

inductive Failure where
  | build
  | deserialize
  | validation
  | tracing
  | start
deriving DecidableEq, Repr

def Failure.message : Failure → String
  | .build => "Failed to build configuration"
  | .deserialize => "Failed to deserialize configuration"
  | .validation => "Configuration failed validation"
  | .tracing => "Failed to initialize tracing"
  | .start => "Failed to start gateway"

/-- The variable whose filter goes before the configured one, if it is valid. -/
def filterVariable : String := "RUST_LOG"

def loadedFields (c : Gateway.Config) : List (String × String) :=
  [("host", c.host), ("port", toString c.port), ("window_ms", toString c.aggregator.batchWindow),
    ("max_batch", toString c.aggregator.maxBatchSize),
    ("max_queue", toString c.aggregator.maxQueueSize),
    ("burst_limit", toString c.rateLimit.burstLimit),
    ("sustained_limit", toString c.rateLimit.sustainedLimit),
    ("ack_rejections", if c.ackRejections then "true" else "false")]

/-- The log can be set up with a filter, given the filter of the environment. -/
def filterWorks (ofEnv : Option String) (filter : String) : Bool :=
  ofEnv.any Filter.isValid || Filter.isValid filter

/-- How far a launch gets: the configuration once it is told, the address once it listens, and the
failure if there is one. -/
structure Progress where
  config : Option Gateway.Config
  address : Option String
  failure : Option Failure

namespace Surroundings

/-- The environment with the variables of the file. -/
def bindings (s : Surroundings) : Variables :=
  match s.dotenv with
  | some text => s.env.fill (Dotenv.parse s.env text)
  | none => s.env

def fileSettings (s : Surroundings) : Except Failure Loose :=
  match s.file with
  | none => .ok (.table [])
  | some text =>
    match Toml.parse? text with
    | some settings => .ok settings
    | none => .error .build

def config (s : Surroundings) : Except Failure Gateway.Config := do
  let settings ← s.fileSettings
  match Gateway.config.load (s.bindings.overlay ((Loose.table []).merge settings)) with
  | none => .error .deserialize
  | some c =>
    match c.check with
    | .ok () => .ok c
    | .error _ => .error .validation

def address? (s : Surroundings) (c : Gateway.Config) : Option String :=
  if s.occupied then none else Host.address? c.host

def launch (s : Surroundings) : Progress :=
  match s.config with
  | .error failure => ⟨none, none, some failure⟩
  | .ok c =>
    if filterWorks (s.bindings.find filterVariable) c.log.filter then
      match s.address? c with
      | some address => ⟨some c, some address, none⟩
      | none => ⟨some c, none, some .start⟩
    else ⟨none, none, some .tracing⟩

end Surroundings

/-- The address of sessions; `port` is the text of the port. -/
def Progress.url? (p : Progress) (port : String) : Option String := do
  let c ← p.config
  let address ← p.address
  pure ("ws://" ++ address ++ ":" ++ port ++ c.wsPath)

end Ingress.Launch
