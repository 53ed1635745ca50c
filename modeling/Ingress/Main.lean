import Ingress.Gateway.Service
import Ingress.Launch.Basic
import Std.Time.DateTime.Timestamp

/-!
# The command line

Reads the configuration from `config/default.toml`, the environment and `.env`, starts a gateway,
and serves the standard input as one session: every line is a text message, and replies and log
records are printed. The end of the input stops the gateway.
-/

namespace Ingress.Main

open Launch

/-- The client of the standard input. -/
def localClient : String := "127.0.0.1:0"

def configFile : String := "config/default.toml"

def dotenvFile : String := ".env"

def readIfThere (path : String) : IO (Option String) := do
  try
    return some (← IO.FS.readFile path)
  catch _ => return none

/-- The variables that settings can be given by. -/
def readVariables : IO Variables := do
  let names := filterVariable :: Gateway.config.paths.map Variables.nameOf
  names.filterMapM fun name => do return (← IO.getEnv name).map fun value => (name, value)

def surroundings : IO Surroundings := do
  return ⟨← readVariables, ← readIfThere configFile, ← readIfThere dotenvFile, false⟩

def now : IO Int := do
  return (← Std.Time.Timestamp.now).toMillisecondsSinceUnixEpoch.toInt

def fieldsText (fields : List (String × String)) : String :=
  " ".intercalate (fields.map fun f => f.1 ++ "=" ++ f.2)

def printRecord (level message : String) (fields : List (String × String)) : IO Unit :=
  IO.println (level ++ " " ++ message ++ " " ++ fieldsText fields)

/-- Prints the log records that a gateway has written behind the first `seen` happenings. -/
def printLog (seen : Nat) (g : Gateway) : IO Unit :=
  (Ledger.loggedIn (g.ledger.journal.drop seen)).forM fun e =>
    printRecord e.level.name e.message e.fields

def replyText : Reply → String
  | .text s => s
  | .pong payload => payload
  | .close code reason => toString code ++ " " ++ reason

/-- The gateway at the present time. -/
def catchUp (g : Gateway) : IO Gateway := do
  return g.sleep ((← now) - g.clock).toNat

/-- Serves lines until the input ends, then stops. -/
partial def serve (input : IO.FS.Stream) (serial : Nat) (g : Gateway) : IO Unit := do
  let line ← input.getLine
  let seen := g.ledger.journal.length
  let g ← catchUp g
  if line.isEmpty then
    printLog seen g.shutDown.2
    IO.println (replyText .goingAway)
  else
    let (replies, g) := g.receive serial (.text line.trimAscii.toString)
    replies.forM fun r => IO.println (replyText r)
    printLog seen g
    serve input serial g

def run (c : Gateway.Config) (url : String) : IO UInt32 := do
  printRecord Log.Level.info.name "Loaded configuration" (loadedFields c)
  let g := (Gateway.build c ⟨some .log, [.counter]⟩ (← now)).listen
  IO.println ("Listening on " ++ url)
  match g.settle.connect Uuid.zero.text localClient with
  | (some serial, g) =>
    serve (← IO.getStdin) serial g
    return 0
  | (none, _) => return 1

end Ingress.Main

/-- Launches the gateway; a failure is printed and ends the program with `1`. -/
def main : IO UInt32 := do
  let p := (← Ingress.Main.surroundings).launch
  match p.failure, p.config, p.config.bind fun c => p.url? (toString c.port) with
  | none, some c, some url => Ingress.Main.run c url
  | some failure, _, _ =>
    IO.eprintln ("Error: " ++ failure.message)
    return 1
  | none, _, _ => return 1
