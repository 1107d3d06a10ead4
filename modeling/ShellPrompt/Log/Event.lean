import ShellPrompt.Json.Value

/-!
# ShellPrompt.Log.Event

Log events and their written form, one JSON object on a line of its own.
-/

namespace ShellPrompt
namespace Log

inductive Level where
  | trace
  | debug
  | info
  | warn
  | error
deriving DecidableEq

namespace Level

def rank : Level → Nat
  | .trace => 0
  | .debug => 1
  | .info => 2
  | .warn => 3
  | .error => 4

def name : Level → String
  | .trace => "trace"
  | .debug => "debug"
  | .info => "info"
  | .warn => "warn"
  | .error => "error"

def all : List Level := [.trace, .debug, .info, .warn, .error]

end Level

structure Event where
  level : Level
  target : String
  message : String
  fields : Table Json.Value := []
  /-- Milliseconds since the epoch. -/
  tsMs : Nat := 0

namespace Event

def make (level : Level) (target message : String) (fields : List (String × Json.Value)) :
    Event where
  level := level
  target := target
  message := message
  fields := Table.ofList fields

/-- The written form without its line feed. The fields are left out when there are none. -/
def print (e : Event) : List Char :=
  let members := [
    ("ts_ms", Text.Numeral.decimal e.tsMs),
    ("level", Json.printString e.level.name),
    ("target", Json.printString e.target),
    ("message", Json.printString e.message)]
  let fields :=
    if e.fields.isEmpty then [] else [("fields", (Json.Value.object e.fields).print)]
  Json.printObject (members ++ fields)

def line (e : Event) : List Char := e.print ++ ['\n']

end Event
end Log
end ShellPrompt
