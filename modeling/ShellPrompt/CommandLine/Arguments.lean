import ShellPrompt.CommandLine.Usage
import ShellPrompt.Layout
import ShellPrompt.Path
import ShellPrompt.Style.Markup

/-!
# ShellPrompt.CommandLine.Arguments

The arguments of the prompt command.

They are read from left to right. A value may be attached with an equals sign or follow as an
argument of its own; one that follows is looked at only when the next parameter is met, or at the
end (`settle`). So an argument that is not understood at all is reported first.
-/

namespace ShellPrompt
namespace CommandLine

structure Arguments where
  status : Int32 := 0
  cmdDuration : UInt64 := 0
  jobs : UInt32 := 0
  terminalWidth : Option UInt16 := none
  target : Target := .left
  config : Option String := none
  dialect : Option Style.Dialect := none
  logFile : Option Path := none
  gitBranch : Option String := none
  gitCommit : Option String := none
  gitDirty : Bool := false
deriving DecidableEq

namespace Arguments

/-! ## Values -/

def number {α : Type} (p : Parameter) (raw : String) (r : Except NumberFault α) :
    Except UsageError α :=
  r.mapError (.refusedNumber p raw)

def choice {α : Type} (p : Parameter) (named : List (String × α)) (raw : String) :
    Except UsageError α :=
  if raw.isEmpty then .error (.missingValue p)
  else
    match named.lookup raw with
    | some a => .ok a
    | none => .error (.refusedChoice p raw)

def assign (a : Arguments) (p : Parameter) (raw : String) : Except UsageError Arguments :=
  match p with
  | .status => do
    let z ← number p raw (readBetween (-0x80000000) 0x7FFFFFFF raw)
    return { a with status := Int32.ofInt z }
  | .cmdDuration => do
    let n ← number p raw (readUInt64 raw)
    return { a with cmdDuration := n }
  | .jobs => do
    let z ← number p raw (readBetween 0 0xFFFFFFFF raw)
    return { a with jobs := UInt32.ofNat z.toNat }
  | .terminalWidth => do
    let z ← number p raw (readBetween 0 0xFFFF raw)
    return { a with terminalWidth := some (UInt16.ofNat z.toNat) }
  | .target => do
    let t ← choice p (Target.all.map fun t => (t.name, t)) raw
    return { a with target := t }
  | .dialect => do
    let d ← choice p (Style.Dialect.all.map fun d => (d.name, d)) raw
    return { a with dialect := some d }
  | .config => return { a with config := some raw }
  | .logFile =>
    if raw.isEmpty then throw (.missingValue p)
    else return { a with logFile := some (Path.ofString raw) }
  | .gitBranch => return { a with gitBranch := some raw }
  | .gitCommit => return { a with gitCommit := some raw }
  | .gitDirty | .help | .version => return a

/-! ## Reading -/

inductive Pending where
  /-- Its value should be the next argument. -/
  | awaiting (p : Parameter)
  | given (p : Parameter) (raw : String)
deriving DecidableEq

structure Progress where
  arguments : Arguments := {}
  seen : List Parameter := []
  pending : Option Pending := none
deriving DecidableEq

namespace Progress

/-- Sees a parameter for the first time. -/
def see (s : Progress) (p : Parameter) : Except UsageError Progress :=
  if s.seen.contains p then .error (.repeated p) else .ok { s with seen := p :: s.seen }

def set (s : Progress) (p : Parameter) (raw : String) : Except UsageError Progress := do
  let s ← s.see p
  let a ← s.arguments.assign p raw
  return { s with arguments := a }

def settle (s : Progress) : Except UsageError Progress :=
  match s.pending with
  | none => .ok s
  | some (.awaiting p) => .error (.missingValue p)
  | some (.given p raw) => { s with pending := none }.set p raw

/-- Meets a parameter by its name, perhaps with a value attached. -/
def meet (s : Progress) (topic : Topic) (p : Parameter) (attached : Option String) :
    Except UsageError Progress :=
  match p.takesValue, attached with
  | false, some raw => .error (.surplusValue p raw)
  | false, none => do
    let s ← s.settle
    match p with
    | .help => throw (.help topic)
    | .version => throw .version
    | p =>
      let s ← s.see p
      return { s with arguments := { s.arguments with gitDirty := true } }
  | true, some raw => do
    let s ← s.settle
    s.set p raw
  | true, none => do
    let s ← s.settle
    return { s with pending := some (.awaiting p) }

end Progress

inductive Shape where
  /-- Two dashes alone. -/
  | separator
  | long (name : String) (attached : Option String)
  | short (flag : Char) (rest : List Char)
  | plain
deriving DecidableEq

def shape (argument : String) : Shape :=
  match argument.toList with
  | ['-', '-'] => .separator
  | '-' :: '-' :: rest =>
    let name := String.ofList (rest.takeWhile (· != '='))
    match rest.dropWhile (· != '=') with
    | [] => .long name none
    | _ :: value => .long name (some (String.ofList value))
  | '-' :: flag :: rest => .short flag rest
  | _ => .plain

/-- Does the argument belong to the parameter before it? -/
def isValueOf (p : Parameter) : Shape → Bool
  | .plain => true
  | .short flag rest => p.takesNegative && isNumberLike (flag :: rest)
  | _ => false

def findParameter? (known : List Parameter) (name : String) : Option Parameter :=
  known.find? fun p => p.name == name

/-- The parameter that takes an argument for its value. -/
def taker? (s : Progress) (argument : String) : Option Parameter :=
  match s.pending with
  | some (.awaiting p) => if isValueOf p (shape argument) then some p else none
  | _ => none

def step (topic : Topic) (known : List Parameter) (s : Progress) (argument : String) :
    Except UsageError Progress :=
  match taker? s argument with
  | some p => .ok { s with pending := some (.given p argument) }
  | none =>
    match shape argument with
    | .long name attached =>
      match findParameter? known name with
      | some p => s.meet topic p attached
      | none => .error (.unexpectedArgument s!"--{name}")
    | .short 'h' _ => s.meet topic .help none
    | .short flag _ => .error (.unexpectedArgument s!"-{flag}")
    | _ => .error (.unexpectedArgument argument)

/-- Nothing may follow two dashes alone, for no command has operands. -/
def readFrom (topic : Topic) (known : List Parameter) (s : Progress) :
    List String → Except UsageError Arguments
  | [] => s.settle.map Progress.arguments
  | "--" :: [] => s.settle.map Progress.arguments
  | "--" :: operand :: _ => .error (.unexpectedArgument operand)
  | argument :: rest => do
    let s ← step topic known s argument
    readFrom topic known s rest

def read (topic : Topic) (known : List Parameter) (arguments : List String) :
    Except UsageError Arguments :=
  readFrom topic known {} arguments

end Arguments
end CommandLine
end ShellPrompt
