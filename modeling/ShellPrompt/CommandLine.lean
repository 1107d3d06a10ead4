import ShellPrompt.CommandLine.Arguments
import ShellPrompt.Digest

/-!
# ShellPrompt.CommandLine

The commands of the program: print a prompt line, or print a session key.

* `Command.parse`: the command that arguments ask for.
* `sessionKey`: a short random-looking key, made from what tells sessions of a shell apart.
-/

namespace ShellPrompt
namespace CommandLine

inductive Command where
  | prompt (arguments : Arguments)
  | session
deriving DecidableEq

namespace Command

/-- Help on a command: the words behind `help` must name one, and no command has commands below
it. -/
def helpOn : List String → UsageError
  | [] => .help .program
  | name :: rest =>
    match Topic.command? name, rest with
    | none, _ => .unknownCommand name
    | some topic, [] => .help topic
    | some _, word :: _ => .unknownCommand word

/-- Reads what comes before a command, in its absence. -/
def refuse (first : String) (rest : List String) : UsageError :=
  match Arguments.shape first, rest with
  | .separator, [] => .missingCommand
  | .separator, word :: _ =>
    if (Topic.command? word).isSome then .unexpectedArgument word else .unknownCommand word
  | .long name attached, _ =>
    match Arguments.findParameter? [.help, .version] name, attached with
    | none, _ => .unexpectedArgument s!"--{name}"
    | some p, some raw => .surplusValue p raw
    | some .version, none => .version
    | some _, none => .help .program
  | .short 'h' _, _ => .help .program
  | .short 'V' _, _ => .version
  | .short flag _, _ => .unexpectedArgument s!"-{flag}"
  | .plain, _ => .unknownCommand first

def parse : List String → Except UsageError Command
  | [] => .error .missingCommand
  | first :: rest =>
    match Topic.command? first with
    | some .prompt => (Arguments.read .prompt Parameter.ofPrompt rest).map .prompt
    | some .session => (Arguments.read .session [.help] rest).map fun _ => .session
    | some _ => .error (helpOn rest)
    | none => .error (refuse first rest)

end Command

/-- The lowest `n` bytes of a number, least first. -/
def littleEndian : Nat → Nat → Text.Bytes
  | 0, _ => []
  | n + 1, value => UInt8.ofNat value :: littleEndian n (value / 256)

def sessionKey (process : UInt32) (nanos : Nat) : String :=
  Digest.short (littleEndian 4 process.toNat ++ littleEndian 16 nanos)

end CommandLine
end ShellPrompt
