import ShellPrompt.Log.Event
import ShellPrompt.Disk

/-!
# ShellPrompt.Log.Sink

Where log events go.

A file sink appends lines. With a size limit it truncates the file before a line that would
exceed it. The file it truncated is no longer opened for appending: the sink goes on at its own
position there, wherever other writers left the end of the file (`Position`).

A logger is a sink behind a minimum level.
-/

namespace ShellPrompt
namespace Log

inductive Position where
  | atEnd
  /-- At an offset of its own. -/
  | offset (n : Nat)
deriving DecidableEq

structure FileSink where
  /-- The size the file may reach; zero for any size. -/
  maxBytes : Nat
  position : Position := .atEnd
deriving DecidableEq

/-- Writes bytes over a file from an offset on; a gap is filled with zeros. -/
def overwrite (content : Text.Bytes) (offset : Nat) (bytes : Text.Bytes) : Text.Bytes :=
  content.take offset ++ List.replicate (offset - content.length) 0 ++ bytes ++
    content.drop (offset + bytes.length)

namespace FileSink

/-- Would a line of that length make the file too long? -/
def mustTruncate (sink : FileSink) (content : Text.Bytes) (length : Nat) : Bool :=
  sink.maxBytes != 0 && sink.maxBytes < content.length + length

def put (sink : FileSink) (content bytes : Text.Bytes) : FileSink × Text.Bytes :=
  match sink.position with
  | .atEnd => (sink, content ++ bytes)
  | .offset n => ({ sink with position := .offset (n + bytes.length) }, overwrite content n bytes)

def write (sink : FileSink) (content line : Text.Bytes) : FileSink × Text.Bytes :=
  if sink.mustTruncate content line.length then
    { sink with position := .offset 0 }.put [] line
  else sink.put content line

end FileSink

inductive Sink where
  /-- Keeps events in the order they came. -/
  | memory (events : List Event)
  | file (sink : FileSink) (content : Text.Bytes)
  | discard
  | broken

namespace Sink

def onto (disk : Disk) (maxBytes : Nat) : Disk.Opened → Sink
  | .nullDevice => .discard
  | target => .file { maxBytes } (disk.contentOf target)

def record : Sink → Event → Sink
  | .memory events, e => .memory (events ++ [e])
  | .file sink content, e =>
    let r := sink.write content (Text.Utf8.encode e.line)
    .file r.1 r.2
  | .discard, _ => .discard
  | .broken, _ => .broken

def events : Sink → List Event
  | .memory events => events
  | _ => []

/-- A new opening of the same file writes at its end again. -/
def reopened : Sink → Sink
  | .file sink content => .file { sink with position := .atEnd } content
  | sink => sink

/-- What is read back from where the sink writes, if it writes anywhere. -/
def content? : Sink → Option Text.Bytes
  | .file _ content => some content
  | .discard => some []
  | _ => none

end Sink

structure Logger where
  sink : Sink
  minLevel : Level := .trace

namespace Logger

def enabled (l : Logger) (level : Level) : Bool := l.minLevel.rank ≤ level.rank

def log (l : Logger) (e : Event) : Logger :=
  if l.enabled e.level then { l with sink := l.sink.record e } else l

end Logger
end Log
end ShellPrompt
