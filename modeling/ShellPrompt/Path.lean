import ShellPrompt.Text.Utf8

/-!
# ShellPrompt.Path

File paths as byte strings.

* `components`: what a path names, step by step. Repeated and trailing slashes and dots mean
  nothing, except that a relative path may begin with a dot.
* `stripBase?`: the components below a base, compared component by component.
* `join`: the second path below the first; an absolute second path replaces it.
* `expandTilde`: a leading tilde stands for the home directory.
-/

namespace ShellPrompt

structure Path where
  bytes : Text.Bytes
deriving DecidableEq

namespace Path

inductive Component where
  | root
  | current
  | parent
  | normal (name : Text.Bytes)
deriving DecidableEq

def slash : UInt8 := 0x2F

def dot : Text.Bytes := [0x2E]

def dotDot : Text.Bytes := [0x2E, 0x2E]

def ofString (text : String) : Path := ⟨Text.Utf8.encode text.toList⟩

def display (p : Path) : String := String.ofList (Text.Utf8.lossy p.bytes)

/-- The runs between slashes; some may be empty. -/
def segments : Text.Bytes → List Text.Bytes
  | [] => [[]]
  | b :: rest =>
    if b = slash then [] :: segments rest
    else
      match segments rest with
      | [] => [[b]]
      | s :: ss => (b :: s) :: ss

def isAbsolute (p : Path) : Bool := p.bytes.head? == some slash

def Component.ofSegment? (segment : Text.Bytes) : Option Component :=
  if segment = [] ∨ segment = dot then none
  else if segment = dotDot then some .parent
  else some (.normal segment)

def components (p : Path) : List Component :=
  let named := (segments p.bytes).filterMap Component.ofSegment?
  if p.isAbsolute then .root :: named
  else if (segments p.bytes).head? == some dot then .current :: named
  else named

/-- The components of `p` below `base`, if it lies there. -/
def stripBase? (base p : Path) : Option (List Component) :=
  if base.components.isPrefixOf p.components then
    some (p.components.drop base.components.length)
  else none

def names (components : List Component) : List String :=
  components.filterMap fun
    | .normal name => some (String.ofList (Text.Utf8.lossy name))
    | _ => none

def join (base rest : Path) : Path :=
  if rest.isAbsolute then rest
  else if base.bytes = [] ∨ base.bytes.getLast? = some slash then ⟨base.bytes ++ rest.bytes⟩
  else ⟨base.bytes ++ slash :: rest.bytes⟩

/-- A lone tilde is the home directory, `~/` leads below it; any other path is meant as written,
and so is every path where no home is known. -/
def expandTilde (raw : String) (home : Option Path) : Path :=
  match raw.toList, home with
  | ['~'], some home => home
  | '~' :: '/' :: rest, some home => home.join ⟨Text.Utf8.encode rest⟩
  | _, _ => ofString raw

end Path
end ShellPrompt
