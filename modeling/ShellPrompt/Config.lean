import ShellPrompt.Digest
import ShellPrompt.Json.Value
import ShellPrompt.Layout
import ShellPrompt.Style.Markup

/-!
# ShellPrompt.Config

The configuration of a prompt, and its JSON form.

* `Config.print`: the full JSON form, every field written, in a fixed order.
* `Config.digest`: a fingerprint of that form.
-/

namespace ShellPrompt

structure ModuleConfig where
  enabled : Bool := true
  /-- Style tag in place of the one the module chooses. -/
  style : Option String := none
  /-- Priority in place of the one the module chooses. -/
  priority : Option Int32 := none
  options : Table Json.Value := []

namespace ModuleConfig

def optionUInt64? (c : ModuleConfig) (key : String) : Option UInt64 :=
  (Table.get? key c.options).bind Json.Value.asUInt64?

def optionBool? (c : ModuleConfig) (key : String) : Option Bool :=
  (Table.get? key c.options).bind Json.Value.asBool?

def optionString? (c : ModuleConfig) (key : String) : Option String :=
  (Table.get? key c.options).bind Json.Value.asString?

end ModuleConfig

structure Config where
  left : List String := ["directory", "vcs", "duration", "jobs", "status", "character"]
  right : List String := []
  bottom : List String := []
  separator : String := " "
  dialect : Style.Dialect := .ansi
  parallel : Bool := true
  /-- Time a module may take; zero for any time. -/
  moduleTimeoutMs : UInt64 := 200
  styles : Table String := []
  modules : Table ModuleConfig := []

namespace Config

def modulesFor (c : Config) : Target → List String
  | .left => c.left
  | .right => c.right
  | .bottom => c.bottom

/-- The time a module may take; `none` for any time. -/
def budget (c : Config) : Option UInt64 :=
  if c.moduleTimeoutMs = 0 then none else some c.moduleTimeoutMs

def module? (c : Config) (name : String) : Option ModuleConfig := Table.get? name c.modules

/-! ## JSON form -/

def printModule (c : ModuleConfig) : List Char :=
  Json.printObject [
    ("enabled", (Json.Value.bool c.enabled).print),
    ("style", (Json.Value.ofOption .string c.style).print),
    ("priority", (Json.Value.ofOption (fun p => .int p.toInt) c.priority).print),
    ("options", (Json.Value.object c.options).print)]

def print (c : Config) : List Char :=
  Json.printObject [
    ("left", (Json.Value.strings c.left).print),
    ("right", (Json.Value.strings c.right).print),
    ("bottom", (Json.Value.strings c.bottom).print),
    ("separator", Json.printString c.separator),
    ("dialect", Json.printString c.dialect.name),
    ("parallel", (Json.Value.bool c.parallel).print),
    ("module_timeout_ms", (Json.Value.nat c.moduleTimeoutMs.toNat).print),
    ("styles", Json.printObject (c.styles.map fun e => (e.1, Json.printString e.2))),
    ("modules", Json.printObject (c.modules.map fun e => (e.1, printModule e.2)))]

def text (c : Config) : String := String.ofList c.print

def digest (c : Config) : String := Digest.short (Text.Utf8.encode c.print)

end Config
end ShellPrompt
