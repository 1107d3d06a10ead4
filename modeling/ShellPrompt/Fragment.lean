import ShellPrompt.Text.Width

/-!
# ShellPrompt.Fragment

One piece of prompt text, and why a module may yield none.
-/

namespace ShellPrompt

structure Fragment where
  text : String
  style : Option String := none
  /-- Lower values are dropped first when a line is too wide. -/
  priority : Int32 := 0
  /-- The module that yields the fragment, stamped when it is evaluated. -/
  module : String := ""
deriving DecidableEq

namespace Fragment

def width (f : Fragment) : Nat := displayWidth f.text

end Fragment

inductive ModuleFailure where
  | render (module reason : String)
  | panicked (module : String)
  | timedOut (module : String) (budgetMs : UInt64)
deriving DecidableEq

namespace ModuleFailure

def module : ModuleFailure → String
  | .render m _ => m
  | .panicked m => m
  | .timedOut m _ => m

def message : ModuleFailure → String
  | .render m reason => s!"module `{m}` failed: {reason}"
  | .panicked m => s!"module `{m}` panicked"
  | .timedOut m budget => s!"module `{m}` exceeded its {budget}ms budget"

end ModuleFailure

abbrev ModuleResult := Except ModuleFailure (Option Fragment)

end ShellPrompt
