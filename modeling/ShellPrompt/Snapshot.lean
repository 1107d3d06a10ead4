import ShellPrompt.Fault
import ShellPrompt.Path

/-!
# ShellPrompt.Snapshot

The facts one render is made from. `Facts` are gathered by the shell; a `Snapshot` is facts that
have been checked, which for now means that the terminal has columns at all.
-/

namespace ShellPrompt

/-- Summary of a git checkout. -/
structure GitStatus where
  branch : Option String := none
  /-- Abbreviated commit, shown when no branch is checked out. -/
  commit : Option String := none
  dirty : Bool := false
  staged : UInt32 := 0
  untracked : UInt32 := 0
  ahead : UInt32 := 0
  behind : UInt32 := 0
deriving DecidableEq

namespace GitStatus

def onBranch (branch : String) : GitStatus := { branch := some branch }

def detached (commit : String) : GitStatus := { commit := some commit }

def withDirty (s : GitStatus) (dirty : Bool) : GitStatus := { s with dirty := dirty }

def withCounts (s : GitStatus) (staged untracked : UInt32) : GitStatus :=
  { s with staged := staged, untracked := untracked }

def withDivergence (s : GitStatus) (ahead behind : UInt32) : GitStatus :=
  { s with ahead := ahead, behind := behind }

end GitStatus

inductive VcsState where
  | git (status : GitStatus)
  | mercurial (branch : String)
deriving DecidableEq

structure Facts where
  exitCode : Int32 := 0
  durationMs : UInt64 := 0
  jobCount : UInt32 := 0
  termWidth : UInt16 := 80
  cwd : Path := ⟨[Path.slash]⟩
  home : Option Path := none
  vcs : Option VcsState := none
deriving DecidableEq

namespace Facts

def succeeded (f : Facts) : Bool := f.exitCode == 0

end Facts

/-- Facts about a terminal that has at least one column. -/
structure Snapshot extends Facts where
  termWidth_ne_zero : termWidth ≠ 0

theorem termWidth_standard : ({} : Facts).termWidth ≠ 0 := by decide

namespace Snapshot

def ofFacts (facts : Facts) : Except PromptError Snapshot :=
  if h : facts.termWidth ≠ 0 then .ok ⟨facts, h⟩ else .error .zeroWidth

theorem ofFacts_eq_ok_iff (facts : Facts) (s : Snapshot) :
    ofFacts facts = .ok s ↔ s.toFacts = facts := by
  unfold ofFacts
  split
  · constructor
    · intro h; cases h; rfl
    · intro h; cases s; cases h; rfl
  · rename_i h
    constructor
    · intro h'; cases h'
    · intro h'; subst h'; exact absurd s.termWidth_ne_zero h

end Snapshot
end ShellPrompt
