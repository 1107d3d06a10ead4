import ShellPrompt.Module.Builtin
import ShellPrompt.Proofs.Text.Numeral

/-!
# ShellPrompt.Proofs.Module.Vcs

The text of a git checkout tells its state.

The head of the checkout ends where the first sign stands, as long as it holds none itself. The
signs behind it come in a fixed order, each at most once, and none is a digit, so every number ends
where the next sign begins (`begins_written`).

* `read`: the head and the state a text tells.
* `read_gitText`: what is read is the head and the state of the checkout.
* `changed_iff`: where there are changes, one of their signs stands.
-/

namespace ShellPrompt
namespace Module
namespace Vcs

open Text.Numeral (decimal)

/-- The signs in front of counts, in their order. -/
def countSigns : List Char := ['+', '?', '⇡', '⇣']

def signs : List Char := '*' :: countSigns

/-- The head of a checkout and the state it is in. -/
structure Report where
  label : String
  dirty : Bool
  /-- Files that are staged and untracked, commits ahead and behind. -/
  counts : List Nat
deriving DecidableEq

def countsOf (g : GitStatus) : List UInt32 := [g.staged, g.untracked, g.ahead, g.behind]

def Report.ofStatus (g : GitStatus) : Report where
  label := Vcs.label g
  dirty := g.dirty
  counts := (countsOf g).map UInt32.toNat

theorem Report.ofStatus_eq_iff {g h : GitStatus} : ofStatus g = ofStatus h ↔
    Vcs.label g = Vcs.label h ∧ g.dirty = h.dirty ∧ g.staged = h.staged ∧
      g.untracked = h.untracked ∧ g.ahead = h.ahead ∧ g.behind = h.behind := by
  simp [ofStatus, countsOf, UInt32.toNat_inj]

/-! ## Reading -/

/-- The text up to the first sign, and what begins there. -/
def parts (text : String) : List Char × List Char := text.toList.span (· ∉ signs)

def readDirty : List Char → Bool × List Char
  | '*' :: rest => (true, rest)
  | rest => (false, rest)

/-- The number behind that sign, if the text begins with it, and what follows. Without the sign it
is zero. -/
def readCount (sign : Char) : List Char → Nat × List Char
  | [] => (0, [])
  | c :: rest =>
    if c = sign then
      let r := rest.span Char.isDigit
      (Nat.ofDigitChars 10 r.1 0, r.2)
    else (0, c :: rest)

def readCounts : List Char → List Char → List Nat
  | [], _ => []
  | sign :: more, text =>
    let r := readCount sign text
    r.1 :: readCounts more r.2

def read (text : String) : Report :=
  let r := readDirty (parts text).2
  { label := String.ofList (parts text).1, dirty := r.1, counts := readCounts countSigns r.2 }

/-! ## Markers -/

/-- The text is empty or begins with one of these characters. -/
def Begins (cs text : List Char) : Prop := ∀ c ∈ text.head?, c ∈ cs

theorem toList_count (sign : Char) (n : UInt32) :
    (count sign n).toList = if n = 0 then [] else sign :: decimal n.toNat := by
  unfold count
  split <;> simp

/-- Counts behind their signs, zeros left out. -/
def written (counts : List (Char × UInt32)) : List Char :=
  counts.flatMap fun e => (count e.1 e.2).toList

@[simp] theorem written_nil : written [] = [] := rfl

@[simp] theorem written_cons (e : Char × UInt32) (rest : List (Char × UInt32)) :
    written (e :: rest) = (count e.1 e.2).toList ++ written rest := rfl

theorem begins_written (counts : List (Char × UInt32)) :
    Begins (counts.map Prod.fst) (written counts) := by
  induction counts with
  | nil => simp [Begins]
  | cons e rest ih =>
    rw [written_cons, toList_count, List.map_cons]
    split
    · exact fun c hc => List.mem_cons_of_mem _ (ih c hc)
    · simp [Begins]

theorem readCount_count {sign : Char} {cs rest : List Char}
    (hcs : ∀ c ∈ cs, c.isDigit = false ∧ c ≠ sign) (h : Begins cs rest) (n : UInt32) :
    readCount sign ((count sign n).toList ++ rest) = (n.toNat, rest) := by
  rw [toList_count]
  split
  case isTrue hzero =>
    subst hzero
    cases rest with
    | nil => rfl
    | cons c rest =>
      have hc := (hcs c (h c (by simp))).2
      simp [readCount, hc]
  case isFalse =>
    have hdigits : ∀ c ∈ rest.head?, c.isDigit = false := fun c hc => (hcs c (h c hc)).1
    rw [List.cons_append, readCount, if_pos rfl, Text.Numeral.span_decimal _ hdigits]
    simp only [Text.Numeral.ofDigitChars_decimal]

theorem readCounts_written (counts : List (Char × UInt32))
    (hnodup : (counts.map Prod.fst).Nodup) (hdigit : ∀ c ∈ counts.map Prod.fst, c.isDigit = false) :
    readCounts (counts.map Prod.fst) (written counts) = counts.map fun e => e.2.toNat := by
  induction counts with
  | nil => rfl
  | cons e rest ih =>
    obtain ⟨hnotMem, hrest⟩ := List.nodup_cons.1 hnodup
    have hmore : ∀ c ∈ rest.map Prod.fst, c.isDigit = false :=
      fun c hc => hdigit c (List.mem_cons_of_mem _ hc)
    have hother : ∀ c ∈ rest.map Prod.fst, c.isDigit = false ∧ c ≠ e.1 := by
      refine fun c hc => ⟨hmore c hc, ?_⟩
      rintro rfl
      exact hnotMem hc
    have hfirst := readCount_count hother (begins_written rest) e.2
    simp only [List.map_cons, readCounts, written_cons, hfirst, ih hrest hmore]

/-- The mark of a dirty checkout. -/
def star (dirty : Bool) : List Char := if dirty then ['*'] else []

theorem begins_star (dirty : Bool) {rest : List Char} (h : Begins countSigns rest) :
    Begins signs (star dirty ++ rest) := by
  cases dirty with
  | true => simp [Begins, star, signs]
  | false =>
    intro c hc
    have hcount : c ∈ rest.head? := by simpa [star] using hc
    exact List.mem_cons_of_mem _ (h c hcount)

theorem readDirty_star {rest : List Char} (h : Begins countSigns rest) (dirty : Bool) :
    readDirty (star dirty ++ rest) = (dirty, rest) := by
  cases dirty with
  | true => rfl
  | false =>
    cases rest with
    | nil => rfl
    | cons c rest =>
      have hc : c ≠ '*' := by
        rintro rfl
        have := h '*' (by simp)
        simp [countSigns] at this
      simp [star, readDirty, hc]

def signed (g : GitStatus) : List (Char × UInt32) := countSigns.zip (countsOf g)

theorem toList_markers (g : GitStatus) :
    (markers g).toList = star g.dirty ++ written (signed g) := by
  have hstar : (if g.dirty then "*" else "").toList = star g.dirty := by cases g.dirty <;> rfl
  simp [markers, hstar, signed, countSigns, countsOf]

theorem map_fst_signed (g : GitStatus) : (signed g).map Prod.fst = countSigns := rfl

theorem begins_signed (g : GitStatus) : Begins countSigns (written (signed g)) := by
  rw [← map_fst_signed g]
  exact begins_written (signed g)

theorem begins_markers (g : GitStatus) : Begins signs (markers g).toList := by
  rw [toList_markers]
  exact begins_star g.dirty (begins_signed g)

section Label

variable {g : GitStatus} (hlabel : ∀ c ∈ (label g).toList, c ∉ signs)
include hlabel

theorem parts_gitText : parts (gitText g) = ((label g).toList, (markers g).toList) := by
  rw [parts, gitText, String.toList_append]
  refine Text.Numeral.span_append (fun c hc => ?_) fun c hc => ?_
  · simpa using hlabel c hc
  · simpa using begins_markers g c hc

theorem read_gitText : read (gitText g) = .ofStatus g := by
  have hdirty : readDirty (markers g).toList = (g.dirty, written (signed g)) := by
    rw [toList_markers]
    exact readDirty_star (begins_signed g) g.dirty
  have hcounts : readCounts countSigns (written (signed g)) = (countsOf g).map UInt32.toNat := by
    have hnodup : countSigns.Nodup := by simp [countSigns]
    have hdigit : ∀ c ∈ countSigns, c.isDigit = false := by simp [countSigns]
    exact readCounts_written (signed g) hnodup hdigit
  simp only [read, parts_gitText hlabel, hdirty, hcounts, String.ofList_toList, Report.ofStatus]

end Label

/-! ## Changes -/

theorem mem_count {c sign : Char} (hc : c.isDigit = false) (n : UInt32) :
    c ∈ (count sign n).toList ↔ n ≠ 0 ∧ c = sign := by
  have hdecimal : c ∉ decimal n.toNat := by
    intro h
    rw [Text.Numeral.isDigit_of_mem_decimal h] at hc
    cases hc
  rw [toList_count]
  split
  case isTrue h => simp [h]
  case isFalse h => simp [h, hdecimal]

theorem changed_iff (g : GitStatus) :
    changed g = true ↔ ∃ c ∈ (markers g).toList, c = '*' ∨ c = '+' ∨ c = '?' := by
  have hmem : ∀ c : Char, c.isDigit = false → (c ∈ (markers g).toList ↔
      (g.dirty = true ∧ c = '*') ∨ (g.staged ≠ 0 ∧ c = '+') ∨ (g.untracked ≠ 0 ∧ c = '?') ∨
        (g.ahead ≠ 0 ∧ c = '⇡') ∨ (g.behind ≠ 0 ∧ c = '⇣')) := by
    intro c hc
    have hstar : c ∈ star g.dirty ↔ g.dirty = true ∧ c = '*' := by cases g.dirty <;> simp [star]
    simp [toList_markers, hstar, signed, countSigns, countsOf, mem_count hc]
  have hstar : '*' ∈ (markers g).toList ↔ g.dirty = true := by simpa using hmem '*' (by decide)
  have hplus : '+' ∈ (markers g).toList ↔ g.staged ≠ 0 := by simpa using hmem '+' (by decide)
  have hquestion : '?' ∈ (markers g).toList ↔ g.untracked ≠ 0 := by
    simpa using hmem '?' (by decide)
  simp [and_or_left, exists_or, hstar, hplus, hquestion, changed, or_assoc]

/-- `read` tells head and state of a checkout from the text of the fragment that `vcs` shows,
provided that the head holds none of the `signs`: another such checkout has the same text only with
the same head in the same state. It is styled as changed just where a sign of changes stands behind
the head. -/
theorem text_tells_state {s : Snapshot} {g : GitStatus} (hvcs : s.vcs = some (.git g))
    (hlabel : ∀ c ∈ (label g).toList, c ∉ signs) :
    ∃ f, (vcs.run s).ending = .returns (.ok (some f)) ∧
      read f.text = .ofStatus g ∧
      (∀ s' g' f', s'.vcs = some (.git g') → (∀ c ∈ (label g').toList, c ∉ signs) →
        (vcs.run s').ending = .returns (.ok (some f')) →
        (f'.text = f.text ↔ label g' = label g ∧ g'.dirty = g.dirty ∧ g'.staged = g.staged ∧
          g'.untracked = g.untracked ∧ g'.ahead = g.ahead ∧ g'.behind = g.behind)) ∧
      (f.style = some "git-dirty" ↔ ∃ c ∈ (parts f.text).2, c = '*' ∨ c = '+' ∨ c = '?') := by
  have hrun : ∀ {s : Snapshot} {g : GitStatus}, s.vcs = some (.git g) →
      (vcs.run s).ending = .returns (.ok (some (gitFragment g))) := by
    intro s g hvcs
    simp only [vcs, ofFragment, render, hvcs]
  refine ⟨gitFragment g, hrun hvcs, read_gitText hlabel, ?_, ?_⟩
  · intro s' g' f' hvcs' hlabel' hf'
    obtain rfl : gitFragment g' = f' := by
      have := (hrun hvcs').symm.trans hf'
      simpa using this
    rw [← Report.ofStatus_eq_iff]
    constructor
    · intro htext
      calc Report.ofStatus g' = read (gitText g') := (read_gitText hlabel').symm
        _ = read (gitText g) := congrArg read htext
        _ = .ofStatus g := read_gitText hlabel
    · intro h
      obtain ⟨hhead, hdirty, hstaged, huntracked, hahead, hbehind⟩ := Report.ofStatus_eq_iff.1 h
      simp only [gitFragment, gitText, markers, hhead, hdirty, hstaged, huntracked, hahead, hbehind]
  · show (gitFragment g).style = _ ↔ ∃ c ∈ (parts (gitText g)).2, _
    rw [parts_gitText hlabel, ← changed_iff]
    cases h : changed g <;> simp [gitFragment, h]

/-- A branch that ends in a digit, in front of a mark that does too. -/
def release : GitStatus where
  branch := some "v2"
  staged := 12
  behind := 1

def inRelease : Snapshot where
  vcs := some (.git release)
  termWidth_ne_zero := termWidth_standard

theorem text_tells_state_release :
    ∃ f, (vcs.run inRelease).ending = .returns (.ok (some f)) ∧ f.text = "v2+12⇣1" ∧
      read f.text = ⟨"v2", false, [12, 0, 0, 1]⟩ ∧ f.style = some "git-dirty" := by
  have hlabel : ∀ c ∈ (label release).toList, c ∉ signs := by
    simp [label, release, signs, countSigns]
  have hvcs : inRelease.vcs = some (.git release) := rfl
  obtain ⟨f, hf, hread, -, hstyle⟩ := text_tells_state hvcs hlabel
  cases hf
  exact ⟨_, rfl, by decide, hread, hstyle.2 ⟨'+', by decide, by decide⟩⟩

end Vcs
end Module
end ShellPrompt
