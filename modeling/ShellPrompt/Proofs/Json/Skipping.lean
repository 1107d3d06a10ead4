import ShellPrompt.Proofs.Json.Containers

/-!
# ShellPrompt.Proofs.Json.Skipping

Any document can be passed over, however deep it nests and whatever its numbers and strings hold.

`Skips` and `SkipsRest` count the rounds of the loop: at most two for each character, which is what
`skipValue` provides for (`skipValue_spells`).
-/

namespace ShellPrompt
namespace Json

/-- From where a value is due the loop passes over the text and goes on behind it. -/
def Skips (t : List Char) : Prop :=
  ∃ rounds, rounds ≤ 2 * t.length ∧ ∀ bound stack w rest, Blanks w → Fenced rest →
    skipLoop (bound + rounds) .value stack (w ++ (t ++ rest)) = skipLoop bound .more stack rest

/-- Inside a frame the loop passes over the text, closes the frame and goes on behind it. -/
def SkipsRest (due : Due) (frame : Frame) (extra : Nat) (t : List Char) : Prop :=
  ∃ rounds, rounds ≤ 2 * t.length + extra ∧ ∀ bound stack rest,
    skipLoop (bound + rounds) due (frame :: stack) (t ++ frame.closing :: rest) =
      skipLoop bound .more stack rest

/-- Behind the opening quote of a member, the key and the colon are passed over, then the value. -/
def SkipsMember (t : List Char) : Prop :=
  ∃ rounds, rounds ≤ 2 * t.length ∧ ∀ rest, Fenced rest → ∃ text,
    skipKey .object ('"' :: (t ++ rest)) = .ok text ∧
      ∀ bound stack, skipLoop (bound + rounds) .value stack text = skipLoop bound .more stack rest

/-! ## One round -/

theorem skipOne_blanks {w : List Char} (hw : Blanks w) (text : List Char) :
    skipOne (w ++ text) = skipOne text := by
  unfold skipOne
  rw [skipBlank_append hw]

theorem skipOne_positive {digits rest : List Char} (h : Unsigned digits) (hrest : Fenced rest) :
    skipOne (digits ++ rest) = .ok (none, rest) := by
  have hskip := skipNumber_spells h hrest
  obtain ⟨c, tail, rfl, hc⟩ := h.exists_cons
  have hblank := (Opens.plain (.inr hc)).1
  have hone : skipOne (c :: tail ++ rest) =
      (skipNumber (c :: tail ++ rest)).map fun text => (none, text) := by
    rw [skipOne, List.cons_append, skipBlank_cons hblank]
    have hcases := isDigit_cases hc
    simp only [List.mem_cons, List.not_mem_nil, or_false] at hcases
    rcases hcases with rfl | rfl | rfl | rfl | rfl | rfl | rfl | rfl | rfl | rfl <;> rfl
  rw [hone, hskip]
  rfl

/-- A scalar takes one round. -/
theorem skips_of_skipOne {t : List Char} (hpos : 0 < t.length)
    (h : ∀ rest, Fenced rest → skipOne (t ++ rest) = .ok (none, rest)) : Skips t := by
  refine ⟨1, by omega, ?_⟩
  intro bound stack w rest hw hrest
  rw [skipLoop, skipOne_blanks hw, h rest hrest]
  rfl

theorem skips_frame (frame : Frame) {opening : Char} {t : List Char}
    (h : ∀ rest, skipOne (opening :: rest) = .ok (some frame, rest))
    (ht : SkipsRest .first frame 2 t) : Skips (opening :: (t ++ [frame.closing])) := by
  obtain ⟨rounds, hrounds, hskip⟩ := ht
  refine ⟨rounds + 1, ?_, ?_⟩
  · simp only [List.length_cons, List.length_append, List.length_nil]
    omega
  · intro bound stack w rest hw _
    have htext : opening :: (t ++ [frame.closing]) ++ rest =
        opening :: (t ++ frame.closing :: rest) := by simp
    rw [← Nat.add_assoc, skipLoop, skipOne_blanks hw, htext, h]
    exact hskip bound stack rest

theorem skipSeparator_close {frame : Frame} {w : List Char} (hw : Blanks w) (isFirst : Bool)
    (rest : List Char) :
    skipSeparator isFirst frame (w ++ frame.closing :: rest) = .ok (true, rest) := by
  have hblank : isBlank frame.closing = false := by cases frame <;> decide
  rw [skipSeparator, skipBlank_append hw, skipBlank_cons hblank]
  simp

theorem skipsRest_nil {due : Due} (hdue : due = .first ∨ due = .more) {frame : Frame}
    {w : List Char} (hw : Blanks w) {extra : Nat} (hextra : 0 < extra) :
    SkipsRest due frame extra w := by
  refine ⟨1, by omega, ?_⟩
  intro bound stack rest
  rcases hdue with rfl | rfl
  all_goals
    rw [skipLoop, skipSeparator_close hw]
    rfl

/-! ## Items -/

theorem skipSeparator_first {d : Doc} {s w : List Char} (hs : Spells d s) (hw : Blanks w)
    (rest : List Char) :
    skipSeparator true .list (w ++ (s ++ rest)) = .ok (false, s ++ rest) := by
  rw [skipSeparator, hs.skipBlank hw]
  obtain ⟨c, tail, rfl, hc⟩ := hs.exists_cons
  have hclose : c ≠ Frame.list.closing := hc.plain.2.1
  simp [hclose, skipKey, Except.map]

theorem skipSeparator_more {w : List Char} (hw : Blanks w) (rest : List Char) :
    skipSeparator false .list (w ++ ',' :: rest) = .ok (false, rest) := by
  rw [skipSeparator, skipBlank_append hw, skipBlank_cons (by decide)]
  rfl

theorem skipsRest_first {d : Doc} {w s u : List Char} (hw : Blanks w) (hd : Spells d s)
    (hs : Skips s) {ds : List Doc} (hds : SpellsMoreItems ds u) (hu : SkipsRest .more .list 1 u) :
    SkipsRest .first .list 2 (w ++ (s ++ u)) := by
  obtain ⟨rounds, hrounds, hskip⟩ := hs
  obtain ⟨rounds', hrounds', hskip'⟩ := hu
  refine ⟨rounds' + rounds + 1, ?_, ?_⟩
  · simp only [List.length_append]
    omega
  · intro bound stack rest
    have htext : w ++ (s ++ u) ++ Frame.list.closing :: rest =
        w ++ (s ++ (u ++ Frame.list.closing :: rest)) := by simp
    rw [htext, ← Nat.add_assoc, skipLoop, skipSeparator_first hd hw, ← Nat.add_assoc]
    exact (hskip _ _ [] _ blanks_nil (hds.fenced rest)).trans (hskip' bound stack rest)

theorem skipsRest_more {w w' s u : List Char} (hw : Blanks w) (hw' : Blanks w')
    (hs : Skips s) {ds : List Doc} (hds : SpellsMoreItems ds u) (hu : SkipsRest .more .list 1 u) :
    SkipsRest .more .list 1 (w ++ ',' :: (w' ++ (s ++ u))) := by
  obtain ⟨rounds, hrounds, hskip⟩ := hs
  obtain ⟨rounds', hrounds', hskip'⟩ := hu
  refine ⟨rounds' + rounds + 1, ?_, ?_⟩
  · simp only [List.length_append, List.length_cons]
    omega
  · intro bound stack rest
    have htext : w ++ ',' :: (w' ++ (s ++ u)) ++ Frame.list.closing :: rest =
        w ++ ',' :: (w' ++ (s ++ (u ++ Frame.list.closing :: rest))) := by simp
    rw [htext, ← Nat.add_assoc, skipLoop, skipSeparator_more hw, ← Nat.add_assoc]
    exact (hskip _ _ w' _ hw' (hds.fenced rest)).trans (hskip' bound stack rest)

/-! ## Members -/

theorem skipKey_blanks {w : List Char} (hw : Blanks w) (text : List Char) :
    skipKey .object (w ++ text) = skipKey .object text := by
  unfold skipKey
  rw [skipBlank_append hw]

theorem skipsMember {key : Units} {raw w w' s : List Char} (hkey : SpellsUnits key raw)
    (hw : Blanks w) (hw' : Blanks w') (hs : Skips s) :
    SkipsMember (raw ++ '"' :: (w ++ ':' :: (w' ++ s))) := by
  obtain ⟨rounds, hrounds, hskip⟩ := hs
  refine ⟨rounds, ?_, ?_⟩
  · simp only [List.length_append, List.length_cons]
    omega
  · intro rest hrest
    refine ⟨w' ++ (s ++ rest), ?_, fun bound stack => hskip bound stack w' rest hw' hrest⟩
    have htext : raw ++ '"' :: (w ++ ':' :: (w' ++ s)) ++ rest =
        raw ++ '"' :: (w ++ ':' :: (w' ++ (s ++ rest))) := by simp
    have hstring := skipString_spells hkey (w ++ ':' :: (w' ++ (s ++ rest)))
    rw [htext, skipKey, skipBlank_cons (by decide)]
    simp only [hstring]
    exact colon_append hw _

theorem skipSeparator_firstKey {w : List Char} (hw : Blanks w) (rest : List Char) :
    skipSeparator true .object (w ++ '"' :: rest) =
      (skipKey .object ('"' :: rest)).map fun text => (false, text) := by
  rw [skipSeparator, skipBlank_append hw, skipBlank_cons (by decide)]
  rfl

theorem skipSeparator_moreKey {w w' : List Char} (hw : Blanks w) (hw' : Blanks w')
    (rest : List Char) :
    skipSeparator false .object (w ++ ',' :: (w' ++ '"' :: rest)) =
      (skipKey .object ('"' :: rest)).map fun text => (false, text) := by
  rw [skipSeparator, skipBlank_append hw, skipBlank_cons (by decide), ← skipKey_blanks hw']
  rfl

theorem skipsRest_firstKey {w s u : List Char} (hw : Blanks w) (hs : SkipsMember s)
    {ms : List Member} (hms : SpellsMoreMembers ms u) (hu : SkipsRest .more .object 1 u) :
    SkipsRest .first .object 2 (w ++ '"' :: (s ++ u)) := by
  obtain ⟨rounds, hrounds, hskip⟩ := hs
  obtain ⟨rounds', hrounds', hskip'⟩ := hu
  refine ⟨rounds' + rounds + 1, ?_, ?_⟩
  · simp only [List.length_append, List.length_cons]
    omega
  · intro bound stack rest
    have htext : w ++ '"' :: (s ++ u) ++ Frame.object.closing :: rest =
        w ++ '"' :: (s ++ (u ++ Frame.object.closing :: rest)) := by simp
    obtain ⟨text, hkey, hvalue⟩ := hskip (u ++ Frame.object.closing :: rest) (hms.fenced rest)
    rw [htext, ← Nat.add_assoc, skipLoop, skipSeparator_firstKey hw, hkey, ← Nat.add_assoc]
    exact (hvalue _ _).trans (hskip' bound stack rest)

theorem skipsRest_moreKey {w w' s u : List Char} (hw : Blanks w) (hw' : Blanks w')
    (hs : SkipsMember s) {ms : List Member} (hms : SpellsMoreMembers ms u)
    (hu : SkipsRest .more .object 1 u) :
    SkipsRest .more .object 1 (w ++ ',' :: (w' ++ '"' :: (s ++ u))) := by
  obtain ⟨rounds, hrounds, hskip⟩ := hs
  obtain ⟨rounds', hrounds', hskip'⟩ := hu
  refine ⟨rounds' + rounds + 1, ?_, ?_⟩
  · simp only [List.length_append, List.length_cons]
    omega
  · intro bound stack rest
    have htext : w ++ ',' :: (w' ++ '"' :: (s ++ u)) ++ Frame.object.closing :: rest =
        w ++ ',' :: (w' ++ '"' :: (s ++ (u ++ Frame.object.closing :: rest))) := by simp
    obtain ⟨text, hkey, hvalue⟩ := hskip (u ++ Frame.object.closing :: rest) (hms.fenced rest)
    rw [htext, ← Nat.add_assoc, skipLoop, skipSeparator_moreKey hw hw', hkey, ← Nat.add_assoc]
    exact (hvalue _ _).trans (hskip' bound stack rest)

/-! ## Documents -/

mutual

theorem skips : ∀ {d : Doc} {t : List Char}, Spells d t → Skips t
  | _, _, .null => skips_of_skipOne (by simp) fun _ _ => rfl
  | _, _, .true => skips_of_skipOne (by simp) fun _ _ => rfl
  | _, _, .false => skips_of_skipOne (by simp) fun _ _ => rfl
  | _, _, .positive h => by
    refine skips_of_skipOne ?_ fun _ hrest => skipOne_positive h hrest
    obtain ⟨c, tail, rfl, -⟩ := h.exists_cons
    simp
  | _, _, .negative h => by
    refine skips_of_skipOne (by simp) fun rest hrest => ?_
    rw [List.cons_append, skipOne, skipBlank_cons (by decide)]
    simp only [skipNumber_spells h hrest]
    rfl
  | _, _, .string h => by
    refine skips_of_skipOne (by simp) fun rest _ => ?_
    rw [List.cons_append, List.append_assoc, skipOne, skipBlank_cons (by decide)]
    simp only [List.singleton_append, skipString_spells h]
    rfl
  | _, _, .array h => skips_frame .list (fun _ => rfl) (skipsItems h)
  | _, _, .object h => skips_frame .object (fun _ => rfl) (skipsMembers h)

theorem skipsItems : ∀ {ds : List Doc} {t : List Char},
    SpellsItems ds t → SkipsRest .first .list 2 t
  | _, _, .nil hw => skipsRest_nil (.inl rfl) hw (by decide)
  | _, _, .cons hw hd hds => skipsRest_first hw hd (skips hd) hds (skipsMoreItems hds)

theorem skipsMoreItems : ∀ {ds : List Doc} {t : List Char},
    SpellsMoreItems ds t → SkipsRest .more .list 1 t
  | _, _, .nil hw => skipsRest_nil (.inr rfl) hw (by decide)
  | _, _, .cons hw hw' hd hds => skipsRest_more hw hw' (skips hd) hds (skipsMoreItems hds)

theorem skipsMembers : ∀ {ms : List Member} {t : List Char},
    SpellsMembers ms t → SkipsRest .first .object 2 t
  | _, _, .nil hw => skipsRest_nil (.inl rfl) hw (by decide)
  | _, _, .cons hw hm hms => skipsRest_firstKey hw (skipsKeyed hm) hms (skipsMoreMembers hms)

theorem skipsMoreMembers : ∀ {ms : List Member} {t : List Char},
    SpellsMoreMembers ms t → SkipsRest .more .object 1 t
  | _, _, .nil hw => skipsRest_nil (.inr rfl) hw (by decide)
  | _, _, .cons hw hw' hm hms =>
    skipsRest_moreKey hw hw' (skipsKeyed hm) hms (skipsMoreMembers hms)

theorem skipsKeyed : ∀ {m : Member} {t : List Char}, SpellsMember m t → SkipsMember t
  | _, _, .intro hkey hw hw' hd => skipsMember hkey hw hw' (skips hd)

end

theorem skipValue_spells {d : Doc} {t : List Char} (h : Spells d t) {w rest : List Char}
    (hw : Blanks w) (hrest : Fenced rest) : skipValue (w ++ (t ++ rest)) = .ok rest := by
  obtain ⟨rounds, hrounds, hskip⟩ := skips h
  obtain ⟨spare, hspare⟩ : ∃ spare,
      2 * (w ++ (t ++ rest)).length + 2 = spare + 1 + rounds :=
    ⟨2 * (w ++ (t ++ rest)).length + 1 - rounds, by simp only [List.length_append]; omega⟩
  rw [skipValue, hspare, hskip _ _ _ _ hw hrest]
  rfl

end Json
end ShellPrompt
