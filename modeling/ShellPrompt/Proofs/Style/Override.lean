import ShellPrompt.Proofs.Style.StyleWords

/-!
# ShellPrompt.Proofs.Style.Override

Style strings put one behind the other.

Reading words on top of a style is reading them on their own and laying the result over that style,
unless `none` is among them, which takes everything before it away (`applyWords_eq`). So a joined
string is read as its parts laid over each other (`parse_append`).
-/

namespace ShellPrompt
namespace Style

namespace Descriptor

open Item (Reads)

/-- One style over another: all attributes of both, and each colour of the lower one where the
upper one has none. -/
def onto (upper lower : Descriptor) : Descriptor where
  fg := upper.fg.or lower.fg
  bg := upper.bg.or lower.bg
  bold := upper.bold || lower.bold
  dimmed := upper.dimmed || lower.dimmed
  italic := upper.italic || lower.italic
  underline := upper.underline || lower.underline

theorem onto_assoc (a b c : Descriptor) : (a.onto b).onto c = a.onto (b.onto c) := by
  simp [onto, Option.or_assoc, Bool.or_assoc]

theorem put_eq_onto {item : Item} (h : item ≠ .clear) (d : Descriptor) :
    item.put d = (item.put plain).onto d := by
  cases item with
  | clear => exact absurd rfl h
  | bold | dimmed | italic | underline | fg c | bg c => simp [Item.put, onto, plain]

/-! ## Words on top of a style -/

/-- `none` is among the words, in any letter case of the string they come from. -/
def Clears (words : List (List Char)) : Prop := "none".toList ∈ words

instance (words : List (List Char)) : Decidable (Clears words) :=
  inferInstanceAs (Decidable (_ ∈ _))

theorem reads_clear_iff {word : List Char} : Reads word .clear ↔ word = "none".toList := by
  constructor
  · rintro ((⟨k, hk, rfl⟩ | h) | h)
    · have hall : ∀ e ∈ Item.keywords, e.2 = .clear → e.1 = "none" := by decide
      exact congrArg String.toList (hall _ hk rfl)
    · cases h
    · cases h
  · rintro rfl
    exact .inl (.inl ⟨"none", by decide, rfl⟩)

/-- What is wrong with a word does not depend on the words before it. -/
theorem applyWord_error {d d' : Descriptor} {word : List Char} {fault : Fault Reason}
    (h : applyWord d word = .error fault) : applyWord d' word = .error fault := by
  rcases applyWord_cases word with ⟨k, hk, rfl, hread⟩ | hpaint
  · obtain ⟨next, hnext⟩ := hread d
    rw [hnext] at h
    cases h
  · rw [hpaint] at h ⊢
    unfold paintWord at h ⊢
    split at h
    case h_1 => exact map_eq_error_iff.2 (map_eq_error_iff.1 h)
    case h_2 => exact map_eq_error_iff.2 (map_eq_error_iff.1 h)

/-- What is read over a style. -/
def atop (words : List (List Char)) (lower upper : Descriptor) : Descriptor :=
  if Clears words then upper else upper.onto lower

theorem atop_cons {word : List Char} {item : Item} (h : Reads word item)
    (rest : List (List Char)) (d u : Descriptor) :
    atop rest (item.put d) u = atop (word :: rest) d (atop rest (item.put plain) u) := by
  by_cases hrest : Clears rest
  · have hcons : Clears (word :: rest) := List.mem_cons_of_mem _ hrest
    simp only [atop, if_pos hrest, if_pos hcons]
  · by_cases hword : word = "none".toList
    · obtain rfl : item = .clear := reads_unique h (reads_clear_iff.2 hword)
      have hcons : Clears (word :: rest) := List.mem_cons.2 (.inl hword.symm)
      simp only [atop, if_neg hrest, if_pos hcons]
      rfl
    · have hitem : item ≠ .clear := by
        rintro rfl
        exact hword (reads_clear_iff.1 h)
      have hcons : ¬ Clears (word :: rest) := fun hmem =>
        (List.mem_cons.1 hmem).elim (fun heq => hword heq.symm) hrest
      simp only [atop, if_neg hrest, if_neg hcons]
      rw [put_eq_onto hitem d, onto_assoc]

/-- Words are read on top of a style as they are on their own. -/
theorem applyWords_eq (d : Descriptor) (words : List (List Char)) :
    applyWords d words = (applyWords plain words).map (atop words d) := by
  induction words generalizing d with
  | nil => rfl
  | cons word rest ih =>
    cases hword : applyWord plain word with
    | error fault => simp only [applyWords, hword, applyWord_error hword, Except.map]
    | ok next =>
      obtain ⟨item, hread, rfl⟩ := applyWord_eq_ok_iff.1 hword
      simp only [applyWords, applyWord_of_reads hread]
      rw [ih (item.put d), ih (item.put plain)]
      cases applyWords plain rest with
      | error fault => rfl
      | ok u => exact congrArg Except.ok (atop_cons hread rest d u)

theorem applyWords_append (d : Descriptor) (xs ys : List (List Char)) :
    applyWords d (xs ++ ys) = (applyWords d xs).bind fun d' => applyWords d' ys := by
  induction xs generalizing d with
  | nil => rfl
  | cons word rest ih =>
    rw [List.cons_append, applyWords, applyWords]
    cases applyWord d word with
    | error fault => rfl
    | ok next => exact ih next

/-! ## Joined style strings -/

theorem wordsOf_append {gap : List Char} (hne : gap ≠ []) (h : Text.Blanks gap)
    (a b : List Char) : wordsOf (a ++ gap ++ b) = wordsOf a ++ wordsOf b := by
  rw [wordsOf, Text.words_append_blanks hne h, List.map_append]
  rfl

theorem applyWords_join (a b : List (List Char)) : applyWords plain (a ++ b) =
    (applyWords plain a).bind fun d => (applyWords plain b).map (atop b d) := by
  rw [applyWords_append]
  congr 1
  funext d
  exact applyWords_eq d b

/-- To `parse`, a blank between two style strings lays the second over the first (`onto`), or puts
it in its place if it `Clears`. What is wrong with the first comes before what is wrong with the
second, and either is an error in the whole string. -/
theorem parse_append (a w b : String) (hne : w ≠ "") (hblank : Text.Blanks w.toList) :
    ((∃ d, parse (a ++ w ++ b) = .ok d) ↔ (∃ d, parse a = .ok d) ∧ ∃ d, parse b = .ok d) ∧
      (∀ da db, parse a = .ok da → parse b = .ok db → parse (a ++ w ++ b) =
        .ok (if Clears (wordsOf b.toList) then db else db.onto da)) ∧
      (∀ e, parse a = .error (.error e) →
        parse (a ++ w ++ b) = .error (.error ⟨a ++ w ++ b, e.reason⟩)) ∧
      ∀ da e, parse a = .ok da → parse b = .error (.error e) →
        parse (a ++ w ++ b) = .error (.error ⟨a ++ w ++ b, e.reason⟩) := by
  have hjoin : applyWords plain (wordsOf (a ++ w ++ b).toList) =
      (applyWords plain (wordsOf a.toList)).bind fun d =>
        (applyWords plain (wordsOf b.toList)).map (atop (wordsOf b.toList) d) := by
    rw [String.toList_append, String.toList_append,
      wordsOf_append (by simpa using hne) hblank, applyWords_join]
  have hboth : ∀ da db, parse a = .ok da → parse b = .ok db →
      parse (a ++ w ++ b) = .ok (atop (wordsOf b.toList) da db) := by
    intro da db hda hdb
    rw [parse_eq_ok_iff_applyWords] at hda hdb ⊢
    rw [hjoin, hda, hdb]
    rfl
  refine ⟨⟨?_, ?_⟩, hboth, ?_, ?_⟩
  · rintro ⟨d, hd⟩
    rw [parse_eq_ok_iff_applyWords, hjoin] at hd
    simp only [parse_eq_ok_iff_applyWords]
    cases hda : applyWords plain (wordsOf a.toList) with
    | error fault =>
      rw [hda] at hd
      cases hd
    | ok da =>
      rw [hda] at hd
      obtain ⟨db, hdb, -⟩ := map_eq_ok_iff.1 hd
      exact ⟨⟨da, rfl⟩, db, hdb⟩
  · rintro ⟨⟨da, hda⟩, db, hdb⟩
    exact ⟨_, hboth da db hda hdb⟩
  · intro e he
    rw [parse_eq_error_iff, hjoin, (parse_eq_error_iff.1 he).1]
    exact ⟨rfl, rfl⟩
  · intro da e hda he
    rw [parse_eq_ok_iff_applyWords] at hda
    rw [parse_eq_error_iff, hjoin, hda, (parse_eq_error_iff.1 he).1]
    exact ⟨rfl, rfl⟩

/-- A later colour wins, an attribute stays, `none` forgets both, but no error. -/
theorem parse_append_green :
    parse ("bold red" ++ "\u2003" ++ "bg:blue Green") = .ok
        { fg := some (.named .green false), bg := some (.named .blue false), bold := true } ∧
      parse ("bold red" ++ "\u2003" ++ "None green") =
        .ok { fg := some (.named .green false) } ∧
      parse ("bold shiny" ++ "\u2003" ++ "none") =
        .error (.error ⟨"bold shiny" ++ "\u2003" ++ "none", .unknownWord "shiny"⟩) := by
  have hred : parse "bold red" = .ok { fg := some (.named .red false), bold := true } := by decide
  have hblank : Text.Blanks "\u2003".toList := by decide
  refine ⟨?_, ?_, ?_⟩
  · exact (parse_append _ _ _ (by decide) hblank).2.1 _
      { fg := some (.named .green false), bg := some (.named .blue false) } hred (by decide)
  · exact (parse_append _ _ _ (by decide) hblank).2.1 _ { fg := some (.named .green false) } hred
      (by decide)
  · exact (parse_append _ _ _ (by decide) hblank).2.2.1 ⟨"bold shiny", .unknownWord "shiny"⟩
      (by decide)

end Descriptor
end Style
end ShellPrompt
