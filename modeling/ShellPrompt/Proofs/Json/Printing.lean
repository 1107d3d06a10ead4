import ShellPrompt.Log.Event
import ShellPrompt.Proofs.Text.Utf8

/-!
# ShellPrompt.Proofs.Json.Printing

Printed JSON holds no control characters below the space: strings escape them (`graphic_escape`),
numbers and punctuation have none, and so has no value (`Value.graphic_print`). A line of a log
therefore has its line feed at the end and nowhere else (`Event.graphic_print`).
-/

namespace ShellPrompt
namespace Json

/-- No control character below the space. -/
def Graphic (text : List Char) : Prop := ∀ c ∈ text, 0x20 ≤ c.toNat

namespace Graphic

variable {a b : List Char}

@[simp] theorem nil : Graphic [] := by simp [Graphic]

@[simp] theorem cons_iff {c : Char} : Graphic (c :: a) ↔ 0x20 ≤ c.toNat ∧ Graphic a := by
  simp [Graphic]

@[simp] theorem append_iff : Graphic (a ++ b) ↔ Graphic a ∧ Graphic b := by
  simp [Graphic, or_imp, forall_and]

theorem flatMap {α : Type} {items : List α} {f : α → List Char} (h : ∀ x ∈ items, Graphic (f x)) :
    Graphic (items.flatMap f) := by
  intro c hc
  obtain ⟨x, hx, hcx⟩ := List.mem_flatMap.1 hc
  exact h x hx c hcx

theorem of_subset (h : Graphic b) (hsub : ∀ c ∈ a, c ∈ b) : Graphic a :=
  fun c hc => h c (hsub c hc)

theorem intercalate {gap : List Char} (hgap : Graphic gap) {pieces : List (List Char)}
    (h : ∀ p ∈ pieces, Graphic p) : Graphic (gap.intercalate pieces) := by
  induction pieces with
  | nil => simp
  | cons p rest ih =>
    have hp := h p (by simp)
    cases rest with
    | nil => simpa using hp
    | cons q rest =>
      rw [List.intercalate_cons_cons]
      simp only [append_iff]
      exact ⟨⟨hp, hgap⟩, ih fun r hr => h r (by simp [hr])⟩

end Graphic

/-! ## Numbers -/

theorem graphic_of_isDigit {text : List Char} (h : ∀ c ∈ text, c.isDigit = true) :
    Graphic text := by
  intro c hc
  have hdigit := Char.isDigit_iff_toNat.1 (h c hc)
  have : '0'.toNat = 0x30 := rfl
  omega

theorem graphic_decimal (n : Nat) : Graphic (Text.Numeral.decimal n) :=
  graphic_of_isDigit fun _ hc => Nat.isDigit_of_mem_toDigits (by decide) (by decide) hc

theorem graphic_signed (z : Int) : Graphic (Text.Numeral.signed z) := by
  unfold Text.Numeral.signed
  split <;> simp [graphic_decimal]

theorem graphic_stripZeros {digits : List Char} (h : Graphic digits) :
    Graphic (Binary64.stripZeros digits) := by
  refine h.of_subset fun c hc => ?_
  have hdrop := (List.dropWhile_suffix _).subset (List.mem_reverse.1 hc)
  exact List.mem_reverse.1 hdrop

theorem graphic_zeros (n : Nat) : Graphic (List.replicate n '0') := by
  intro c hc
  rw [List.eq_of_mem_replicate hc]
  decide

theorem graphic_exponent (e : Int) :
    Graphic ('e' :: (if e < 0 then '-' else '+') :: Text.Numeral.decimal e.natAbs) := by
  have hsign : 0x20 ≤ (if e < 0 then '-' else '+').toNat := by split <;> decide
  simp [graphic_decimal, hsign]

theorem graphic_layout {digits : List Char} (h : Graphic digits) (point : Int) :
    Graphic (Binary64.layout digits point) := by
  have htake : Graphic (digits.take point.toNat) := h.of_subset fun _ => List.mem_of_mem_take
  have hdrop : Graphic (digits.drop point.toNat) := h.of_subset fun _ => List.mem_of_mem_drop
  have htail := graphic_exponent (point - 1)
  simp only [Binary64.layout]
  by_cases hwhole : (digits.length : Int) ≤ point ∧ point ≤ 16
  · rw [if_pos hwhole]
    simp [h, graphic_zeros]
  rw [if_neg hwhole]
  by_cases hinside : 0 < point ∧ point ≤ 16
  · rw [if_pos hinside]
    simp [htake, hdrop]
  rw [if_neg hinside]
  by_cases hsmall : -5 < point ∧ point ≤ 0
  · rw [if_pos hsmall]
    simp [h, graphic_zeros]
  rw [if_neg hsmall]
  cases digits with
  | nil => exact htail
  | cons d rest =>
    obtain ⟨hd, hrest⟩ := Graphic.cons_iff.1 h
    cases rest with
    | nil => exact Graphic.cons_iff.2 ⟨hd, htail⟩
    | cons e rest =>
      have hpoint : Graphic ('.' :: e :: rest) := Graphic.cons_iff.2 ⟨by decide, hrest⟩
      exact Graphic.append_iff.2 ⟨Graphic.cons_iff.2 ⟨hd, hpoint⟩, htail⟩

theorem graphic_text (x : Binary64) : Graphic x.text := by
  have hsigned : ∀ body, Graphic body → Graphic (if x.isNegative then '-' :: body else body) := by
    intro body hbody
    split <;> simp [hbody]
  simp only [Binary64.text]
  refine hsigned _ ?_
  split
  · simp
  · exact graphic_layout (graphic_stripZeros (graphic_decimal _)) _

theorem Number.graphic_print (n : Number) : Graphic n.print := by
  cases n with
  | int z => exact graphic_signed z
  | float x => exact graphic_text x

/-! ## Strings -/

theorem graphic_hexChar {d : Nat} (h : d < 16) : 0x20 ≤ (Text.Numeral.hexChar d).toNat := by
  have hall : ∀ d < 16, 0x20 ≤ (Text.Numeral.hexChar d).toNat := by decide
  exact hall d h

theorem graphic_escapeControl {c : Char} (h : c.toNat < 0x20) : Graphic (escapeControl c) := by
  have hhead : Graphic "\\u00".toList := by simp
  have hdigits : Graphic
      [Text.Numeral.hexChar (c.toNat / 16), Text.Numeral.hexChar (c.toNat % 16)] := by
    simp only [Graphic.cons_iff, Graphic.nil, and_true]
    exact ⟨graphic_hexChar (by omega), graphic_hexChar (by omega)⟩
  exact Graphic.append_iff.2 ⟨hhead, hdigits⟩

theorem graphic_escape (c : Char) : Graphic (escape c) := by
  have hpair : ∀ d : Char, 0x20 ≤ d.toNat → Graphic ['\\', d] := by
    intro d hd
    simp [hd]
  unfold escape
  split
  · exact hpair _ (by decide)
  split
  · exact hpair _ (by decide)
  split
  · exact hpair _ (by decide)
  split
  · exact hpair _ (by decide)
  split
  · exact hpair _ (by decide)
  split
  · exact hpair _ (by decide)
  split
  · exact hpair _ (by decide)
  split
  case isTrue h => exact graphic_escapeControl h
  case isFalse h =>
    simp
    omega

theorem graphic_printString (s : String) : Graphic (printString s) := by
  have hbody : Graphic (s.toList.flatMap escape) := Graphic.flatMap fun c _ => graphic_escape c
  simp [printString, hbody]

/-! ## Values -/

theorem graphic_bracket {opening closing : Char} (hopen : 0x20 ≤ opening.toNat)
    (hclose : 0x20 ≤ closing.toNat) {items : List (List Char)} (h : ∀ t ∈ items, Graphic t) :
    Graphic (bracket opening closing items) := by
  have hitems : Graphic ([','].intercalate items) := Graphic.intercalate (by simp) h
  simp [bracket, hopen, hclose, hitems]

theorem graphic_printList {items : List (List Char)} (h : ∀ t ∈ items, Graphic t) :
    Graphic (printList items) :=
  graphic_bracket (by decide) (by decide) h

theorem graphic_printObject {members : List (String × List Char)}
    (h : ∀ m ∈ members, Graphic m.2) : Graphic (printObject members) := by
  refine graphic_bracket (by decide) (by decide) ?_
  intro t ht
  obtain ⟨m, hm, rfl⟩ := List.mem_map.1 ht
  simp [printMember, graphic_printString, h m hm]

theorem graphic_null : Graphic "null".toList := by simp

theorem graphic_bool (b : Bool) : Graphic (Value.bool b).print := by
  have htrue : Graphic "true".toList := by simp
  have hfalse : Graphic "false".toList := by simp
  cases b
  · exact hfalse
  · exact htrue

mutual

theorem Value.graphic_print : ∀ v : Value, Graphic v.print
  | .null => graphic_null
  | .bool b => graphic_bool b
  | .number n => n.graphic_print
  | .string s => graphic_printString s
  | .array items => graphic_printList (graphic_printItems items)
  | .object members => graphic_printObject (graphic_printMembers members)

theorem graphic_printItems : ∀ items : List Value, ∀ t ∈ printItems items, Graphic t
  | v :: rest, t, ht => by
    rcases List.mem_cons.1 ht with rfl | ht
    · exact v.graphic_print
    · exact graphic_printItems rest t ht

theorem graphic_printMembers :
    ∀ members : List (String × Value), ∀ m ∈ printMembers members, Graphic m.2
  | (key, v) :: rest, m, hm => by
    rcases List.mem_cons.1 hm with rfl | hm
    · exact v.graphic_print
    · exact graphic_printMembers rest m hm

end

end Json

namespace Log

theorem Event.graphic_print (e : Event) : Json.Graphic e.print := by
  have hfields : ∀ m ∈ (if e.fields.isEmpty then []
      else [("fields", (Json.Value.object e.fields).print)]), Json.Graphic m.2 := by
    intro m hm
    split at hm
    · simp at hm
    · rw [List.mem_singleton.1 hm]
      exact Json.Value.graphic_print _
  refine Json.graphic_printObject ?_
  intro m hm
  simp only [List.cons_append, List.nil_append, List.mem_cons] at hm
  rcases hm with rfl | rfl | rfl | rfl | hm
  · exact Json.graphic_decimal _
  · exact Json.graphic_printString _
  · exact Json.graphic_printString _
  · exact Json.graphic_printString _
  · exact hfields m hm

end Log
end ShellPrompt
