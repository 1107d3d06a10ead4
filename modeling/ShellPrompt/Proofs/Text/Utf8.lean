import ShellPrompt.Text.Utf8

/-!
# ShellPrompt.Proofs.Text.Utf8

Texts and their bytes.

* `Boundary` says that a byte offset lies between two characters, and `splitAt?_eq_some_iff` that a
  text can be split at just these offsets, in one way. `upTo?`, `from?` and `between?` cut there or
  not at all.
* Different texts have different bytes (`encode_inj`), which read back as the text, and no other
  bytes do (`decode?_eq_some_iff`).
* A byte below 80 is a character by itself (`eq_singleton_of_mem`), so what ASCII characters
  separate in a text their bytes separate in its bytes (`splitOn_encode`).
* Of any bytes, text or not, something is shown (`lossy_ne_nil`), and no ASCII character that is not
  among them (`mem_of_mem_lossy`).
-/

namespace ShellPrompt
namespace Text
namespace Utf8

/-- The first characters of the text take up that many bytes. -/
def Boundary (n : Nat) (text : List Char) : Prop := ∃ a b, text = a ++ b ∧ size a = n

@[simp] theorem size_nil : size [] = 0 := rfl

@[simp] theorem size_cons (c : Char) (rest : List Char) :
    size (c :: rest) = c.utf8Size + size rest := rfl

@[simp] theorem size_append (a b : List Char) : size (a ++ b) = size a + size b := by
  induction a with
  | nil => simp
  | cons c rest ih => simp [ih, Nat.add_assoc]

theorem splitAt?_append (a b : List Char) : splitAt? (size a) (a ++ b) = some (a, b) := by
  induction a with
  | nil => cases b <;> rfl
  | cons c rest ih =>
    obtain ⟨k, hk⟩ : ∃ k, size (c :: rest) = k + 1 :=
      ⟨c.utf8Size + size rest - 1, by have := c.utf8Size_pos; rw [size_cons]; omega⟩
    rw [hk, List.cons_append, splitAt?, ← hk, size_cons, if_pos (Nat.le_add_right ..),
      Nat.add_sub_cancel_left, ih]
    rfl

theorem splitAt?_eq_some_iff {n : Nat} {text a b : List Char} :
    splitAt? n text = some (a, b) ↔ text = a ++ b ∧ size a = n := by
  constructor
  · intro h
    fun_induction splitAt? n text generalizing a b with
    | case1 text =>
      cases h
      exact ⟨rfl, rfl⟩
    | case2 n => cases h
    | case3 n c rest hle ih =>
      obtain ⟨⟨a', b'⟩, hsplit, hab⟩ := Option.map_eq_some_iff.1 h
      cases hab
      obtain ⟨rfl, hsize⟩ := ih hsplit
      exact ⟨rfl, by rw [size_cons, hsize]; omega⟩
    | case4 n c rest hlt => cases h
  · rintro ⟨rfl, rfl⟩
    exact splitAt?_append a b

theorem splitAt?_eq_none_iff {n : Nat} {text : List Char} :
    splitAt? n text = none ↔ ¬ Boundary n text := by
  constructor
  · rintro h ⟨a, b, hab⟩
    rw [splitAt?_eq_some_iff.2 hab] at h
    cases h
  · intro h
    cases hsplit : splitAt? n text with
    | none => rfl
    | some r => exact absurd ⟨r.1, r.2, splitAt?_eq_some_iff.1 hsplit⟩ h

theorem boundary_size (text : List Char) : Boundary (size text) text :=
  ⟨text, [], (List.append_nil text).symm, rfl⟩

theorem eq_of_append_eq {a b a' b' : List Char} (h : a ++ b = a' ++ b') (hsize : size a = size a') :
    a = a' ∧ b = b' := by
  have h₁ := splitAt?_append a b
  rw [h, hsize, splitAt?_append] at h₁
  cases h₁
  exact ⟨rfl, rfl⟩

/-! ## Cutting by bytes -/

/-- How many bytes stand before the first such character. -/
def offset? (p : Char → Bool) : List Char → Option Nat
  | [] => none
  | c :: rest => if p c then some 0 else (offset? p rest).map (c.utf8Size + ·)

def upTo? (n : Nat) (text : List Char) : Option (List Char) := (splitAt? n text).map (·.1)

def from? (n : Nat) (text : List Char) : Option (List Char) := (splitAt? n text).map (·.2)

def between? (a b : Nat) (text : List Char) : Option (List Char) :=
  if a ≤ b then (from? a text).bind (upTo? (b - a)) else none

theorem offset?_eq_none {p : Char → Bool} {text : List Char} (h : ∀ c ∈ text, p c = false) :
    offset? p text = none := by
  induction text with
  | nil => rfl
  | cons c rest ih =>
    obtain ⟨hc, hrest⟩ := List.forall_mem_cons.1 h
    simp [offset?, hc, ih hrest]

theorem offset?_append {p : Char → Bool} {front : List Char} (h : ∀ c ∈ front, p c = false)
    {c : Char} (hc : p c = true) (rest : List Char) :
    offset? p (front ++ c :: rest) = some (size front) := by
  induction front with
  | nil => simp [offset?, hc]
  | cons d front ih =>
    obtain ⟨hd, hfront⟩ := List.forall_mem_cons.1 h
    simp [offset?, hd, ih hfront]

theorem size_pos {text : List Char} (h : text ≠ []) : 0 < size text := by
  cases text with
  | nil => exact absurd rfl h
  | cons c rest => exact Nat.add_pos_left c.utf8Size_pos _

theorem upTo?_append (a b : List Char) : upTo? (size a) (a ++ b) = some a := by
  rw [upTo?, splitAt?_append]
  rfl

theorem from?_append (a b : List Char) : from? (size a) (a ++ b) = some b := by
  rw [from?, splitAt?_append]
  rfl

theorem between?_append (a b c : List Char) :
    between? (size a) (size a + size b) (a ++ (b ++ c)) = some b := by
  rw [between?, if_pos (Nat.le_add_right ..), from?_append, Nat.add_sub_cancel_left]
  exact upTo?_append b c

/-! ## Bytes of a text -/

theorem encode_inj {a b : List Char} : encode a = encode b ↔ a = b := by
  constructor
  · intro h
    have hbytes : (String.ofList a).toByteArray = (String.ofList b).toByteArray := by
      rw [String.toByteArray_ofList, String.toByteArray_ofList]
      exact congrArg List.toByteArray h
    exact String.ofList_injective (String.toByteArray_inj.1 hbytes)
  · rintro rfl
    rfl

theorem encode_cons (c : Char) (rest : List Char) :
    encode (c :: rest) = String.utf8EncodeChar c ++ encode rest := rfl

theorem encode_intercalate (gap : List Char) (pieces : List (List Char)) :
    encode (gap.intercalate pieces) = (encode gap).intercalate (pieces.map encode) := by
  induction pieces with
  | nil => simp
  | cons piece pieces ih =>
    cases pieces with
    | nil => simp
    | cons next pieces =>
      rw [List.intercalate_cons_cons, encode_append, encode_append, ih]
      simp only [List.map_cons, List.intercalate_cons_cons]

/-! ## Bytes below 80 -/

theorem toNat_byte {n : Nat} (h : n < 0x100) : (UInt8.ofNat n).toNat = n := by
  simp only [UInt8.toNat_ofNat']
  omega

/-- The code point of a character lies on either side of the surrogates. -/
theorem valid (c : Char) :
    c.val.toNat < 0xD800 ∨ 0xDFFF < c.val.toNat ∧ c.val.toNat < 0x110000 := c.valid

theorem utf8EncodeChar_ascii {c : Char} (h : c.toNat < 0x80) :
    String.utf8EncodeChar c = [UInt8.ofNat c.toNat] := by
  have hvalue : c.toNat = c.val.toNat := rfl
  simp only [String.utf8EncodeChar]
  exact if_pos (by omega)

/-- A byte below 80 is a character by itself. -/
theorem eq_singleton_of_mem {c : Char} {b : UInt8} (h : b ∈ String.utf8EncodeChar c)
    (hb : b.toNat < 0x80) : String.utf8EncodeChar c = [b] ∧ c.toNat = b.toNat := by
  -- every byte of a longer sequence has its highest bit set
  have hlater : ∀ n, 0x80 ≤ n → n < 0x100 → b ≠ UInt8.ofNat n := by
    rintro n hlow hhigh rfl
    rw [toNat_byte hhigh] at hb
    omega
  have hvalid := valid c
  have hchar : c.toNat = c.val.toNat := rfl
  simp only [String.utf8EncodeChar] at h ⊢
  generalize c.val.toNat = v at hvalid hchar h ⊢
  split at h
  case isTrue hsmall =>
    obtain rfl := List.mem_singleton.1 h
    exact ⟨if_pos hsmall, by rw [toNat_byte (by omega), hchar]⟩
  split at h
  case isTrue =>
    simp only [List.mem_cons, List.not_mem_nil, or_false] at h
    rcases h with h | h <;> exact absurd h (hlater _ (by omega) (by omega))
  split at h
  case isTrue =>
    simp only [List.mem_cons, List.not_mem_nil, or_false] at h
    rcases h with h | h | h <;> exact absurd h (hlater _ (by omega) (by omega))
  case isFalse =>
    simp only [List.mem_cons, List.not_mem_nil, or_false] at h
    rcases h with h | h | h | h <;> exact absurd h (hlater _ (by omega) (by omega))

theorem exists_mem_of_mem_encode {text : List Char} {b : UInt8} (h : b ∈ encode text)
    (hb : b.toNat < 0x80) : ∃ c ∈ text, c.toNat = b.toNat := by
  obtain ⟨c, hc, hbyte⟩ := List.mem_flatMap.1 h
  exact ⟨c, hc, (eq_singleton_of_mem hbyte hb).2⟩

/-- Only NUL is written with a zero byte. -/
theorem zero_not_mem_encode {text : List Char} (h : ∀ c ∈ text, 0 < c.toNat) :
    (0 : UInt8) ∉ encode text := by
  intro hzero
  obtain ⟨c, hc, heq⟩ := exists_mem_of_mem_encode hzero (by decide)
  have hpos := h c hc
  rw [heq] at hpos
  exact absurd hpos (by decide)

theorem splitOn_append_of_notMem {α : Type} [BEq α] [LawfulBEq α] {a : α} {xs : List α}
    (h : a ∉ xs) (ys : List α) :
    (xs ++ ys).splitOn a = (ys.splitOn a).modifyHead (xs ++ ·) := by
  induction xs with
  | nil => exact (congrFun List.modifyHead_id _).symm
  | cons x xs ih =>
    rw [List.mem_cons, not_or] at h
    have hx : (x == a) = false := by simpa using Ne.symm h.1
    rw [List.cons_append, List.splitOn_cons_eq_if_modifyHead, hx, ih h.2]
    simp [Function.comp_def]

theorem splitOn_encode {c : Char} (hc : c.toNat < 0x80) (text : List Char) :
    (encode text).splitOn (UInt8.ofNat c.toNat) = (text.splitOn c).map encode := by
  induction text with
  | nil => simp
  | cons c' rest ih =>
    rw [encode_cons, List.splitOn_cons_eq_if_modifyHead]
    by_cases heq : c' = c
    · subst heq
      rw [utf8EncodeChar_ascii hc, List.singleton_append, List.splitOn_cons_eq_if_modifyHead, ih]
      simp
    · have hnot : UInt8.ofNat c.toNat ∉ String.utf8EncodeChar c' := by
        intro hmem
        have hbyte : (UInt8.ofNat c.toNat).toNat = c.toNat := toNat_byte (by omega)
        have hsame := (eq_singleton_of_mem hmem (by omega)).2
        exact heq (Char.toNat_inj.1 (hsame.trans hbyte))
      rw [splitOn_append_of_notMem hnot, ih]
      obtain ⟨piece, pieces, hpieces⟩ := List.exists_cons_of_ne_nil (List.splitOn_ne_nil c rest)
      simp [hpieces, heq, encode_cons]

/-! ## Reading back -/

section Reading

variable {n : Nat} (rest : Bytes)

theorem scanFrom_start (h : n < 0x100) :
    scanFrom .start (UInt8.ofNat n :: rest) = (first n).1 ++ scanFrom (first n).2 rest := by
  simp [scanFrom, step, toNat_byte h]

theorem scanFrom_owed (more : Nat) {lo hi value : Nat} (hlow : lo ≤ n) (hhigh : n ≤ hi)
    (hbyte : hi < 0x100) :
    scanFrom (.owed (more + 2) lo hi value) (UInt8.ofNat n :: rest) =
      scanFrom (.owed (more + 1) 0x80 0xBF (value * 64 + n % 64)) rest := by
  have hmore : ¬ more + 2 ≤ 1 := by omega
  simp [scanFrom, step, toNat_byte (show n < 0x100 by omega), hlow, hhigh, hmore]

theorem scanFrom_last {lo hi value : Nat} (hlow : lo ≤ n) (hhigh : n ≤ hi) (hbyte : hi < 0x100) :
    scanFrom (.owed 1 lo hi value) (UInt8.ofNat n :: rest) =
      some (Char.ofNat (value * 64 + n % 64)) :: scanFrom .start rest := by
  simp [scanFrom, step, toNat_byte (show n < 0x100 by omega), hlow, hhigh]

theorem first_two (hlow : 0xC2 ≤ n) (hhigh : n < 0xE0) :
    first n = ([], .owed 1 0x80 0xBF (n - 0xC0)) := by
  rw [first, if_neg (by omega), if_neg (by omega), if_pos hhigh]

theorem first_three (hlow : 0xE0 ≤ n) (hhigh : n < 0xF0) :
    ∃ lo hi, first n = ([], .owed 2 lo hi (n - 0xE0)) ∧ hi < 0x100 ∧
      lo = (if n = 0xE0 then 0xA0 else 0x80) ∧ hi = if n = 0xED then 0x9F else 0xBF := by
  refine ⟨_, _, ?_, ?_, rfl, rfl⟩
  · rw [first, if_neg (by omega), if_neg (by omega), if_neg (by omega), if_pos hhigh]
    simp
  · split <;> omega

theorem first_four (hlow : 0xF0 ≤ n) (hhigh : n < 0xF5) :
    ∃ lo hi, first n = ([], .owed 3 lo hi (n - 0xF0)) ∧ hi < 0x100 ∧
      lo = (if n = 0xF0 then 0x90 else 0x80) ∧ hi = if n = 0xF4 then 0x8F else 0xBF := by
  refine ⟨_, _, ?_, ?_, rfl, rfl⟩
  · rw [first, if_neg (by omega), if_neg (by omega), if_neg (by omega), if_neg (by omega),
      if_pos hhigh]
    simp
  · split <;> omega

theorem scanFrom_char (c : Char) :
    scanFrom .start (String.utf8EncodeChar c ++ rest) = some c :: scanFrom .start rest := by
  have hvalid := valid c
  have hchar : Char.ofNat c.val.toNat = c := Char.ofNat_toNat c
  simp only [String.utf8EncodeChar]
  generalize c.val.toNat = v at hvalid hchar
  split
  case isTrue h =>
    rw [List.singleton_append, scanFrom_start _ (by omega), first, if_pos (by omega), hchar]
    rfl
  split
  case isTrue h =>
    have hvalue : (v / 64 % 32 + 192 - 192) * 64 + (v % 64 + 128) % 64 = v := by omega
    rw [List.cons_append, List.singleton_append, scanFrom_start _ (by omega),
      first_two (by omega) (by omega), scanFrom_last _ (by omega) (by omega) (by omega), hvalue,
      hchar]
    rfl
  split
  case isTrue h =>
    have hvalue : ((v / 4096 % 16 + 224 - 224) * 64 + (v / 64 % 64 + 128) % 64) * 64 +
        (v % 64 + 128) % 64 = v := by
      omega
    obtain ⟨lo, hi, hfirst, hbyte, hlo, hhi⟩ :=
      first_three (show 0xE0 ≤ v / 4096 % 16 + 224 by omega) (by omega)
    have hsecond : lo ≤ v / 64 % 64 + 128 ∧ v / 64 % 64 + 128 ≤ hi := by
      constructor <;> split at hlo <;> split at hhi <;> omega
    rw [List.cons_append, List.cons_append, List.singleton_append, scanFrom_start _ (by omega),
      hfirst, scanFrom_owed _ 0 hsecond.1 hsecond.2 hbyte,
      scanFrom_last _ (by omega) (by omega) (by omega), hvalue, hchar]
    rfl
  case isFalse h =>
    have hvalue : (((v / 262144 % 8 + 240 - 240) * 64 + (v / 4096 % 64 + 128) % 64) * 64 +
        (v / 64 % 64 + 128) % 64) * 64 + (v % 64 + 128) % 64 = v := by
      omega
    obtain ⟨lo, hi, hfirst, hbyte, hlo, hhi⟩ :=
      first_four (show 0xF0 ≤ v / 262144 % 8 + 240 by omega) (by omega)
    have hsecond : lo ≤ v / 4096 % 64 + 128 ∧ v / 4096 % 64 + 128 ≤ hi := by
      constructor <;> split at hlo <;> split at hhi <;> omega
    rw [List.cons_append, List.cons_append, List.cons_append, List.singleton_append,
      scanFrom_start _ (by omega), hfirst,
      scanFrom_owed _ 1 hsecond.1 hsecond.2 hbyte,
      scanFrom_owed _ 0 (by omega) (by omega) (by omega),
      scanFrom_last _ (by omega) (by omega) (by omega), hvalue, hchar]
    rfl

end Reading

theorem scan_encode (text : List Char) : scan (encode text) = text.map some := by
  rw [scan]
  induction text with
  | nil => rfl
  | cons c rest ih => rw [encode_cons, scanFrom_char, ih, List.map_cons]

@[simp] theorem decode?_encode (text : List Char) : decode? (encode text) = some text := by
  rw [decode?, scan_encode]
  induction text with
  | nil => rfl
  | cons c rest ih => simp [List.mapM_cons, ih]

@[simp] theorem lossy_encode (text : List Char) : lossy (encode text) = text := by
  simp [lossy, scan_encode, Function.comp_def]

/-! ## Any bytes -/

theorem scanFrom_cons (s : State) (b : UInt8) (rest : Bytes) :
    scanFrom s (b :: rest) = (step s b.toNat).1 ++ scanFrom (step s b.toNat).2 rest := by
  cases s <;> rfl

theorem eq_ofNat {b : UInt8} {n : Nat} (h : b.toNat = n) : b = UInt8.ofNat n := by
  rw [← h, UInt8.ofNat_toNat]

/-- Inside a character the next byte is one that continues it. -/
theorem exists_next {more lo hi value : Nat} {bytes : Bytes}
    (h : none ∉ scanFrom (.owed more lo hi value) bytes) :
    ∃ b rest, bytes = b :: rest ∧ lo ≤ b.toNat ∧ b.toNat ≤ hi ∧
      scanFrom (.owed more lo hi value) bytes =
        if more ≤ 1 then some (Char.ofNat (value * 64 + b.toNat % 64)) :: scanFrom .start rest
        else scanFrom (.owed (more - 1) 0x80 0xBF (value * 64 + b.toNat % 64)) rest := by
  cases bytes with
  | nil => exact absurd (List.mem_singleton.2 rfl) h
  | cons b rest =>
    rw [scanFrom_cons] at h
    by_cases hb : lo ≤ b.toNat ∧ b.toNat ≤ hi
    · refine ⟨b, rest, rfl, hb.1, hb.2, ?_⟩
      rw [scanFrom_cons]
      by_cases hmore : more ≤ 1 <;> simp [step, hb, hmore]
    · have hstep : none ∈ (step (.owed more lo hi value) b.toNat).1 := by
        simp [step, hb]
      exact absurd (List.mem_append_left _ hstep) h

theorem val_ofNat {v : Nat} (h : v < 0xD800 ∨ 0xDFFF < v ∧ v < 0x110000) :
    (Char.ofNat v).val.toNat = v := by
  rw [Char.ofNat, dif_pos (show v.isValidChar from h)]
  rfl

/-- The bytes that may begin a character. -/
theorem first_valid {n : Nat} (h : none ∉ (first n).1) :
    n < 0x80 ∨ 0xC2 ≤ n ∧ n < 0xE0 ∨ 0xE0 ≤ n ∧ n < 0xF0 ∨ 0xF0 ≤ n ∧ n < 0xF5 := by
  unfold first at h
  split at h
  · omega
  split at h
  · simp at h
  split at h
  · omega
  split at h
  · omega
  split at h
  · omega
  · simp at h

/-- Bytes without an invalid sequence begin with those of a character. -/
theorem exists_char {b : UInt8} {bytes : Bytes} (h : none ∉ scan (b :: bytes)) :
    ∃ c rest, b :: bytes = String.utf8EncodeChar c ++ rest ∧
      scan (b :: bytes) = some c :: scan rest := by
  have hb : b.toNat < 0x100 := b.toNat_lt
  have hscan : scan (b :: bytes) = (first b.toNat).1 ++ scanFrom (first b.toNat).2 bytes := by
    rw [scan, scanFrom_cons]
    rfl
  rw [hscan] at h ⊢
  have hrange := first_valid fun hmem => h (List.mem_append_left _ hmem)
  rcases hrange with hone | ⟨hlow, hhigh⟩ | ⟨hlow, hhigh⟩ | ⟨hlow, hhigh⟩
  · have hval := val_ofNat (v := b.toNat) (.inl (by omega))
    refine ⟨Char.ofNat b.toNat, bytes, ?_, ?_⟩
    · simp only [String.utf8EncodeChar, hval]
      rw [if_pos (by omega), List.singleton_append, UInt8.ofNat_toNat]
    · rw [first, if_pos hone]
      rfl
  · rw [first_two hlow hhigh] at h ⊢
    obtain ⟨b₁, rest, rfl, hlow₁, hhigh₁, hnext⟩ := exists_next h
    refine ⟨_, rest, ?_, hnext⟩
    simp only [String.utf8EncodeChar]
    rw [val_ofNat (.inl (by omega)), if_neg (by omega), if_pos (by omega)]
    simp only [List.cons_append, List.nil_append, List.cons.injEq, and_true]
    exact ⟨eq_ofNat (by omega), eq_ofNat (by omega)⟩
  · obtain ⟨lo, hi, hfirst, -, hlo, hhi⟩ := first_three hlow hhigh
    rw [hfirst] at h ⊢
    obtain ⟨b₁, rest, rfl, hlow₁, hhigh₁, hnext⟩ := exists_next h
    rw [List.nil_append, hnext, if_neg (by omega)] at h
    obtain ⟨b₂, rest, rfl, hlow₂, hhigh₂, hnext₂⟩ := exists_next h
    have hsecond : 0x80 ≤ b₁.toNat ∧ b₁.toNat ≤ 0xBF ∧ (b.toNat = 0xE0 → 0xA0 ≤ b₁.toNat) ∧
        (b.toNat = 0xED → b₁.toNat ≤ 0x9F) := by
      split at hlo <;> split at hhi <;> omega
    refine ⟨_, rest, ?_, hnext.trans hnext₂⟩
    simp only [String.utf8EncodeChar]
    rw [val_ofNat (by omega), if_neg (by omega), if_neg (by omega), if_pos (by omega)]
    simp only [List.cons_append, List.nil_append, List.cons.injEq, and_true]
    exact ⟨eq_ofNat (by omega), eq_ofNat (by omega), eq_ofNat (by omega)⟩
  · obtain ⟨lo, hi, hfirst, -, hlo, hhi⟩ := first_four hlow hhigh
    rw [hfirst] at h ⊢
    obtain ⟨b₁, rest, rfl, hlow₁, hhigh₁, hnext⟩ := exists_next h
    rw [List.nil_append, hnext, if_neg (by omega)] at h
    obtain ⟨b₂, rest, rfl, hlow₂, hhigh₂, hnext₂⟩ := exists_next h
    rw [hnext₂, if_neg (by omega)] at h
    obtain ⟨b₃, rest, rfl, hlow₃, hhigh₃, hnext₃⟩ := exists_next h
    have hsecond : 0x80 ≤ b₁.toNat ∧ b₁.toNat ≤ 0xBF ∧ (b.toNat = 0xF0 → 0x90 ≤ b₁.toNat) ∧
        (b.toNat = 0xF4 → b₁.toNat ≤ 0x8F) := by
      split at hlo <;> split at hhi <;> omega
    refine ⟨_, rest, ?_, hnext.trans (hnext₂.trans hnext₃)⟩
    simp only [String.utf8EncodeChar]
    rw [val_ofNat (by omega), if_neg (by omega), if_neg (by omega), if_neg (by omega)]
    simp only [List.cons_append, List.nil_append, List.cons.injEq, and_true]
    exact ⟨eq_ofNat (by omega), eq_ofNat (by omega), eq_ofNat (by omega), eq_ofNat (by omega)⟩

theorem mapM_id_eq_some {xs : List (Option Char)} {text : List Char} (h : xs.mapM id = some text) :
    xs = text.map some := by
  induction xs generalizing text with
  | nil =>
    cases h
    rfl
  | cons x xs ih =>
    simp only [List.mapM_cons, id_eq, Option.bind_eq_bind, Option.bind_eq_some_iff, Option.pure_def,
      Option.some.injEq] at h
    obtain ⟨c, rfl, rest, hrest, rfl⟩ := h
    rw [ih hrest, List.map_cons]

/-- The bytes that are text are those of a text. -/
theorem decode?_eq_some_iff {bytes : Bytes} {text : List Char} :
    decode? bytes = some text ↔ bytes = encode text := by
  constructor
  · intro h
    have hscan : scan bytes = text.map some := mapM_id_eq_some h
    clear h
    induction text generalizing bytes with
    | nil =>
      cases bytes with
      | nil => rfl
      | cons b bytes =>
        obtain ⟨c, rest, -, hchar⟩ := exists_char (show none ∉ scan (b :: bytes) by simp [hscan])
        rw [hchar] at hscan
        cases hscan
    | cons c text ih =>
      cases bytes with
      | nil => cases hscan
      | cons b bytes =>
        have hvalid : none ∉ scan (b :: bytes) := by simp [hscan]
        obtain ⟨c', rest, hbytes, hchar⟩ := exists_char hvalid
        rw [hchar, List.map_cons, List.cons.injEq, Option.some.injEq] at hscan
        obtain ⟨rfl, hrest⟩ := hscan
        rw [hbytes, encode_cons, ih hrest]
  · rintro rfl
    exact decode?_encode text

/-- A reader inside a character is on its way to one of more than one byte. -/
def State.Long : State → Prop
  | .start => True
  | .owed more lo hi value =>
    2 ≤ value ∨ 2 ≤ more ∧ (1 ≤ value ∨ 0x90 ≤ lo ∧ hi ≤ 0xBF)

theorem first_long (b : Nat) :
    (first b).2.Long ∧ ∀ c, some c ∈ (first b).1 → b < 0x80 ∧ c = Char.ofNat b := by
  unfold first
  split
  case isTrue h => simp [State.Long, h]
  split
  case isTrue => simp [State.Long]
  split
  case isTrue =>
    refine ⟨.inl (by omega), by simp⟩
  split
  case isTrue =>
    refine ⟨.inr ⟨Nat.le_refl 2, ?_⟩, by simp⟩
    by_cases hb : b = 0xE0
    · subst hb
      exact .inr ⟨by decide, by decide⟩
    · exact .inl (by omega)
  split
  case isTrue =>
    refine ⟨.inr ⟨by omega, ?_⟩, by simp⟩
    by_cases hb : b = 0xF0
    · subst hb
      exact .inr ⟨by decide, by decide⟩
    · exact .inl (by omega)
  case isFalse => simp [State.Long]

/-- What a byte completes is that byte or a character of more than one byte. -/
theorem step_long {s : State} (h : s.Long) (b : Nat) :
    (step s b).2.Long ∧ ∀ c, some c ∈ (step s b).1 →
      b < 0x80 ∧ c = Char.ofNat b ∨ ∃ v, 0x80 ≤ v ∧ c = Char.ofNat v := by
  cases s with
  | start => exact ⟨(first_long b).1, fun c hc => .inl ((first_long b).2 c hc)⟩
  | owed more lo hi value =>
    rw [step]
    split
    case isFalse =>
      refine ⟨(first_long b).1, fun c hc => .inl ((first_long b).2 c ?_)⟩
      simpa using hc
    case isTrue hrange =>
      have hbounds : lo ≤ b ∧ b ≤ hi := by simpa using hrange
      have hnext : 2 ≤ value * 64 + b % 64 := by
        rcases h with h | ⟨-, h | ⟨hlo, hhi⟩⟩ <;> omega
      split
      case isTrue hmore =>
        have hvalue : 2 ≤ value := by
          rcases h with h | ⟨h, -⟩
          · exact h
          · omega
        refine ⟨trivial, fun c hc => .inr ⟨value * 64 + b % 64, by omega, ?_⟩⟩
        simpa using hc
      case isFalse => exact ⟨.inl hnext, by simp⟩

theorem mem_scanFrom {s : State} (h : s.Long) {bytes : Bytes} {c : Char}
    (hc : some c ∈ scanFrom s bytes) :
    (∃ b ∈ bytes, b.toNat < 0x80 ∧ c = Char.ofNat b.toNat) ∨ ∃ v, 0x80 ≤ v ∧ c = Char.ofNat v := by
  induction bytes generalizing s with
  | nil => cases s <;> simp [scanFrom] at hc
  | cons b rest ih =>
    obtain ⟨hnext, hout⟩ := step_long h b.toNat
    rw [scanFrom_cons, List.mem_append] at hc
    rcases hc with hc | hc
    · exact (hout c hc).imp_left fun hb => ⟨b, List.mem_cons_self, hb⟩
    · exact (ih hnext hc).imp_left fun ⟨b', hb', hchar⟩ =>
        ⟨b', List.mem_cons_of_mem b hb', hchar⟩

/-- An ASCII character other than NUL is shown only where its byte is. -/
theorem mem_of_mem_lossy {bytes : Bytes} {c : Char} (hpos : 0 < c.toNat) (hsmall : c.toNat < 0x80)
    (hc : c ∈ lossy bytes) : UInt8.ofNat c.toNat ∈ bytes := by
  obtain ⟨o, ho, rfl⟩ := List.mem_map.1 hc
  cases o with
  | none => exact absurd hsmall (by decide)
  | some c =>
    rw [Option.getD_some] at hpos hsmall ⊢
    rcases mem_scanFrom (s := .start) trivial ho with ⟨b, hb, hascii, rfl⟩ | ⟨v, hv, rfl⟩
    · have hvalid : b.toNat.isValidChar := .inl (by omega)
      have hbyte : (Char.ofNat b.toNat).toNat = b.toNat := by
        rw [Char.ofNat, dif_pos hvalid]
        rfl
      rwa [hbyte, UInt8.ofNat_toNat]
    · -- a value that is no character counts as NUL
      by_cases hvalid : v.isValidChar
      · rw [Char.ofNat, dif_pos hvalid] at hsmall
        exact absurd hsmall (Nat.not_lt.2 hv)
      · rw [Char.ofNat, dif_neg hvalid] at hpos
        exact absurd hpos (Nat.lt_irrefl 0)

/-- A byte that shows nothing leaves the reader inside a character. -/
theorem step_ne_start {s : State} {b : Nat} (h : (step s b).1 = []) : (step s b).2 ≠ .start := by
  have hfirst : (first b).1 = [] → (first b).2 ≠ .start := by
    unfold first
    repeat' split
    all_goals simp
  cases s with
  | start => exact hfirst h
  | owed more lo hi value =>
    rw [step] at h ⊢
    split
    case isTrue hrange =>
      rw [if_pos hrange] at h
      split
      case isTrue hmore => simp [hmore] at h
      case isFalse => nofun
    case isFalse hrange =>
      rw [if_neg hrange] at h
      cases h

theorem scanFrom_eq_nil {s : State} {bytes : Bytes} (h : scanFrom s bytes = []) :
    s = .start ∧ bytes = [] := by
  induction bytes generalizing s with
  | nil =>
    cases s with
    | start => exact ⟨rfl, rfl⟩
    | owed => cases h
  | cons b rest ih =>
    rw [scanFrom_cons, List.append_eq_nil_iff] at h
    exact absurd (ih h.2).1 (step_ne_start h.1)

theorem lossy_ne_nil {bytes : Bytes} (h : bytes ≠ []) : lossy bytes ≠ [] := by
  rw [lossy, Ne, List.map_eq_nil_iff]
  exact fun hnil => h (scanFrom_eq_nil hnil).2

end Utf8
end Text
end ShellPrompt
