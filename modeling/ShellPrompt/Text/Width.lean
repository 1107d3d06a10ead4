import ShellPrompt.Text.EscapeSequence
import ShellPrompt.Text.WidthTable

/-!
# ShellPrompt.Text.Width

Columns a text takes on a terminal. The characters left by `EscapeSequence.strip` are read from
the last to the first, because what a character counts depends on what follows it: a variation
selector turns it into an emoji or into text, a joiner or a modifier melts it into the next one,
regional indicators pair up into flags, and letters of some scripts share a column with the letter
behind them. `Following` is what the reader remembers of the text to the right.
-/

namespace ShellPrompt
namespace Text
namespace Width

open WidthTable

/-- The second half of a ligature, as far as it has been read. -/
inductive Part where
  /-- An alef, behind which marks may stand. -/
  | alef
  | lamed
  /-- A lamed behind a joiner. -/
  | joinedLamed
  | coengLetter
  | ya
  /-- A ya behind a joiner. -/
  | joinedYa
  /-- A joined ya behind its vowel sign. -/
  | vowelYa
  | consonant
  /-- A consonant behind a joiner. -/
  | joinedConsonant
  /-- A consonant behind the consonant joiner of its script. -/
  | boundConsonant
  | toneLetter
  | orkhon
  /-- An orkhon i behind a joiner. -/
  | joinedOrkhon
deriving DecidableEq

namespace Part

/-- The part behind a joiner. -/
def joined : Part → Part
  | .lamed => .joinedLamed
  | .ya => .joinedYa
  | .consonant => .joinedConsonant
  | .orkhon => .joinedOrkhon
  | part => part

end Part

/-- What stands to the right of a character, as far as it matters for its width. -/
inductive Following where
  | none
  /-- U+FE0F asks for emoji presentation. -/
  | selector
  /-- U+FE0F, itself followed by a joiner, also with a keycap between them. -/
  | joinedSelector
  /-- U+FE0E asks for text presentation. -/
  | textSelector
  | emoji
  | modifier
  | joiner
  /-- U+20E3 followed by a joiner. -/
  | joinedKeycap
  /-- So many letters before the end of a tag sequence followed by a joiner. -/
  | tagLetters (n : Nat)
  /-- So many digits before the letters, if any, at the end of such a tag sequence. -/
  | tagDigits (n : Nat)
  | indicator
  | flag
  /-- A regional indicator followed by a joiner. -/
  | joinedIndicator
  /-- A joined run of regional indicators of even length. -/
  | evenRun
  /-- A joined run of regional indicators of odd length. -/
  | oddRun
  /-- Part of a ligature, and whether selectors of emoji and of text presentation precede it. -/
  | ligature (part : Part) (asEmoji asText : Bool)
deriving DecidableEq

namespace Following

def asksEmoji : Following → Bool
  | .selector => true
  | .joinedSelector => true
  | .ligature _ asEmoji _ => asEmoji
  | _ => false

def asksText : Following → Bool
  | .textSelector => true
  | .ligature _ _ asText => asText
  | _ => false

/-- What follows once U+FE0F stands before it. -/
def withEmoji : Following → Following
  | .joiner => .joinedSelector
  | .joinedKeycap => .joinedSelector
  | .ligature part _ asText => .ligature part true asText
  | _ => .selector

/-- What follows once U+FE0E stands before it. -/
def withText : Following → Following
  | .ligature part asEmoji _ => .ligature part asEmoji true
  | _ => .textSelector

/-- What is left for a character that has no emoji presentation. -/
def withoutEmoji : Following → Following
  | .selector => .none
  | .joinedSelector => .none
  | .ligature part _ asText => .ligature part false asText
  | next => next

/-- What is left for a character that has no text presentation. -/
def withoutText : Following → Following
  | .textSelector => .none
  | .ligature part asEmoji _ => .ligature part asEmoji false
  | next => next

end Following

def isSelector (c : Char) : Bool := c.toNat == 0xFE0F
def isTextSelector (c : Char) : Bool := c.toNat == 0xFE0E
def isJoiner (c : Char) : Bool := c.toNat == 0x200D
def isKeycap (c : Char) : Bool := c.toNat == 0x20E3
def isIndicator (c : Char) : Bool := 0x1F1E6 ≤ c.toNat && c.toNat ≤ 0x1F1FF
def isModifier (c : Char) : Bool := 0x1F3FB ≤ c.toNat && c.toNat ≤ 0x1F3FF
def isEmoji (c : Char) : Bool := contains emojiPresentation c
def isTagEnd (c : Char) : Bool := c.toNat == 0xE007F
def isTagLetter (c : Char) : Bool := 0xE0061 ≤ c.toNat && c.toNat ≤ 0xE007A
def isTagDigit (c : Char) : Bool := 0xE0030 ≤ c.toNat && c.toNat ≤ 0xE0039
def isBlackFlag (c : Char) : Bool := c.toNat == 0x1F3F4

/-- An emoji that a following U+FE0E turns into narrow text: none of those that stand for an
enclosed ideograph. -/
def isNarrowText (c : Char) : Bool :=
  contains emojiSequence c && isEmoji c && !(0x1F200 ≤ c.toNat && c.toNat ≤ 0x1F2FF)

/-- A mark that may stand between a lam and its alef. -/
def isTransparent (c : Char) : Bool := contains zeroWidth c && !contains parting c

def part? (c : Char) : Option Part :=
  if contains alef c then some .alef
  else if c.toNat == 0x5DC then some .lamed
  else if contains coengLetter c then some .coengLetter
  else if c.toNat == 0x1A10 then some .ya
  else if contains tifinaghConsonant c then some .consonant
  else if 0xA4FC ≤ c.toNat && c.toNat ≤ 0xA4FD then some .toneLetter
  else if c.toNat == 0x10C03 then some .orkhon
  else none

def alone (c : Char) : Int × Following :=
  if let some part := part? c then (1, .ligature part false false)
  else if isIndicator c then (1, .indicator)
  else if isModifier c then (2, .modifier)
  else if isEmoji c then (2, .emoji)
  else if contains zeroWidth c then (0, .none)
  else if contains tripleWidth c then (3, .none)
  else if contains doubleWidth c then (2, .none)
  else (1, .none)

/-- A character that makes a ligature with the part that follows it, if it does. -/
def ligated (c : Char) : Part → Option (Int × Following)
  | .alef =>
    if contains lam c then some (0, .none)
    else if isTransparent c then some (0, .ligature .alef false false)
    else none
  | .joinedLamed => if c.toNat == 0x5D0 then some (0, .none) else none
  | .coengLetter => if c.toNat == 0x17D2 then some (-1, .none) else none
  | .joinedYa => if c.toNat == 0x1A17 then some (0, .ligature .vowelYa false false) else none
  | .vowelYa => if c.toNat == 0x1A15 then some (0, .none) else none
  | .consonant =>
    if c.toNat == 0x2D7F then some (1, .ligature .boundConsonant false false) else none
  | .joinedConsonant =>
    if c.toNat == 0x2D7F then some (1, .ligature .boundConsonant false false)
    else if contains tifinaghConsonant c then some (0, .none)
    else none
  | .boundConsonant => if contains tifinaghConsonant c then some (-1, .none) else none
  | .toneLetter => if 0xA4F8 ≤ c.toNat && c.toNat ≤ 0xA4FB then some (0, .none) else none
  | .joinedOrkhon => if c.toNat == 0x10C32 then some (0, .none) else none
  | _ => none

/-- A character that combines with what follows it, if it does. -/
def combined (c : Char) : Following → Option (Int × Following)
  | .modifier =>
    if contains modifierBase c then some (0, .emoji)
    else if isJoiner c then some (0, .joiner)
    else none
  | .indicator => if isIndicator c then some (1, .flag) else none
  | .flag =>
    if isIndicator c then some (1, .flag)
    else if isJoiner c then some (0, .joiner)
    else none
  | .emoji => if isJoiner c then some (0, .joiner) else none
  | .evenRun =>
    if isJoiner c then some (0, .joiner)
    else if isIndicator c then some (3, .oddRun)
    else none
  | .oddRun =>
    if isJoiner c then some (0, .joiner)
    else if isIndicator c then some (-1, .evenRun)
    else none
  | .joinedIndicator => if isIndicator c then some (-1, .evenRun) else none
  | .joiner =>
    if isKeycap c then some (0, .joinedKeycap)
    else if isIndicator c then some (1, .joinedIndicator)
    else if isModifier c then some (0, .modifier)
    else if isTagEnd c then some (0, .tagLetters 0)
    else if isEmoji c then some (0, .emoji)
    else none
  | .tagLetters n =>
    if isTagLetter c ∧ n < 6 then some (0, .tagLetters (n + 1))
    else if isTagDigit c ∧ n < 5 then some (0, .tagDigits 1)
    else if isBlackFlag c ∧ 3 ≤ n then some (0, .emoji)
    else none
  | .tagDigits n =>
    if isTagDigit c ∧ n < 3 then some (0, .tagDigits (n + 1))
    else if isBlackFlag c ∧ n = 3 then some (0, .emoji)
    else none
  | .ligature part _ _ =>
    if part ≠ .alef ∧ isJoiner c then some (0, .ligature part.joined false false)
    else if part ≠ .alef ∧ contains ligatureTransparent c then
      some (0, .ligature part false false)
    else ligated c part
  | _ => none

/-- A character before which no selector of emoji presentation is waiting to be used. -/
def unselected (c : Char) (next : Following) : Int × Following :=
  if c.toNat ≤ 0xA0 then (if c.toNat == 0x0A then 0 else 1, .none)
  else if isSelector c then (0, next.withEmoji)
  else if isTextSelector c then (0, next.withText)
  else if next.asksText && isNarrowText c then (1, .none)
  else (combined c next.withoutText).getD (alone c)

/-- The columns one character adds, and what the characters to its left see. -/
def step (c : Char) (next : Following) : Int × Following :=
  if next.asksEmoji && contains emojiSequence c then
    (if next = .joinedSelector then 0 else 2, .emoji)
  else unselected c next.withoutEmoji

/-- Columns of a text without escape sequences, and what stands to its left sees. -/
def measure (text : List Char) : Int × Following :=
  text.foldr (fun c acc => (acc.1 + (step c acc.2).1, (step c acc.2).2)) (0, .none)

end Width

def width (text : List Char) : Nat := (Width.measure (EscapeSequence.strip text)).1.toNat

end Text

/-- Columns a string takes on a terminal, escape sequences taking none. -/
def displayWidth (text : String) : Nat := Text.width text.toList

end ShellPrompt
