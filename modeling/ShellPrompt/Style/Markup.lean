import ShellPrompt.Style.Sheet

/-!
# ShellPrompt.Style.Markup

Style markers around a text, in three dialects.

* `plain`: no markers.
* `ansi`: terminal escape sequences, background first, then foreground, attributes, the text, and
  a reset of what was set.
* `xonsh`: colour fields in braces, as the shell of that name expands them. Palette colours have
  no field there.
-/

namespace ShellPrompt
namespace Style

inductive Dialect where
  | plain
  | ansi
  | xonsh
deriving DecidableEq

namespace Dialect

def name : Dialect → String
  | .plain => "plain"
  | .ansi => "ansi"
  | .xonsh => "xonsh"

def all : List Dialect := [.plain, .ansi, .xonsh]

end Dialect

/-! ## Terminal sequences -/

namespace Ansi

/-- A select graphic rendition sequence with the given parameters. -/
def sgr (parameters : List Char) : List Char := '\x1b' :: '[' :: parameters ++ ['m']

/-- The parameters that choose a colour, behind the first one, which names the layer. -/
def colourParameters : Colour → List Char
  | .reset => []
  | .named hue bright =>
    ";5;".toList ++ Text.Numeral.decimal (hue.index + if bright then 8 else 0)
  | .palette i => ";5;".toList ++ Text.Numeral.decimal i.toNat
  | .rgb r g b =>
    ";2;".toList ++ Text.Numeral.decimal r.toNat ++ ';' :: Text.Numeral.decimal g.toNat ++
      ';' :: Text.Numeral.decimal b.toNat

def background : Colour → List Char
  | .reset => sgr "49".toList
  | c => sgr ("48".toList ++ colourParameters c)

def foreground : Colour → List Char
  | .reset => sgr "39".toList
  | c => sgr ("38".toList ++ colourParameters c)

def attributes (d : Descriptor) : List Char :=
  (if d.bold then ['1'] else []) ++ (if d.dimmed then ['2'] else []) ++
    (if d.italic then ['3'] else []) ++ (if d.underline then ['4'] else [])

def opening (d : Descriptor) : List Char :=
  (d.bg.map background).getD [] ++ (d.fg.map foreground).getD [] ++
    (attributes d).flatMap fun a => sgr [a]

/-- One full reset undoes attributes; colours alone are reset layer by layer. -/
def closing (d : Descriptor) : List Char :=
  if (attributes d).isEmpty then
    (if d.bg.isSome then sgr "49".toList else []) ++ (if d.fg.isSome then sgr "39".toList else [])
  else sgr ['0']

def wrap (text : List Char) (d : Descriptor) : List Char := opening d ++ text ++ closing d

end Ansi

/-! ## Colour fields -/

namespace Xonsh

def hueName : Hue → String
  | .black => "BLACK"
  | .red => "RED"
  | .green => "GREEN"
  | .yellow => "YELLOW"
  | .blue => "BLUE"
  | .purple => "PURPLE"
  | .cyan => "CYAN"
  | .white => "WHITE"

def colour? : Colour → Option (List Char)
  | .reset => some "DEFAULT".toList
  | .named hue bright => some ((if bright then "INTENSE_" else "") ++ hueName hue).toList
  | .palette _ => none
  | .rgb r g b =>
    some ('#' :: Text.Numeral.hexByte r ++ Text.Numeral.hexByte g ++ Text.Numeral.hexByte b)

def attributes (d : Descriptor) : List (List Char) :=
  (if d.bold then ["BOLD".toList] else []) ++ (if d.dimmed then ["FAINT".toList] else []) ++
    (if d.italic then ["ITALIC".toList] else []) ++
    (if d.underline then ["UNDERLINE".toList] else [])

def field (name : List Char) : List Char := '\x7b' :: name ++ ['\x7d']

/-- Attributes and foreground share one field; attributes without a colour take the default. -/
def foregroundField (d : Descriptor) : List Char :=
  match d.fg.bind colour?, attributes d with
  | none, [] => []
  | fg, parts => field (['_'].intercalate (parts ++ [fg.getD "DEFAULT".toList]))

def backgroundField (d : Descriptor) : List Char :=
  match d.bg.bind colour? with
  | none => []
  | some name => field ("BACKGROUND_".toList ++ name)

def wrap (text : List Char) (d : Descriptor) : List Char :=
  foregroundField d ++ backgroundField d ++ text ++ field "RESET".toList

end Xonsh

namespace Dialect

/-- A text in a style. Plain styles and empty texts take no markers. -/
def apply (dialect : Dialect) (text : String) (style : Descriptor) : String :=
  if style.isPlain || text.isEmpty then text
  else
    match dialect with
    | .plain => text
    | .ansi => String.ofList (Ansi.wrap text.toList style)
    | .xonsh => String.ofList (Xonsh.wrap text.toList style)

end Dialect

structure Resolver where
  sheet : Sheet
  dialect : Dialect

namespace Resolver

/-- Unknown tags are unstyled. -/
def resolve (r : Resolver) (tag : String) : Descriptor := (r.sheet.get? tag).getD .plain

def paint (r : Resolver) (text : String) : Option String → String
  | some tag => r.dialect.apply text (r.resolve tag)
  | none => text

end Resolver
end Style
end ShellPrompt
