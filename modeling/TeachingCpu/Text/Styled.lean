/-!
# Styled text

A terminal shows a piece of text in a style when it stands between `ESC[` code `m` and the reset
sequence `ESC[0m`. `Style.paint` writes such a piece and `decolored` removes every sequence again.
-/

namespace TeachingCpu.Text

/-- The styles of what is shown. -/
inductive Style where
  | bold
  | dimmed
  | italic
  | red
  | green
  | yellow
  | blue
  | magenta
  | cyan
  | boldGrey
  /-- Bold, in a colour that is mixed from red, green and blue. -/
  | boldMixed (r g b : Nat)
deriving DecidableEq, Repr

/-- How texts are shown: with colours or without, in full or in the plain form that suits
automatic comparison. -/
structure Display where
  colored : Bool := false
  minimal : Bool := false
deriving DecidableEq, Repr

/-- The numbers that select a style in a control sequence. -/
def Style.code : Style → String
  | .bold => "1"
  | .dimmed => "2"
  | .italic => "3"
  | .red => "31"
  | .green => "32"
  | .yellow => "33"
  | .blue => "34"
  | .magenta => "35"
  | .cyan => "36"
  | .boldGrey => "1;90"
  | .boldMixed r g b => "1;38;2;" ++ toString r ++ ";" ++ toString g ++ ";" ++ toString b

/-- The control sequence that starts a style. -/
def Style.start (style : Style) : String :=
  "\x1b[" ++ style.code ++ "m"

/-- The control sequence that ends every style. -/
def reset : String := "\x1b[0m"

/-- Starts a style again after every reset sequence inside a text, so that a text which ends a
style of its own does not end the one around it. -/
def renewAfterResets (start : List Char) : List Char → List Char
  | '\x1b' :: '[' :: '0' :: 'm' :: rest =>
    '\x1b' :: '[' :: '0' :: 'm' :: (start ++ renewAfterResets start rest)
  | c :: rest => c :: renewAfterResets start rest
  | [] => []

/-- A piece of text in a style, or the bare text where colours are off. -/
def Style.paint (style : Style) (display : Display) (s : String) : String :=
  if display.colored then
    style.start ++ String.ofList (renewAfterResets style.start.toList s.toList) ++ reset
  else
    s

/-- A text being stripped of control sequences: whether one is being skipped, and the characters
kept so far, last first. -/
structure Stripped where
  skipping : Bool := false
  kept : List Char := []

/-- Takes in one more character: a sequence runs from ESC to the next `m`. -/
def Stripped.add (t : Stripped) (c : Char) : Stripped :=
  if t.skipping then { t with skipping := c != 'm' }
  else if c = '\x1b' then { t with skipping := true }
  else { t with kept := c :: t.kept }

/-- A text without its control sequences: everything from ESC to the next `m` is left out, or to
the end where no `m` follows. -/
def decolored (s : String) : String :=
  String.ofList (s.toList.foldl Stripped.add {}).kept.reverse

end TeachingCpu.Text
