import TeachingCpu.Isa.Signal
import TeachingCpu.Source.Token
import TeachingCpu.Text.Integer
import TeachingCpu.Text.Latin1

/-!
# Literals in canonical form

Source text has several spellings for a value. `Source.read` tokenizes a source and turns each
into the one that the assembler knows:

* `0x1F` becomes `$31`,
* `'a'` becomes `$97`,
* `[0x10]` and `[16]` become `&16`,
* `$0x10`, `&0x10` and `*0x10` become decimal after the same sigil,
* a named signal such as `INT_FILE` becomes its number after `$`.
-/

namespace TeachingCpu.Source

/-- The number that a literal has to denote. -/
def integer (cs : List Char) : Except Error Nat :=
  match Text.readIntegerChars? cs with
  | some n => .ok n
  | none => .error (.of (.invalidInteger (String.ofList cs)))

/-- A number after a sigil. -/
def sigiled (sigil : Char) (n : Nat) : String := sigil.toString ++ toString n

/-- What stands between square brackets, where a word is in brackets. -/
def bracketed? : List Char → Option (List Char)
  | '[' :: rest => if rest.getLast? = some ']' then some rest.dropLast else none
  | _ => none

/-- Whether a sigil can stand in front of a hexadecimal number. -/
def takesNumber (c : Char) : Bool := c == '$' || c == '&' || c == '*'

/-- The canonical form of a word. -/
def canonicalWord (word : String) : Except Error String :=
  let cs := word.toList
  if Text.startsHex cs then
    (integer cs).map (sigiled '$')
  else match bracketed? cs with
    | some inner => (integer inner).map (sigiled '&')
    | none =>
      match cs with
      | [] => .ok word
      | c :: rest =>
        if takesNumber c then
          if Text.startsHex rest then (integer rest).map (sigiled c) else .ok word
        else match signal? word with
          | some n => .ok (sigiled '$' n)
          | none => .ok word

/-- The byte of a character literal. -/
def characterByte? (text : String) : Option UInt8 :=
  match text.toList with
  | [c] => Text.byteOfChar? c
  | _ => none

/-- The canonical form of a token. -/
def canonicalToken (t : Token) : Except Error Token :=
  match t.kind with
  | .str => .ok t
  | .char =>
    match characterByte? t.text with
    | some b => .ok { t with kind := .word, text := sigiled '$' b.toNat }
    | none => .error (.of (.characterLiteral t.text))
  | .word => (canonicalWord t.text).map fun text => { t with text }

/-- The canonical form of the tokens of a line. -/
def canonicalLine (line : Line) : Except Error Line := do
  let tokens ← line.tokens.mapM fun t =>
    (canonicalToken t).mapError fun e => (e.atLine line.number).atSpan t.span
  return { line with tokens }

/-- The lines of a source that have tokens, in canonical form. -/
def read (source : String) : Except Error (List Line) := do
  let lines ← tokenize source
  lines.mapM canonicalLine

end TeachingCpu.Source
