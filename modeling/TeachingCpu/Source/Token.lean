import TeachingCpu.Error.Basic
import TeachingCpu.Text.Split

/-!
# Tokens of source text

A source line is a row of words, string literals and character literals. Spaces, tabs, carriage
returns and commas separate them; a semicolon starts a comment that runs to the end of the line.
A literal stands between double or single quotes on one line, and a backslash in it gives the
next character another meaning. `tokenize` splits a source into its lines of tokens, leaving out
lines that have none.
-/

namespace TeachingCpu

/-- The kinds of token. -/
inductive TokenKind where
  /-- A mnemonic, an operand, a label, a directive or the name of a variable. -/
  | word
  /-- A text between double quotes. -/
  | str
  /-- A character between single quotes. -/
  | char
deriving DecidableEq, Repr

/-- A token and where it stands. The text of a literal has neither quotes nor escapes. -/
structure Token where
  kind : TokenKind
  text : String
  span : Span
deriving DecidableEq, Repr

/-- Whether a token is a certain word. -/
def Token.isWord (t : Token) (word : String) : Bool := t.kind == .word && t.text == word

/-- The tokens of a source line, which is counted from 1. -/
structure Line where
  number : Nat
  tokens : List Token
deriving DecidableEq, Repr

namespace Source

/-- Whether a character separates tokens. -/
def isSeparator (c : Char) : Bool := c == ' ' || c == '\t' || c == '\r' || c == ','

/-- Whether a word ends before a character. -/
def endsWord (c : Char) : Bool := isSeparator c || c == '\n' || c == ';' || c == '"'

/-- The quote that stands around string literals. -/
def stringQuote : Char := '"'

/-- The quote that stands around character literals. -/
def charQuote : Char := '\''

/-- Length of a text in bytes. -/
def byteLength (cs : List Char) : Nat := cs.foldl (fun n c => n + c.utf8Size) 0

/-- The characters that a backslash and the character after it stand for. -/
def escaped : Char → List Char
  | 'n' => ['\n']
  | 't' => ['\t']
  | 'r' => ['\r']
  | '0' => ['\x00']
  | '\\' => ['\\']
  | '"' => ['"']
  | '\'' => ['\'']
  | c => ['\\', c]

/-- Replaces every escape after the characters of `done`, which is reversed. -/
def resolveEscapes : List Char → List Char → List Char
  | [], done => done.reverse
  | '\\' :: c :: rest, done => resolveEscapes rest ((escaped c).reverse ++ done)
  | c :: rest, done => resolveEscapes rest (c :: done)

/-- The text of a literal with its escapes replaced. A backslash at its end stays. -/
def unescape (cs : List Char) : List Char := resolveEscapes cs []

/-- Splits the rest of a line at the quote that closes a literal: the characters in front of it,
which follow those of `done`, and the characters behind it. A quote after a backslash does not
close. -/
def splitAtQuote (quote : Char) : List Char → List Char → Option (List Char × List Char)
  | [], _ => none
  | '\\' :: c :: rest, done => splitAtQuote quote rest (c :: '\\' :: done)
  | c :: rest, done =>
    if c = quote then some (done.reverse, rest) else splitAtQuote quote rest (c :: done)

theorem length_of_splitAtQuote {quote : Char} {cs done body rest : List Char}
    (h : splitAtQuote quote cs done = some (body, rest)) : rest.length < cs.length := by
  fun_induction splitAtQuote quote cs done with
  | case1 => simp at h
  | case2 c rest' done ih =>
    have := ih h
    simp only [List.length_cons]
    omega
  | case3 => simp_all
  | case4 c rest' done _ _ ih =>
    have := ih h
    simp only [List.length_cons]
    omega

/-- The tokens of the rest of a line, which starts at a byte offset, after those of `done`, which
is reversed. -/
def scanLine (offset : Nat) (cs : List Char) (done : List Token) :
    Except Error (List Token) :=
  match cs with
  | [] => .ok done.reverse
  | c :: rest =>
    if isSeparator c then scanLine (offset + 1) rest done
    else if c = ';' then .ok done.reverse
    else if c = stringQuote ∨ c = charQuote then
      match _h : splitAtQuote c rest [] with
      | none =>
        .error ((Error.of .unterminatedLiteral).atSpan (.of offset (byteLength (c :: rest))))
      | some (body, after) =>
        let length := byteLength body + 2
        let kind := if c = stringQuote then .str else .char
        let token := ⟨kind, String.ofList (unescape body), .of offset length⟩
        scanLine (offset + length) after (token :: done)
    else
      let word := c :: rest.takeWhile (!endsWord ·)
      let length := byteLength word
      let token := ⟨.word, String.ofList word, .of offset length⟩
      scanLine (offset + length) (rest.dropWhile (!endsWord ·)) (token :: done)
termination_by cs.length
decreasing_by
  · simp
  · have := length_of_splitAtQuote _h
    simp only [List.length_cons]
    omega
  · have : (rest.dropWhile (!endsWord ·)).length ≤ rest.length :=
      (List.dropWhile_suffix _).length_le
    simp only [List.length_cons]
    omega

/-- The lines of a text without their newlines. -/
def splitLines (cs : List Char) : List (List Char) := Text.splitAtChar '\n' cs

/-- The lines that have tokens among some lines, the first of which has a number and a byte
offset, after those of `done`, which is reversed. -/
def scanLines (number offset : Nat) : List (List Char) → List Line →
    Except Error (List Line)
  | [], done => .ok done.reverse
  | cs :: rest, done =>
    match scanLine offset cs [] with
    | .error e => .error (e.atLine number)
    | .ok tokens =>
      scanLines (number + 1) (offset + byteLength cs + 1) rest
        (if tokens.isEmpty then done else ⟨number, tokens⟩ :: done)

/-- The lines of a source that have tokens. -/
def tokenize (source : String) : Except Error (List Line) :=
  scanLines 1 0 (splitLines source.toList) []

end Source

end TeachingCpu
