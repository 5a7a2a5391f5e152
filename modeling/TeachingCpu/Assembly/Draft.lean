import TeachingCpu.Assembly.Symbols
import TeachingCpu.Config
import TeachingCpu.Memory.Basic
import TeachingCpu.Source.Literal

/-!
# Laying out a program

The first pass over a source writes the values of its `.DATA` blocks into memory, and gives each
label the code address of the statement after it. A statement has a length that depends only on
the number of its tokens, so the code addresses are known before anything is encoded. `Draft.read`
is the pass.
-/

namespace TeachingCpu

/-- A code statement that is measured and not yet encoded. -/
structure Statement where
  line : Nat
  /-- Code address. -/
  offset : Nat
  mnemonic : Token
  operands : List Token
deriving DecidableEq, Repr

/-- A program on its way through the first pass. -/
structure Draft where
  memory : Memory
  /-- Code addresses of the labels. -/
  labels : SymbolTable := {}
  /-- Memory addresses of the variables. -/
  vars : SymbolTable := {}
  /-- Statements read so far, the latest first. -/
  statements : List Statement := []
  /-- Length of the code so far. -/
  romLength : Nat := 0
  /-- Where the next value goes, inside a data block. -/
  position : Option Nat := none
  /-- One past the highest address that holds a value. -/
  dataEnd : Nat := 0
  /-- Data ends found beyond the start of the data segment, the latest first. -/
  overruns : List Nat := []

namespace Draft

/-- The word that opens a data block, in any letter case. -/
def dataWord : String := ".data"

/-- The word that closes a data block. -/
def endWord : String := "end"

/-- The word that moves the position in a data block. -/
def originWord : String := "org"

/-- The largest length of the code. -/
def maxRomLength : Nat := 65535

/-- Whether a character can start a name. -/
def startsName (c : Char) : Bool := c.isAlpha || c == '_'

/-- Whether a character can stand in a name. -/
def inName (c : Char) : Bool := c.isAlphanum || c == '_'

/-- Whether a text can name a label or a variable. -/
def isIdentifier (name : String) : Bool :=
  match name.toList with
  | [] => false
  | c :: rest => startsName c && rest.all inName

/-- The name that a line defines as a label, where its first token is `.name`. -/
def labelName? (t : Token) : Option String :=
  match t.kind, t.text.toList with
  | .word, '.' :: c :: rest => some (String.ofList (c :: rest))
  | _, _ => none

/-- The number that a value in a data block denotes, bare or after `$`. -/
def value (t : Token) (max : Nat) : Except Error Nat :=
  let digits := match t.text.toList with
    | '$' :: rest => rest
    | cs => cs
  let expected := ((Error.of (.valueExpected max t.text)).atSpan t.span)
  if t.kind = .word then
    match Text.readIntegerChars? digits with
    | some n => if n ≤ max then .ok n else .error expected
    | none => .error expected
  else .error expected

/-- The bytes of a string literal in a data block. -/
def stringBytes (t : Token) : Except Error (List UInt8) :=
  match Text.toBytes t.text with
  | .ok bytes => .ok bytes
  | .error c => .error ((Error.of (.characterWithoutByte c)).atSpan t.span)

/-- Fails at a token. -/
def failAt {α : Type} (t : Token) (cause : Cause) : Attempt Draft α :=
  throw ((Error.of cause).atSpan t.span)

/-- Writes a group of bytes and a zero byte at the position, and moves the position behind it. A
failure points at `anchor`. -/
def writeGroup (bytes : List UInt8) (anchor : Option Token) : Attempt Draft Unit := do
  let draft ← get
  let address := draft.position.getD 0
  match draft.memory.storeString address bytes with
  | .ok (terminator, memory) =>
    let next := terminator + 1
    set { draft with memory, position := some next, dataEnd := max draft.dataEnd next }
  | .error e =>
    throw (match anchor with
      | some t => e.atSpan t.span
      | none => e)

/-- Writes the values of a variable after the numbers of `group`, which is reversed: a string is a
group of its own, and numbers in a row are one. -/
def writeValues : List Token → Option (Token × List UInt8) → Attempt Draft Unit
  | [], none => pure ()
  | [], some (last, group) => writeGroup group.reverse (some last)
  | t :: rest, group => do
    if t.kind = .str then
      if let some (_, numbers) := group then writeGroup numbers.reverse (some t)
      let bytes ← Attempt.ofExcept (stringBytes t)
      writeGroup bytes (some t)
      writeValues rest none
    else
      let n ← Attempt.ofExcept (value t 255)
      let numbers := match group with
        | some (_, numbers) => numbers
        | none => []
      writeValues rest (some (t, n.toUInt8 :: numbers))

/-- Closes the data block. Nothing may follow on the line. -/
def closeData (rest : List Token) : Attempt Draft Unit := do
  modify ({ · with position := none })
  match rest with
  | t :: _ => failAt t (.textAfterDataEnd t.text)
  | [] =>
    let draft ← get
    if draft.memory.layout.dataStart.toNat < draft.dataEnd then
      set { draft with overruns := draft.dataEnd :: draft.overruns }

/-- Defines a variable at the position and writes its values, up to the word that closes the
block. -/
def addVariable (name : Token) (rest : List Token) : Attempt Draft Unit := do
  if name.kind ≠ .word ∨ !isIdentifier name.text then
    failAt name (.variableNameExpected name.text)
  let draft ← get
  if draft.vars.contains name.text then
    failAt name (.duplicateVariable name.text)
  set { draft with vars := draft.vars.define name.text (draft.position.getD 0) }
  let values := rest.takeWhile (!·.isWord endWord)
  if values.isEmpty then writeGroup [] none else writeValues values none
  match rest.dropWhile (!·.isWord endWord) with
  | _ :: after => closeData after
  | [] => pure ()

/-- Reads the tokens of a line, or what is left of it, inside a data block. -/
def addData : List Token → Attempt Draft Unit
  | [] => pure ()
  | first :: rest => do
    if first.isWord endWord then closeData rest
    else if first.isWord originWord then
      match rest with
      | [] => failAt first .originWithoutAddress
      | address :: rest => do
        let base ← Attempt.ofExcept (value address 65535)
        let draft ← get
        let last := draft.memory.layout.lastAddressable
        if last.toNat < base then failAt address (.addressOutside base last)
        set { draft with position := some base }
        addData rest
    else addVariable first rest

/-- Defines a label at the end of the code so far. -/
def addLabel (name : String) (t : Token) : Attempt Draft Unit := do
  if !isIdentifier name then failAt t (.invalidLabelName name)
  let draft ← get
  if draft.labels.contains name then failAt t (.duplicateLabel name)
  set { draft with labels := draft.labels.define name draft.romLength }

/-- Adds a statement at the end of the code so far. -/
def addStatement (line : Nat) (mnemonic : Token) (operands : List Token) :
    Attempt Draft Unit := do
  let some length := statementLength? (operands.length + 1)
    | failAt (operands.getD 2 mnemonic) (.tooManyOperands operands.length)
  if mnemonic.kind ≠ .word then
    failAt mnemonic .literalAtLineStart
  let draft ← get
  if maxRomLength < draft.romLength + length then
    failAt mnemonic .codeSpaceExhausted
  set { draft with
    statements := ⟨line, draft.romLength, mnemonic, operands⟩ :: draft.statements
    romLength := draft.romLength + length }

/-- Reads a line. -/
def addLine (line : Line) : Attempt Draft Unit :=
  Attempt.mapError (·.atLine line.number) do
    let draft ← get
    if draft.position.isSome then addData line.tokens
    else match line.tokens with
      | [] => pure ()
      | first :: rest =>
        if first.kind = .word ∧ Text.lower first.text = dataWord then
          set { draft with position := some 0 }
          addData rest
        else match labelName? first with
          | none => addStatement line.number first rest
          | some name =>
            addLabel name first
            match rest with
            | [] => pure ()
            | mnemonic :: operands => addStatement line.number mnemonic operands

/-- Reads lines. A data block has to be closed before they end. -/
def addLines (lines : List Line) : Attempt Draft Unit := do
  lines.forM addLine
  let draft ← get
  if draft.position.isSome then
    let last := (lines.getLast?.map Line.number).getD 0
    throw ((Error.of .dataNotClosed).atLine last)

/-- A draft of nothing. -/
def empty (layout : Layout) : Draft := { memory := .zeroed layout }

/-- The first pass over a source. It ends with a draft even where it fails at a line. -/
def attempt (source : String) (config : Config) :
    Except Error (EStateM.Result Error Draft Unit) := do
  let layout ← config.layout
  let lines ← Source.read source
  return addLines lines (empty layout)

/-- The draft of a source. -/
def read (source : String) (config : Config) : Except Error Draft := do
  match ← attempt source config with
  | .ok _ draft => return draft
  | .error e _ => throw e

end Draft

end TeachingCpu
