import TeachingCpu.Error.Basic
import TeachingCpu.Text.Split
import TeachingCpu.Text.Styled

/-!
# The console

The lines that a user types, in order, and a journal of all that is shown: prompts, typed lines
where they are echoed, output, and log lines of the levels that are wanted. A console can be
limited to a number of reads or writes, after which it is broken.
-/

namespace TeachingCpu

/-- How much a log line matters. -/
inductive LogLevel where
  | warn
  | info
  | debug
  | trace
deriving DecidableEq, Repr

namespace LogLevel

/-- Levels with a higher rank matter less. -/
def rank : LogLevel → Nat
  | .warn => 1
  | .info => 2
  | .debug => 3
  | .trace => 4

/-- The name of a level, five columns wide. -/
def label : LogLevel → String
  | .warn => "WARN "
  | .info => "INFO "
  | .debug => "DEBUG"
  | .trace => "TRACE"

/-- The style of the name of a level. Traces have none. -/
def style? : LogLevel → Option Text.Style
  | .warn => some .yellow
  | .info => some .cyan
  | .debug => some .magenta
  | .trace => none

/-- The name of a level as it is shown. -/
def shownLabel (display : Text.Display) (level : LogLevel) : String :=
  match level.style? with
  | some style => style.paint display level.label
  | none => level.label

end LogLevel

/-- A log line. -/
structure LogLine where
  level : LogLevel
  /-- The part of the program that it comes from. -/
  topic : String
  text : String
deriving DecidableEq, Repr

/-- A log line as it is shown. -/
def LogLine.render (display : Text.Display) (l : LogLine) : String :=
  l.level.shownLabel display ++ " [" ++ l.topic ++ "] " ++ l.text ++ "\n"

/-- What is shown on a console. -/
inductive ConsoleEntry where
  | prompt (text : String)
  /-- A typed line, shown behind its prompt. -/
  | echo (line : String)
  | output (text : String)
  | log (line : LogLine)
deriving DecidableEq, Repr

namespace ConsoleEntry

/-- The text of an entry. -/
def text (display : Text.Display) : ConsoleEntry → String
  | .prompt text => text
  | .echo line => line ++ "\n"
  | .output text => text
  | .log line => line.render display

/-- Whether an entry is part of the dialogue with the user. -/
def isDialogue : ConsoleEntry → Bool
  | .log _ => false
  | _ => true

end ConsoleEntry

/-- A console. -/
structure Console where
  /-- Lines that are not read yet. -/
  pending : List String := []
  /-- Reads until the console breaks. -/
  readsLeft : Option Nat := none
  /-- Writes until the console breaks. -/
  writesLeft : Option Nat := none
  /-- Whether typed lines are shown behind a prompt. -/
  echoes : Bool := false
  /-- How texts look. -/
  display : Text.Display := {}
  /-- The level of the log lines that matter least among those that are shown. -/
  verbosity : Option LogLevel := none
  /-- What was shown, the latest first. -/
  journal : List ConsoleEntry := []
deriving DecidableEq, Repr

namespace Console

/-- The lines of a text that is typed. The last one counts if it is not empty. Line feeds and
carriage returns at the end of a line are not part of it. -/
def typedLines (text : String) : List String :=
  let pieces := Text.splitAtChar '\n' text.toList
  let lines := pieces.dropLast ++ pieces.getLast?.toList.filter (!·.isEmpty)
  lines.map fun cs => String.ofList (cs.reverse.dropWhile (· == '\r')).reverse

/-- Shows an entry. -/
def enter (c : Console) (entry : ConsoleEntry) : Console :=
  { c with journal := entry :: c.journal }

/-- Whether log lines of a level are shown. -/
def logs (c : Console) (level : LogLevel) : Bool :=
  match c.verbosity with
  | some most => level.rank ≤ most.rank
  | none => false

/-- Shows a log line, if its level is wanted. -/
def log (c : Console) (level : LogLevel) (topic : String) (text : Unit → String) : Console :=
  if c.logs level then c.enter (.log ⟨level, topic, text ()⟩) else c

/-- The entries that follow the first `n`, in order. -/
def entriesFrom (c : Console) (n : Nat) : List ConsoleEntry :=
  (c.journal.take (c.journal.length - n)).reverse

/-- The text of the entries that follow the first `n`. -/
def textFrom (c : Console) (n : Nat) : String :=
  String.join ((c.entriesFrom n).map (ConsoleEntry.text c.display))

/-- All text that is shown. -/
def screen (c : Console) : String := c.textFrom 0

/-- The text of the dialogue with the user: all that is shown except log lines. -/
def dialogue (c : Console) : String :=
  String.join ((c.journal.reverse.filter ConsoleEntry.isDialogue).map
    (ConsoleEntry.text c.display))

/-- Shows a prompt and reads a line. There is none at the end of the input. -/
def readLine (prompt : String) : Attempt Console (Option String) := do
  let c ← get
  if c.readsLeft = some 0 then Attempt.fail .consoleBroken
  else
    let c := { c.enter (.prompt prompt) with readsLeft := c.readsLeft.map (· - 1) }
    match c.pending with
    | [] =>
      set c
      return none
    | line :: rest =>
      let c := { c with pending := rest }
      set (if c.echoes && !prompt.isEmpty then c.enter (.echo line) else c)
      return some line

/-- Shows a text. -/
def write (text : String) : Attempt Console Unit := do
  let c ← get
  if c.writesLeft = some 0 then Attempt.fail .consoleBroken
  else set { c.enter (.output text) with writesLeft := c.writesLeft.map (· - 1) }

/-- Reads up to `n` lines without a prompt, to the first that is accepted. A line that is not gets
a complaint. -/
def askTimes {α : Type} (accept : String → Except String α) : Nat → Attempt Console α
  | 0 => Attempt.fail .inputExhausted
  | n + 1 => do
    match ← readLine "" with
    | none => Attempt.fail .inputExhausted
    | some line =>
      match accept line with
      | .ok a => return a
      | .error complaint =>
        write complaint
        askTimes accept n

/-- Reads lines up to the first that is accepted. -/
def ask {α : Type} (accept : String → Except String α) : Attempt Console α := do
  let c ← get
  askTimes accept (c.pending.length + 1)

end Console

end TeachingCpu
