import TeachingCpu.Proofs.Attempt.Matches
import TeachingCpu.Proofs.Debugger.Replies
import TeachingCpu.Proofs.Service.Handled

/-!
# Presentations

A run can be presented in two ways at once: with two displays, on two journals, to two observers. A
`Presentation` says which of these belong together and that they stay together, entry by entry.
Consoles that are alike in all but their presentation answer alike, and so do debugger sessions and
services (`matches_session`, `sameResult_dispatch`).
-/

namespace TeachingCpu

open Attempt Text

/-- What an entry adds to the dialogue with the user. -/
def ConsoleEntry.spoken : ConsoleEntry → String
  | .prompt text => text
  | .echo line => line ++ "\n"
  | .output text => text
  | .log _ => ""

/-- Two ways to present the same run: which displays, journals and observers there can be on the
two sides. -/
structure Presentation where
  /-- Whether only texts may be shown that are the same on both sides but for their colours. -/
  faithful : Prop
  displays : Display → Display → Prop
  journals : List ConsoleEntry → List ConsoleEntry → Prop
  observers : Option (List UInt16) → Option (List UInt16) → Prop
  /-- An entry is shown on both sides, on each as its display wants it. -/
  enter : ∀ {d d' : Display} {journal journal' : List ConsoleEntry}
    (entry : Display → ConsoleEntry),
    (faithful → Faithful fun display => (entry display).spoken) → displays d d' →
      journals journal journal' → journals (entry d :: journal) (entry d' :: journal')
  /-- Both observers see the same. -/
  see : ∀ {seen seen' : Option (List UInt16)} (pc : UInt16), observers seen seen' →
    observers (seen.map (pc :: ·)) (seen'.map (pc :: ·))

variable {p : Presentation} {α : Type}

/-! ## Consoles -/

namespace Console

/-- Consoles that are the same but for their presentation. -/
inductive Alike (p : Presentation) (c : Console) : Console → Prop where
  | intro {display : Display} {journal : List ConsoleEntry}
    (hdisplay : p.displays c.display display)
    (hjournal : p.journals c.journal journal)
    (htyped : p.faithful → ∀ line ∈ c.pending, Plain line) :
    Alike p c { c with display, journal }

variable {c c' : Console} {d d' : Display}

theorem Alike.displays (h : Alike p c c') : p.displays c.display c'.display := by
  cases h with
  | intro hdisplay _ _ => exact hdisplay

theorem Alike.plain (h : Alike p c c') {line : String} (hline : line ∈ c.pending)
    (hfaithful : p.faithful) : Plain line := by
  cases h with
  | intro _ _ htyped => exact htyped hfaithful line hline

theorem Alike.pending_eq (h : Alike p c c') : c'.pending = c.pending := by
  cases h with
  | intro => rfl

theorem Alike.writesLeft_eq (h : Alike p c c') : c'.writesLeft = c.writesLeft := by
  cases h with
  | intro => rfl

theorem Alike.log (h : Alike p c c') (level : LogLevel) (topic : String) (text : Unit → String) :
    Alike p (c.log level topic text) (c'.log level topic text) := by
  cases h with
  | @intro display journal hdisplay hjournal htyped =>
    have hlogs : logs { c with display, journal } level = c.logs level := rfl
    unfold Console.log
    rw [hlogs]
    split
    · have hentry := p.enter (fun _ => .log ⟨level, topic, text ()⟩)
        (fun _ => faithful_const (show Plain "" by decide)) hdisplay hjournal
      exact .intro hdisplay hentry htyped
    · exact .intro hdisplay hjournal htyped

theorem writesLeft_log (c : Console) (level : LogLevel) (topic : String) (text : Unit → String) :
    (c.log level topic text).writesLeft = c.writesLeft := by
  unfold Console.log
  split <;> rfl

theorem matches_readLine {prompt : String} (hprompt : Plain prompt) :
    Matches (Alike p) (readLine prompt) (readLine prompt) := by
  rintro ⟨pending, readsLeft, writesLeft, echoes, display, verbosity, journal⟩ _
    ⟨hdisplay, hjournal, htyped⟩
  have hprompted := p.enter (fun _ => .prompt prompt) (fun _ => faithful_const hprompt) hdisplay
    hjournal
  by_cases hreads : readsLeft = some 0
  · simp only [readLine, get_bind_apply, if_pos hreads]
    exact .error _ (.intro hdisplay hjournal htyped)
  · cases pending with
    | nil =>
      simp only [readLine, get_bind_apply, if_neg hreads]
      exact .ok none (.intro hdisplay hprompted htyped)
    | cons line rest =>
      have hrest : p.faithful → ∀ line ∈ rest, Plain line := fun hfaithful line hline =>
        htyped hfaithful line (List.mem_cons_of_mem _ hline)
      have hechoed := p.enter (fun _ => .echo line) (fun hfaithful => faithful_const
        (plain_append.mpr ⟨htyped hfaithful line List.mem_cons_self, by decide⟩)) hdisplay hprompted
      simp only [readLine, get_bind_apply, if_neg hreads]
      cases hshown : echoes && !prompt.isEmpty <;> simp only [Console.enter, hshown]
      · exact .ok _ (.intro hdisplay hprompted hrest)
      · exact .ok _ (.intro hdisplay hechoed hrest)

/-- Texts that stand for the same on the two displays are written alike. -/
theorem matches_write {text : Display → String} (htext : p.faithful → Faithful text)
    (hd : p.displays d d') : Matches (Alike p) (write (text d)) (write (text d')) := by
  rintro c _ ⟨hdisplay, hjournal, htyped⟩
  have hentry := p.enter (fun display => .output (text display)) htext hd hjournal
  by_cases hwrites : c.writesLeft = some 0
  · simp only [write, get_bind_apply, if_pos hwrites]
    exact .error _ (.intro hdisplay hjournal htyped)
  · simp only [write, get_bind_apply, if_neg hwrites]
    exact .ok _ (.intro hdisplay hentry htyped)

/-- A text is plain, or the console is broken. -/
theorem sameResult_write {text : String} (hc : c.Alike p c')
    (h : p.faithful → c.writesLeft ≠ some 0 → Plain text) :
    SameResult (Alike p) (write text c) (write text c') := by
  by_cases hwrites : c.writesLeft = some 0
  · have hwrites' : c'.writesLeft = some 0 := hc.writesLeft_eq.trans hwrites
    simp only [write, get_bind_apply, if_pos hwrites, if_pos hwrites']
    exact .error _ hc
  · have hconst : p.faithful → Faithful fun _ => text := fun hfaithful =>
      faithful_const (h hfaithful hwrites)
    exact matches_write hconst hc.displays hc

theorem matches_write_same {text : String} (h : p.faithful → Plain text) :
    Matches (Alike p) (write text) (write text) := fun _ _ hc =>
  sameResult_write hc fun hfaithful _ => h hfaithful

/-- A question whose complaints are plain if they are about plain lines. -/
theorem matches_askTimes {accept : String → Except String α}
    (haccept : ∀ line, Plain line → Rejects Plain (accept line)) (n : Nat) :
    Matches (Alike p) (askTimes accept n) (askTimes accept n) := by
  induction n with
  | zero => exact matches_fail _
  | succ n ih =>
    intro c c' hc
    refine sameResult_bind (matches_readLine (by decide) hc) fun line? c₁ c₁' hread hc₁ => ?_
    cases line? with
    | none => exact matches_fail _ hc₁
    | some line =>
      have hline : p.faithful → Plain line :=
        hc.plain (pending_of_readLine hread ▸ List.mem_cons_self)
      dsimp only
      cases hanswer : accept line with
      | ok a => exact matches_pure a hc₁
      | error complaint =>
        have hcomplaint : p.faithful → Plain complaint := fun hfaithful =>
          haccept line (hline hfaithful) complaint hanswer
        exact matches_bind (matches_write_same hcomplaint) (fun _ => ih) hc₁

theorem matches_ask {accept : String → Except String α}
    (haccept : ∀ line, Plain line → Rejects Plain (accept line)) :
    Matches (Alike p) (ask accept) (ask accept) := by
  refine matches_get_bind fun c c' hc => ?_
  rw [hc.pending_eq]
  exact matches_askTimes haccept _ hc

end Console

/-! ## Debugger sessions -/

namespace Debugger

open Console (Alike matches_readLine matches_write pending_of_readLine)

variable {d d' : Display}

theorem matches_log (level : LogLevel) (text : Unit → String) :
    Matches (Alike p) (modify (·.log level topic text)) (modify (·.log level topic text)) :=
  matches_modify fun _ _ hc => hc.log level topic text

theorem matches_answerTimes (hd : p.displays d d') (cpu : Cpu) (n : Nat) :
    Matches (Alike p) (answerTimes d cpu n) (answerTimes d' cpu n) := by
  induction n with
  | zero => exact matches_pure _
  | succ n ih =>
    intro c c' hc
    refine sameResult_bind (matches_readLine (by decide) hc) fun line? c₁ c₁' hread hc₁ => ?_
    cases line? with
    | none => exact matches_bind (matches_log _ _) (fun _ => matches_pure _) hc₁
    | some typed =>
      have htyped : p.faithful → Plain (trim typed) := fun hfaithful =>
        plain_trim (hc.plain (pending_of_readLine hread ▸ List.mem_cons_self) hfaithful)
      dsimp only
      split
      · exact ih hc₁
      · cases hcommand : Command.read (trim typed) with
        | error e =>
          have hmessage : p.faithful → Faithful fun display => errorLine display e.message :=
            fun hfaithful => faithful_errorLine (Command.rejects_read (htyped hfaithful) e hcommand)
          exact matches_bind (matches_write hmessage hd) (fun _ => ih) hc₁
        | ok command =>
          refine matches_bind (matches_log _ _) (fun _ => ?_) hc₁
          rcases answer_cases cpu command with ⟨resume, hanswer⟩ | ⟨text, hanswer, htext⟩
          · simp only [hanswer]
            exact matches_pure resume
          · simp only [hanswer]
            exact matches_bind (matches_write (fun _ => htext) hd) fun _ => ih

theorem matches_session (cpu : Cpu) : Matches (Alike p) (session cpu) (session cpu) := by
  refine matches_get_bind fun c c' hc => ?_
  rw [hc.pending_eq]
  have hbanner := matches_write (p := p) (fun _ => faithful_banner cpu) hc.displays
  exact matches_bind hbanner (fun _ => matches_answerTimes hc.displays cpu _) hc

end Debugger

/-! ## Benches -/

namespace Bench

/-- Benches with the same processor and files and with consoles that are alike. -/
inductive Alike (p : Presentation) (b : Bench) : Bench → Prop where
  | intro {console : Console} (h : b.console.Alike p console) : Alike p b { b with console }

theorem Alike.console {b b' : Bench} (h : b.Alike p b') : b.console.Alike p b'.console := by
  cases h with
  | intro hconsole => exact hconsole

theorem matches_onCpu (act : Attempt Cpu α) : Matches (Alike p) (onCpu act) (onCpu act) := by
  refine matches_onPart (S := Eq) ?_ ?_ (matches_refl act)
  · rintro b _ ⟨hconsole⟩
    rfl
  · rintro b _ cpu _ ⟨hconsole⟩ rfl
    exact .intro hconsole

theorem sameResult_onConsole {b b' : Bench} {act : Attempt Console α} (h : b.Alike p b')
    (hact : SameResult (Console.Alike p) (act b.console) (act b'.console)) :
    SameResult (Alike p) (onConsole act b) (onConsole act b') := by
  cases h with
  | intro => exact sameResult_onPart (fun _ _ hconsole => Alike.intro hconsole) hact

theorem matches_onConsole {act : Attempt Console α} (h : Matches (Console.Alike p) act act) :
    Matches (Alike p) (onConsole act) (onConsole act) := fun _ _ hb =>
  sameResult_onConsole hb (h hb.console)

theorem matches_log (level : LogLevel) (topic : String) (text : Unit → String) :
    Matches (Alike p) (log level topic text) (log level topic text) := by
  refine matches_modify ?_
  rintro b _ ⟨hconsole⟩
  exact .intro (hconsole.log level topic text)

theorem matches_reg (r : Register) : Matches (Alike p) (reg r) (reg r) := by
  rintro b _ ⟨hconsole⟩
  exact .ok _ (.intro hconsole)

theorem matches_stringAt (r : Register) : Matches (Alike p) (stringAt r) (stringAt r) :=
  matches_bind (matches_reg r) fun _ => matches_onCpu _

end Bench

/-- The text that an interrupt prints for the program. Nothing is printed on a broken console. -/
def Bench.printedBy? (b : Bench) (i : Interrupt) : Option String :=
  if b.console.writesLeft = some 0 then none
  else match i with
    | .printString => (b.string .di).toOption.map ofBytes
    | .printNumber => some (toString (b.cpu.reg .dx).toNat)
    | .printChar => some (charOfByte (b.cpu.reg .dl).toUInt8).toString
    | _ => none

/-- The text that the program prints if it asks for an interrupt here. -/
def Bench.printed? (b : Bench) : Option String :=
  (Interrupt.ofCode? (b.cpu.reg .al).toUInt8.toNat).bind b.printedBy?

/-! ## Services -/

namespace Service

open Bench (Alike matches_onCpu matches_onConsole matches_log matches_reg matches_stringAt)

theorem matches_print {text : String} (h : p.faithful → Plain text) :
    Matches (Alike p) (print text) (print text) :=
  matches_onConsole (Console.matches_write_same h)

theorem matches_reportInvalid {cause : Cause} (h : Plain cause.message) :
    Matches (Alike p) (reportInvalid cause) (reportInvalid cause) := by
  refine matches_bind (matches_log _ _ _) fun _ => ?_
  refine matches_bind (matches_print fun _ => ?_) fun _ => matches_pure _
  exact plain_append.mpr ⟨h, by decide⟩

theorem plain_invalidInterrupt (code : UInt8) : Plain (Cause.invalidInterrupt code).message := by
  unfold Cause.message
  exact plain_append.mpr ⟨by decide, plain_toString _⟩

theorem plain_invalidFileOperation (code : UInt8) :
    Plain (Cause.invalidFileOperation code).message := by
  unfold Cause.message
  exact plain_append.mpr ⟨by decide, plain_toString _⟩

theorem rejects_acceptBytes {line : String} (h : Plain line) :
    Rejects Plain (acceptBytes line) := by
  have hchar : Rejects (· ≠ '\x1b') (toBytes line) := by
    refine rejects_mapM fun c hc => ?_
    split
    · exact rejects_ok _
    · refine rejects_error ?_
      rintro rfl
      exact h hc
  unfold acceptBytes
  split
  · exact rejects_ok _
  · next c hc =>
    refine rejects_error ?_
    rw [plain_append, plain_append]
    exact ⟨⟨by decide, plain_char (hchar c hc)⟩, by decide⟩

theorem rejects_acceptWord {line : String} (h : Plain line) :
    Rejects Plain (acceptWord line) := by
  unfold acceptWord
  split
  · exact rejects_ok _
  · refine rejects_error ?_
    rw [plain_append, plain_append]
    exact ⟨⟨by decide, plain_trim h⟩, by decide⟩

theorem matches_stringInput : Matches (Alike p) stringInput stringInput := by
  have hask := Console.matches_ask (p := p) fun _ hline => rejects_acceptBytes hline
  refine matches_bind (matches_onConsole hask) fun bytes => ?_
  refine matches_bind (matches_reg .di) fun address => ?_
  exact matches_bind (matches_onCpu _) fun _ => matches_onCpu _

theorem matches_numberInput : Matches (Alike p) numberInput numberInput := by
  have hask := Console.matches_ask (p := p) fun _ hline => rejects_acceptWord hline
  exact matches_bind (matches_onConsole hask) fun _ => matches_onCpu _

theorem matches_stringConcat : Matches (Alike p) stringConcat stringConcat := by
  refine matches_bind (matches_stringAt .di) fun first => ?_
  refine matches_bind (matches_stringAt .dp) fun second => ?_
  exact matches_bind (matches_reg .bx) fun address => matches_onCpu _

theorem matches_stringCopy : Matches (Alike p) stringCopy stringCopy := by
  refine matches_bind (matches_stringAt .di) fun bytes => ?_
  exact matches_bind (matches_reg .dp) fun address => matches_onCpu _

theorem matches_memoryCopy : Matches (Alike p) memoryCopy memoryCopy := by
  refine matches_bind (matches_reg .cx) fun length => ?_
  refine matches_bind (matches_reg .di) fun source => ?_
  refine matches_bind (matches_reg .dp) fun target => ?_
  exact matches_bind (matches_onCpu _) fun bytes => matches_onCpu _

theorem matches_access (name : String) (result : Except FileError α) :
    Matches (Alike p) (access name result) (access name result) := by
  cases result with
  | ok a => exact matches_pure a
  | error reason => exact matches_fail _

/-- The files are the same on both benches, and they are changed in the same way. -/
theorem matches_changeFiles (name : String) (change : Storage → Except FileError Storage) :
    Matches (Alike p)
      (do let b ← get; let storage ← access name (change b.storage); set { b with storage })
      (do let b ← get; let storage ← access name (change b.storage); set { b with storage }) := by
  refine matches_get_bind ?_
  rintro b _ ⟨hconsole⟩
  dsimp only
  cases change b.storage with
  | ok storage => exact .ok _ (.intro hconsole)
  | error reason => exact .error _ (.intro hconsole)

theorem matches_fileRead (name : String) : Matches (Alike p) (fileRead name) (fileRead name) := by
  refine matches_bind (matches_reg .di) fun address => ?_
  refine matches_get_bind ?_
  rintro b _ ⟨hconsole⟩
  refine sameResult_bind (matches_access name _ (.intro hconsole)) fun contents t t' _ ht => ?_
  cases contents with
  | some bytes =>
    refine matches_bind (matches_onCpu _) (fun _ => ?_) ht
    exact matches_bind (matches_onCpu _) fun _ => matches_onCpu _
  | none => exact matches_bind (matches_onCpu _) (fun _ => matches_onCpu _) ht

theorem matches_fileWrite (name : String)
    (change : Storage → List UInt8 → Except FileError Storage) :
    Matches (Alike p) (fileWrite name change) (fileWrite name change) := by
  refine matches_bind (matches_reg .di) fun address => ?_
  refine matches_bind (matches_reg .dp) fun length => ?_
  refine matches_bind (matches_onCpu _) fun bytes => ?_
  exact matches_changeFiles name (change · bytes)

theorem matches_fileDelete (name : String) :
    Matches (Alike p) (fileDelete name) (fileDelete name) :=
  matches_changeFiles name (·.delete name)

/-- A service that ends in an outcome of its own. -/
theorem matches_then_outcome {x : Attempt Bench Unit} (hx : Matches (Alike p) x x)
    (outcome : Outcome) :
    Matches (Alike p) (do x; return outcome) (do x; return outcome) :=
  matches_bind hx fun _ => matches_pure outcome

theorem matches_file : Matches (Alike p) file file := by
  refine matches_bind (matches_reg .bl) fun code => ?_
  dsimp only
  cases FileOperation.ofCode? code.toUInt8.toNat with
  | none => exact matches_reportInvalid (plain_invalidFileOperation _)
  | some operation =>
    refine matches_bind (matches_stringAt .cx) fun name => ?_
    refine matches_bind (matches_log _ _ _) fun _ => ?_
    cases operation with
    | read => exact matches_then_outcome (matches_fileRead _) .handled
    | save => exact matches_then_outcome (matches_fileWrite _ _) .handled
    | append => exact matches_then_outcome (matches_fileWrite _ _) .handled
    | delete => exact matches_then_outcome (matches_fileDelete _) .handled

variable {b b' : Bench}

theorem sameResult_print (hb : b.Alike p b') {text : String}
    (h : p.faithful → b.console.writesLeft ≠ some 0 → Plain text) :
    SameResult (Alike p) (print text b) (print text b') :=
  Bench.sameResult_onConsole hb (Console.sameResult_write hb.console h)

theorem sameResult_serve (hb : b.Alike p b') (i : Interrupt)
    (h : p.faithful → ∀ text, b.printedBy? i = some text → Plain text) :
    SameResult (Alike p) (serve i b) (serve i b') := by
  have hdone : ∀ {x : Attempt Bench Unit}, SameResult (Alike p) (x b) (x b') →
      SameResult (Alike p) ((do x; return Outcome.handled) b)
        ((do x; return Outcome.handled) b') :=
    fun hx => sameResult_bind hx fun _ _ _ _ ht => matches_pure _ ht
  cases i with
  | stringInput => exact hdone (matches_stringInput hb)
  | numberInput => exact hdone (matches_numberInput hb)
  | debug => exact matches_pure _ hb
  | stringConcat => exact hdone (matches_stringConcat hb)
  | stringCopy => exact hdone (matches_stringCopy hb)
  | memoryCopy => exact hdone (matches_memoryCopy hb)
  | file => exact matches_file hb
  | printString =>
    refine hdone (sameResult_bind (matches_stringAt .di hb) fun bytes t t' hread ht => ?_)
    obtain ⟨hstring, rfl⟩ := Bench.stringAt_eq_ok.mp hread
    refine sameResult_print ht fun hfaithful hwrites => h hfaithful _ ?_
    simp only [Bench.printedBy?, if_neg hwrites, hstring]
    rfl
  | printNumber =>
    refine hdone (sameResult_bind (matches_reg .dx hb) fun value t t' hread ht => ?_)
    cases hread
    exact sameResult_print ht fun hfaithful hwrites => h hfaithful _ (if_neg hwrites)
  | printChar =>
    refine hdone (sameResult_bind (matches_reg .dl hb) fun value t t' hread ht => ?_)
    cases hread
    exact sameResult_print ht fun hfaithful hwrites => h hfaithful _ (if_neg hwrites)

theorem sameResult_dispatch (hb : b.Alike p b')
    (h : p.faithful → ∀ text, b.printed? = some text → Plain text) :
    SameResult (Alike p) (dispatch b) (dispatch b') := by
  refine sameResult_bind (matches_reg .al hb) fun code t t' hread ht => ?_
  cases hread
  unfold Bench.printed? at h
  dsimp only
  cases hservice : Interrupt.ofCode? (b.cpu.reg .al).toUInt8.toNat with
  | none => exact matches_reportInvalid (plain_invalidInterrupt _) ht
  | some i =>
    rw [hservice] at h
    refine sameResult_bind (matches_log _ _ _ ht) fun _ u u' hlog hu => ?_
    cases hlog
    refine sameResult_serve hu i fun hfaithful text htext => h hfaithful text ?_
    unfold Bench.printedBy? at htext
    rw [Console.writesLeft_log] at htext
    exact htext

end Service

end TeachingCpu
