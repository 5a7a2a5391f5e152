import TeachingCpu.Debugger.Session
import TeachingCpu.Proofs.Console.Questions
import TeachingCpu.Proofs.Debugger.Commands

/-!
# Debugger sessions

A session goes through the lines that are typed. One that resumes execution ends it, and so does
the end of the input. Every line in front of that one gets a single reply, unless it is blank
(`session_follows_commands`).
-/

namespace TeachingCpu.Debugger

open Attempt Console

/-- A line resumes execution. -/
inductive Resumes (line : String) : Resume → Prop where
  | step (h : Denotes (Text.words (Text.trim line)) .step) : Resumes line .step
  | go (h : Denotes (Text.words (Text.trim line)) .go) : Resumes line .go
  | quit (h : Denotes (Text.words (Text.trim line)) .quit) : Resumes line .quit

/-- What a session writes about a line that does not resume execution. -/
inductive Replies (display : Text.Display) (cpu : Cpu) (line : String) :
    List ConsoleEntry → Prop where
  | blank (h : Text.trim line = "") : Replies display cpu line []
  | shown {command : Command} {text : String} (h : Denotes (Text.words (Text.trim line)) command)
    (htext : answer display cpu command = .inr text) : Replies display cpu line [.output text]
  | misread {e : CommandError} (hline : Text.trim line ≠ "")
    (h : Misread (Text.words (Text.trim line)) e) :
    Replies display cpu line [.output (errorLine display e.message)]

/-- What is shown from one prompt to the next. -/
def Exchanged (echoes : Bool) (display : Text.Display) (cpu : Cpu) (line : String)
    (entries : List ConsoleEntry) : Prop :=
  ∃ reply, Replies display cpu line reply ∧ entries = asked echoes promptText line ++ reply

/-- A session showed its banner, replied to some lines and ended with some entries. Other lines are
left, and apart from log lines nothing else happened to the console. -/
def Conversed (cpu : Cpu) (c c' : Console) (earlier rest : List String)
    (last : List ConsoleEntry) : Prop :=
  ∃ exchanges, List.Forall₂ (Exchanged c.echoes c.display cpu) earlier exchanges ∧
    (c.continued rest (.output (banner c.display cpu) :: exchanges.flatten ++ last)).Logged c'

variable {c c' : Console} {cpu : Cpu} {line : String} {command : Command} {resume : Resume}

/-! ## One line -/

theorem trim_ne_of_denotes (h : Denotes (Text.words (Text.trim line)) command) :
    Text.trim line ≠ "" := by
  intro hblank
  have hnone : Text.words "" = [] := by
    unfold Text.words Text.splitWords
    rfl
  rw [hblank, hnone] at h
  cases h

theorem isEmpty_trim_of_ne (h : Text.trim line ≠ "") : (Text.trim line).isEmpty = false :=
  Bool.eq_false_iff.mpr fun hempty => h (String.isEmpty_iff.mp hempty)

/-- Of all commands only three resume execution. -/
theorem resumes_of_answer {display : Text.Display}
    (h : Denotes (Text.words (Text.trim line)) command)
    (hanswer : answer display cpu command = .inl resume) : Resumes line resume := by
  cases command with
  | memory address length =>
    unfold answer at hanswer
    cases hdump : Report.memory display cpu.memory address length with
    | ok dump | error e =>
      simp only [hdump] at hanswer
      cases hanswer
  | step =>
    cases hanswer
    exact .step h
  | go =>
    cases hanswer
    exact .go h
  | quit =>
    cases hanswer
    exact .quit h
  | _ => cases hanswer

theorem exists_command_of_resumes (h : Resumes line resume) (display : Text.Display) (cpu : Cpu) :
    ∃ command, Denotes (Text.words (Text.trim line)) command ∧
      answer display cpu command = .inl resume := by
  cases h with
  | step h => exact ⟨.step, h, rfl⟩
  | go h => exact ⟨.go, h, rfl⟩
  | quit h => exact ⟨.quit, h, rfl⟩

/-- A line that does not resume execution is replied to, and the session goes on. -/
theorem answerTimes_replied {rest : List String} (n : Nat) (hconsole : c.Unbroken)
    (hpending : c.pending = line :: rest) (hline : ∀ resume, ¬ Resumes line resume) :
    ∃ entries c', Exchanged c.echoes c.display cpu line entries ∧
      (c.continued rest entries).Logged c' ∧
      answerTimes c.display cpu (n + 1) c = answerTimes c.display cpu n c' := by
  rw [answerTimes, bind_of_ok (readLine_cons promptText hconsole hpending)]
  dsimp only
  by_cases hblank : Text.trim line = ""
  · refine ⟨_, _, ⟨[], .blank hblank, (List.append_nil _).symm⟩, refl_of Logged _, ?_⟩
    rw [hblank]
    rfl
  rw [isEmpty_trim_of_ne hblank]
  cases hread : Command.read (Text.trim line) with
  | error e =>
    have hmisread := Command.read_eq_error_iff.mp hread
    refine ⟨_, _, ⟨_, .misread hblank hmisread, rfl⟩, refl_of Logged _, ?_⟩
    simp only [Bool.false_eq_true, if_false]
    rw [bind_of_ok (write_eq_ok (hconsole.continued _ _)), continued_continued]
    rfl
  | ok command =>
    have hdenotes := Command.read_eq_ok_iff.mp hread
    cases hanswer : answer c.display cpu command with
    | inl resume => exact absurd (resumes_of_answer hdenotes hanswer) (hline resume)
    | inr text =>
      have hlogged := logged_log (c.continued rest (asked c.echoes promptText line)) .debug topic
        fun _ => "debugger command " ++ command.describe
      have hreply := hlogged.continued rest [.output text]
      rw [continued_continued] at hreply
      refine ⟨_, _, ⟨_, .shown hdenotes hanswer, rfl⟩, hreply, ?_⟩
      simp only [Bool.false_eq_true, if_false, modify_bind_apply, hanswer]
      rw [bind_of_ok (write_eq_ok (hlogged.unbroken (hconsole.continued _ _))), hlogged.pending]
      rfl

/-- So is every line in front of the first that does. -/
theorem answerTimes_earlier {earlier rest : List String} (n : Nat) (hconsole : c.Unbroken)
    (hpending : c.pending = earlier ++ rest)
    (hearlier : ∀ line ∈ earlier, ∀ resume, ¬ Resumes line resume) :
    ∃ exchanges c', List.Forall₂ (Exchanged c.echoes c.display cpu) earlier exchanges ∧
      (c.continued rest exchanges.flatten).Logged c' ∧
      answerTimes c.display cpu (earlier.length + n) c = answerTimes c.display cpu n c' := by
  induction earlier generalizing c with
  | nil =>
    have hsame : c.continued rest [] = c := by
      rw [List.nil_append] at hpending
      unfold continued
      rw [← hpending]
      rfl
    refine ⟨[], c, .nil, ?_, ?_⟩
    · rw [List.flatten_nil, hsame]
      exact refl_of Logged c
    · rw [List.length_nil, Nat.zero_add]
  | cons line earlier ih =>
    obtain ⟨hline, hearlier⟩ := List.forall_mem_cons.mp hearlier
    obtain ⟨entries, c₁, hentries, hlogged, hfirst⟩ :=
      answerTimes_replied (earlier.length + n) hconsole hpending hline
    have hunbroken := hlogged.unbroken (hconsole.continued _ _)
    obtain ⟨exchanges, c₂, hexchanges, hlogged', hrest⟩ := ih hunbroken hlogged.pending hearlier
    have hechoes : c₁.echoes = c.echoes := hlogged.echoes
    have hdisplay : c₁.display = c.display := hlogged.display
    rw [hechoes, hdisplay] at hexchanges
    rw [hdisplay] at hrest
    have hall := trans_of Logged (hlogged.continued rest exchanges.flatten) hlogged'
    rw [continued_continued] at hall
    refine ⟨entries :: exchanges, c₂, .cons hentries hexchanges, hall, ?_⟩
    rw [List.length_cons, Nat.add_right_comm, hfirst, hrest]

/-! ## The end of a session -/

theorem answerTimes_resumed {rest : List String} (n : Nat) (hconsole : c.Unbroken)
    (hpending : c.pending = line :: rest) (hline : Resumes line resume) :
    ∃ c', answerTimes c.display cpu (n + 1) c = .ok resume c' ∧
      (c.continued rest (asked c.echoes promptText line)).Logged c' := by
  obtain ⟨command, hdenotes, hanswer⟩ := exists_command_of_resumes hline c.display cpu
  have hread := Command.read_eq_ok_iff.mpr hdenotes
  refine ⟨_, ?_, logged_log _ .debug topic fun _ => "debugger command " ++ command.describe⟩
  rw [answerTimes, bind_of_ok (readLine_cons promptText hconsole hpending)]
  simp only [isEmpty_trim_of_ne (trim_ne_of_denotes hdenotes), Bool.false_eq_true, if_false, hread,
    modify_bind_apply, hanswer]
  rfl

theorem answerTimes_ended (n : Nat) (hconsole : c.Unbroken) (hpending : c.pending = []) :
    ∃ c', answerTimes c.display cpu (n + 1) c = .ok .go c' ∧
      (c.continued [] [.prompt promptText]).Logged c' := by
  refine ⟨_, ?_, logged_log _ .debug topic fun _ => "debugger input closed, resuming"⟩
  rw [answerTimes, bind_of_ok (readLine_nil promptText hconsole hpending)]
  rfl

/-- A session up to a line. -/
theorem session_earlier {earlier rest : List String} (cpu : Cpu) (hconsole : c.Unbroken)
    (hpending : c.pending = earlier ++ rest)
    (hearlier : ∀ line ∈ earlier, ∀ resume, ¬ Resumes line resume) :
    ∃ exchanges c', List.Forall₂ (Exchanged c.echoes c.display cpu) earlier exchanges ∧
      (c.continued rest (.output (banner c.display cpu) :: exchanges.flatten)).Logged c' ∧
      session cpu c = answerTimes c.display cpu (rest.length + 1) c' := by
  obtain ⟨exchanges, c', hexchanges, hlogged, hall⟩ :=
    answerTimes_earlier (rest.length + 1)
      (hconsole.continued c.pending [.output (banner c.display cpu)]) hpending hearlier
  rw [continued_continued] at hlogged
  refine ⟨exchanges, c', hexchanges, hlogged, ?_⟩
  unfold session
  rw [get_bind_apply, bind_of_ok (write_eq_ok hconsole)]
  refine Eq.trans ?_ hall
  rw [hpending, List.length_append, Nat.add_assoc]
  rfl

theorem conversed_of_logged {exchanges : List (List ConsoleEntry)}
    {earlier rest rest' : List String} {last : List ConsoleEntry} {c₁ c₂ : Console}
    (hexchanges : List.Forall₂ (Exchanged c.echoes c.display cpu) earlier exchanges)
    (hlogged : (c.continued rest' (.output (banner c.display cpu) :: exchanges.flatten)).Logged c₁)
    (hlast : (c₁.continued rest last).Logged c₂) : Conversed cpu c c₂ earlier rest last := by
  have hall := trans_of Logged (hlogged.continued rest last) hlast
  rw [continued_continued] at hall
  exact ⟨exchanges, hexchanges, hall⟩

/-- A line is a command exactly if its words denote one, else there is an error for its words. On a
console that does not break, a session goes through the lines up to the first that resumes
execution, and continues as this line says. It goes through all of them if there is no such line,
and execution goes on. -/
theorem session_follows_commands (cpu : Cpu) (hconsole : c.Unbroken) :
    (∀ line command, Command.read line = .ok command ↔ Denotes (Text.words line) command) ∧
    (∀ line e, Command.read line = .error e ↔ Misread (Text.words line) e) ∧
    ((∃ earlier line rest resume c',
      FirstTaken (fun l => ∃ resume, Resumes l resume) c.pending earlier line rest ∧
        Resumes line resume ∧ session cpu c = .ok resume c' ∧
        Conversed cpu c c' earlier rest (asked c.echoes promptText line)) ∨
    (∀ line ∈ c.pending, ∀ resume, ¬ Resumes line resume) ∧
      ∃ c', session cpu c = .ok .go c' ∧
        Conversed cpu c c' c.pending [] [.prompt promptText]) := by
  refine ⟨fun _ _ => Command.read_eq_ok_iff, fun _ _ => Command.read_eq_error_iff, ?_⟩
  rcases exists_firstTaken (fun l => ∃ resume, Resumes l resume) c.pending with
    ⟨earlier, line, rest, hfirst⟩ | hnone
  · obtain ⟨resume, hline⟩ := hfirst.accepted
    have hearlier : ∀ l ∈ earlier, ∀ resume, ¬ Resumes l resume := fun l hl =>
      not_exists.mp (hfirst.refused l hl)
    obtain ⟨exchanges, c₁, hexchanges, hlogged, hsession⟩ :=
      session_earlier cpu hconsole hfirst.lines hearlier
    have hechoes : c₁.echoes = c.echoes := hlogged.echoes
    have hdisplay : c₁.display = c.display := hlogged.display
    obtain ⟨c₂, hend, hlast⟩ := answerTimes_resumed (rest.length + 1)
      (hlogged.unbroken (hconsole.continued _ _)) hlogged.pending hline
    rw [hdisplay] at hend
    rw [hechoes] at hlast
    exact .inl ⟨earlier, line, rest, resume, c₂, hfirst, hline, hsession.trans hend,
      conversed_of_logged hexchanges hlogged hlast⟩
  · have hearlier : ∀ l ∈ c.pending, ∀ resume, ¬ Resumes l resume := fun l hl =>
      not_exists.mp (hnone l hl)
    obtain ⟨exchanges, c₁, hexchanges, hlogged, hsession⟩ :=
      session_earlier cpu hconsole (List.append_nil _).symm hearlier
    have hdisplay : c₁.display = c.display := hlogged.display
    obtain ⟨c₂, hend, hlast⟩ := answerTimes_ended 0
      (hlogged.unbroken (hconsole.continued _ _)) hlogged.pending
    rw [hdisplay] at hend
    exact .inr ⟨hearlier, c₂, hsession.trans hend, conversed_of_logged hexchanges hlogged hlast⟩

/-- A console where a blank line, a command that shows something and a line that is no command are
typed in front of a step. -/
def steppedScript : Console := { pending := [" ", "m 0x10 2", "jump", "STEP", "go"] }

/-- The processor behind it. -/
def idleCpu : Cpu := .powerOn ⟨16, 8, 12⟩ false

/-- The session ends with the step, and the last line is left. -/
theorem session_follows_commands_steppedScript :
    steppedScript.Unbroken ∧ ∃ c', session idleCpu steppedScript = .ok .step c' ∧
      Conversed idleCpu steppedScript c' [" ", "m 0x10 2", "jump"] ["go"]
        [.prompt promptText] := by
  have hconsole : steppedScript.Unbroken := ⟨rfl, rfl⟩
  obtain ⟨hok, -, hsession⟩ := session_follows_commands idleCpu hconsole
  have hearlier : ∀ l ∈ [" ", "m 0x10 2", "jump"], ∀ command ∈ [Command.step, .go, .quit],
      Command.read (Text.trim l) ≠ .ok command := by decide +kernel
  have hstep : Command.read (Text.trim "STEP") = .ok .step := by decide +kernel
  have hfirst : FirstTaken (fun l => ∃ resume, Resumes l resume) steppedScript.pending
      [" ", "m 0x10 2", "jump"] "STEP" ["go"] := by
    refine ⟨rfl, ?_, .step, .step ((hok _ _).mp hstep)⟩
    rintro l hl ⟨resume, hresumes⟩
    cases hresumes with
    | step h | go h | quit h => exact hearlier l hl _ (by decide) ((hok _ _).mpr h)
  rcases hsession with ⟨_, _, _, resume, c', hfirst', hline, hend, hconversed⟩ | ⟨hnone, -⟩
  · obtain ⟨rfl, rfl, rfl⟩ := hfirst.unique hfirst'
    obtain rfl : resume = .step := by
      cases hline with
      | step => rfl
      | go h | quit h =>
        rw [(hok _ _).mpr h] at hstep
        cases hstep
    exact ⟨hconsole, c', hend, hconversed⟩
  · exact absurd hfirst.accepted (not_exists.mpr (hnone "STEP" (by decide)))

end TeachingCpu.Debugger
