import TeachingCpu.Console
import TeachingCpu.Proofs.Attempt

/-!
# Questions on the console

A question reads lines up to the first that is accepted, and complains about those in front of it.
Its answer is what becomes of that line (`firstAccepted_of_ask`). A console that does not break is
left with the lines behind it and has shown one complaint for each line in front of it, and where
no line is accepted, all of them are consumed (`ask_cases`).
-/

namespace TeachingCpu

open Attempt

namespace Console

/-! ## What is shown -/

/-- What is shown of the dialogue with the user, the latest first. -/
def shown (c : Console) : List ConsoleEntry := c.journal.filter ConsoleEntry.isDialogue

theorem shown_log (c : Console) (level : LogLevel) (topic : String) (text : Unit → String) :
    (c.log level topic text).shown = c.shown := by
  unfold log
  split <;> rfl

/-- At most log lines were shown on a console. -/
structure Logged (c c' : Console) : Prop where
  journal : ∃ journal, c' = { c with journal }
  shown : c'.shown = c.shown

instance : IsPreorder Console Logged where
  refl c := ⟨⟨c.journal, rfl⟩, rfl⟩
  trans := by
    rintro c _ _ ⟨⟨journal, rfl⟩, hshown⟩ ⟨⟨journal', rfl⟩, hshown'⟩
    exact ⟨⟨journal', rfl⟩, hshown'.trans hshown⟩

theorem logged_log (c : Console) (level : LogLevel) (topic : String)
    (text : Unit → String) : c.Logged (c.log level topic text) := by
  refine ⟨?_, shown_log c level topic text⟩
  unfold log
  split
  · exact ⟨_, rfl⟩
  · exact ⟨c.journal, rfl⟩

theorem Logged.pending {c c' : Console} (h : c.Logged c') : c'.pending = c.pending := by
  obtain ⟨journal, rfl⟩ := h.journal
  rfl

theorem Logged.echoes {c c' : Console} (h : c.Logged c') : c'.echoes = c.echoes := by
  obtain ⟨journal, rfl⟩ := h.journal
  rfl

theorem Logged.display {c c' : Console} (h : c.Logged c') : c'.display = c.display := by
  obtain ⟨journal, rfl⟩ := h.journal
  rfl

theorem pending_log (c : Console) (level : LogLevel) (topic : String) (text : Unit → String) :
    (c.log level topic text).pending = c.pending := (c.logged_log level topic text).pending

/-! ## Answers -/

/-- What becomes of the first of some lines that is accepted. -/
def firstAccepted {α : Type} (accept : String → Except String α) (lines : List String) :
    Option α :=
  lines.findSome? fun line => (accept line).toOption

theorem pending_of_write {c c' : Console} {text : String} (h : write text c = .ok () c') :
    c'.pending = c.pending := by
  unfold write at h
  rw [get_bind_apply] at h
  split at h
  · cases h
  · cases h
    rfl

/-- A line that is read is the next one. -/
theorem pending_of_readLine {c c' : Console} {prompt line : String}
    (h : readLine prompt c = .ok (some line) c') : c.pending = line :: c'.pending := by
  obtain ⟨pending, readsLeft, writesLeft, echoes, display, verbosity, journal⟩ := c
  unfold readLine at h
  rw [get_bind_apply] at h
  split at h
  · cases h
  · cases pending with
    | nil => cases h
    | cons first rest =>
      cases h
      refine congrArg (line :: ·) ?_
      split <;> rfl

variable {α : Type} {accept : String → Except String α}

theorem firstAccepted_of_askTimes {n : Nat} {c c' : Console} {a : α}
    (h : askTimes accept n c = .ok a c') : firstAccepted accept c.pending = some a := by
  induction n generalizing c with
  | zero => cases h
  | succ n ih =>
    obtain ⟨line?, c₁, hread, h⟩ := bind_eq_ok.mp h
    cases line? with
    | none => cases h
    | some line =>
      rw [pending_of_readLine hread]
      unfold firstAccepted
      rw [List.findSome?_cons]
      dsimp only at h
      cases haccept : accept line with
      | ok b =>
        rw [haccept] at h
        cases h
        rfl
      | error complaint =>
        rw [haccept] at h
        obtain ⟨_, c₂, hwrite, h⟩ := bind_eq_ok.mp h
        have hrest := ih h
        rw [pending_of_write hwrite] at hrest
        exact hrest

/-- A question is answered by the first line that is accepted. -/
theorem firstAccepted_of_ask {c c' : Console} {a : α} (h : ask accept c = .ok a c') :
    firstAccepted accept c.pending = some a :=
  firstAccepted_of_askTimes h

/-! ## Questions -/

/-- A console that does not break. -/
structure Unbroken (c : Console) : Prop where
  reads : c.readsLeft = none
  writes : c.writesLeft = none

/-- A console where other lines are left and more was shown, here in the order it was shown. -/
def continued (c : Console) (pending : List String) (entries : List ConsoleEntry) : Console :=
  { c with pending, journal := entries.reverse ++ c.journal }

/-- What is shown of a line that is typed behind a prompt. -/
def asked (echoes : Bool) (prompt line : String) : List ConsoleEntry :=
  .prompt prompt :: if echoes && !prompt.isEmpty then [.echo line] else []

/-- Nothing is echoed without a prompt. -/
theorem asked_empty (echoes : Bool) (line : String) : asked echoes "" line = [.prompt ""] := by
  cases echoes <;> rfl

/-- Lines that are asked for and refused: behind each empty prompt, the complaint about the line. -/
def refusals (complaints : List String) : List ConsoleEntry :=
  complaints.flatMap fun complaint => [.prompt "", .output complaint]

/-- All that a question shows. The last line is accepted, or there is none. -/
def question (complaints : List String) : List ConsoleEntry := refusals complaints ++ [.prompt ""]

variable {c : Console}

theorem Unbroken.continued (h : c.Unbroken) (pending : List String)
    (entries : List ConsoleEntry) : (c.continued pending entries).Unbroken := ⟨h.reads, h.writes⟩

theorem continued_continued (pending pending' : List String)
    (entries entries' : List ConsoleEntry) :
    (c.continued pending entries).continued pending' entries' =
      c.continued pending' (entries ++ entries') := by
  unfold continued
  rw [List.reverse_append, List.append_assoc]

theorem shown_continued (c : Console) (pending : List String) (entries : List ConsoleEntry) :
    (c.continued pending entries).shown =
      (entries.filter ConsoleEntry.isDialogue).reverse ++ c.shown := by
  unfold shown continued
  rw [List.filter_append, List.filter_reverse]

/-- Log lines that were shown before make no difference. -/
theorem Logged.continued {c' : Console} (h : c.Logged c') (pending : List String)
    (entries : List ConsoleEntry) :
    (c.continued pending entries).Logged (c'.continued pending entries) := by
  obtain ⟨⟨journal, rfl⟩, hshown⟩ := h
  refine ⟨⟨_, rfl⟩, ?_⟩
  rw [shown_continued, shown_continued, hshown]

theorem readLine_nil (prompt : String) (h : c.Unbroken) (hpending : c.pending = []) :
    readLine prompt c = .ok none (c.continued [] [.prompt prompt]) := by
  obtain ⟨pending, readsLeft, writesLeft, echoes, display, verbosity, journal⟩ := c
  obtain ⟨rfl, rfl⟩ := h
  cases hpending
  rfl

theorem readLine_cons (prompt : String) {line : String} {rest : List String} (h : c.Unbroken)
    (hpending : c.pending = line :: rest) :
    readLine prompt c = .ok (some line) (c.continued rest (asked c.echoes prompt line)) := by
  obtain ⟨pending, readsLeft, writesLeft, echoes, display, verbosity, journal⟩ := c
  obtain ⟨rfl, rfl⟩ := h
  cases hpending
  unfold readLine asked
  generalize prompt.isEmpty = promptless
  cases echoes <;> cases promptless <;> rfl

theorem write_eq_ok {text : String} (h : c.Unbroken) :
    write text c = .ok () (c.continued c.pending [.output text]) := by
  obtain ⟨pending, readsLeft, writesLeft, echoes, display, verbosity, journal⟩ := c
  obtain ⟨rfl, rfl⟩ := h
  rfl

/-- A line that is refused is read and complained about. -/
theorem askTimes_refused {line complaint : String} {rest : List String} (n : Nat) (h : c.Unbroken)
    (hpending : c.pending = line :: rest) (hrefused : accept line = .error complaint) :
    askTimes accept (n + 1) c =
      askTimes accept n (c.continued rest [.prompt "", .output complaint]) := by
  rw [askTimes, bind_of_ok (readLine_cons "" h hpending), asked_empty]
  simp only [hrefused]
  rw [bind_of_ok (write_eq_ok (h.continued _ _)), continued_continued]
  rfl

/-- So is every line up to the first that is accepted. -/
theorem askTimes_append {refused complaints rest : List String} (n : Nat)
    (hrefused : List.Forall₂ (accept · = .error ·) refused complaints) (h : c.Unbroken)
    (hpending : c.pending = refused ++ rest) :
    askTimes accept (refused.length + n) c =
      askTimes accept n (c.continued rest (refusals complaints)) := by
  induction hrefused generalizing c with
  | nil =>
    obtain ⟨pending, readsLeft, writesLeft, echoes, display, verbosity, journal⟩ := c
    cases hpending
    rw [List.length_nil, Nat.zero_add]
    rfl
  | @cons line complaint refused complaints hline _ ih =>
    have hlines : c.pending = line :: (refused ++ rest) := hpending
    rw [List.length_cons, Nat.add_right_comm, askTimes_refused _ h hlines hline,
      ih (h.continued _ _) rfl, continued_continued]
    rfl

theorem ask_eq_ok {refused complaints rest : List String} {line : String} {a : α}
    (hrefused : List.Forall₂ (accept · = .error ·) refused complaints)
    (hline : accept line = .ok a) (h : c.Unbroken)
    (hpending : c.pending = refused ++ line :: rest) :
    ask accept c = .ok a (c.continued rest (question complaints)) := by
  unfold ask
  rw [get_bind_apply, hpending, List.length_append, Nat.add_assoc,
    askTimes_append _ hrefused h hpending]
  unfold askTimes
  rw [bind_of_ok (readLine_cons "" (h.continued _ _) rfl), asked_empty, continued_continued]
  simp only [hline]
  rfl

theorem ask_eq_error {complaints : List String}
    (hrefused : List.Forall₂ (accept · = .error ·) c.pending complaints) (h : c.Unbroken) :
    ask accept c = .error (.of .inputExhausted) (c.continued [] (question complaints)) := by
  unfold ask
  rw [get_bind_apply, askTimes_append 1 hrefused h (List.append_nil _).symm]
  unfold askTimes
  rw [bind_of_ok (readLine_nil "" (h.continued _ _) rfl), continued_continued]
  rfl

/-- Lines were read and refused, each with a complaint, before one was accepted or there was none
left. -/
structure Asked (refuses : String → String → Prop) (refused rest : List String)
    (c c' : Console) : Prop where
  pending : c'.pending = rest
  shown : ∃ complaints, List.Forall₂ refuses refused complaints ∧
    c'.shown = (question complaints).reverse ++ c.shown

/-- A line is the first of a script that can be accepted. -/
structure FirstTaken (accepts : String → Prop) (lines refused : List String) (line : String)
    (rest : List String) : Prop where
  lines : lines = refused ++ line :: rest
  refused : ∀ l ∈ refused, ¬ accepts l
  accepted : accepts line

/-- There is such a line, or none can be accepted. -/
theorem exists_firstTaken (accepts : String → Prop) (lines : List String) :
    (∃ refused line rest, FirstTaken accepts lines refused line rest) ∨
      ∀ l ∈ lines, ¬ accepts l := by
  induction lines with
  | nil => exact .inr nofun
  | cons first lines ih =>
    by_cases hfirst : accepts first
    · exact .inl ⟨[], first, lines, rfl, nofun, hfirst⟩
    · obtain ⟨refused, line, rest, rfl, hrefused, hline⟩ | hnone := ih
      · exact .inl ⟨first :: refused, line, rest, rfl,
          List.forall_mem_cons.mpr ⟨hfirst, hrefused⟩, hline⟩
      · exact .inr (List.forall_mem_cons.mpr ⟨hfirst, hnone⟩)

/-- There is at most one such line. -/
theorem FirstTaken.unique {accepts : String → Prop}
    {lines refused refused' rest rest' : List String}
    {line line' : String} (h : FirstTaken accepts lines refused line rest)
    (h' : FirstTaken accepts lines refused' line' rest') :
    refused = refused' ∧ line = line' ∧ rest = rest' := by
  induction refused generalizing lines refused' with
  | nil =>
    cases refused' with
    | nil =>
      obtain ⟨rfl, rfl⟩ := List.cons.inj (h.lines.symm.trans h'.lines)
      exact ⟨rfl, rfl, rfl⟩
    | cons first' refused' =>
      obtain ⟨rfl, -⟩ := List.cons.inj (h.lines.symm.trans h'.lines)
      exact absurd h.accepted (h'.refused line List.mem_cons_self)
  | cons first refused ih =>
    cases refused' with
    | nil =>
      obtain ⟨rfl, -⟩ := List.cons.inj (h.lines.symm.trans h'.lines)
      exact absurd h'.accepted (h.refused first List.mem_cons_self)
    | cons first' refused' =>
      obtain ⟨rfl, hrest⟩ := List.cons.inj (h.lines.symm.trans h'.lines)
      have htail := ih ⟨rfl, (List.forall_mem_cons.mp h.refused).2, h.accepted⟩
        ⟨hrest, (List.forall_mem_cons.mp h'.refused).2, h'.accepted⟩
      exact ⟨congrArg _ htail.1, htail.2⟩

theorem shown_question (rest complaints : List String) :
    (c.continued rest (question complaints)).shown = (question complaints).reverse ++ c.shown := by
  have hdialogue : ∀ entry ∈ question complaints, entry.isDialogue = true := by
    intro entry hentry
    simp only [question, refusals, List.mem_append, List.mem_flatMap, List.mem_cons,
      List.not_mem_nil, or_false] at hentry
    obtain ⟨_, -, rfl | rfl⟩ | rfl := hentry <;> rfl
  rw [shown_continued, List.filter_eq_self.mpr hdialogue]

theorem Logged.unbroken {c c' : Console} (h : c.Logged c') (hconsole : c.Unbroken) :
    c'.Unbroken := by
  obtain ⟨journal, rfl⟩ := h.journal
  exact ⟨hconsole.reads, hconsole.writes⟩

theorem Asked.of_logged {refuses : String → String → Prop} {refused rest : List String}
    {c c₁ c' : Console} (h : c.Logged c₁) (hasked : Asked refuses refused rest c₁ c') :
    Asked refuses refused rest c c' :=
  ⟨hasked.pending, h.shown ▸ hasked.shown⟩

section Asked

variable {refuses : String → String → Prop} {accepts : String → Prop} {refused rest : List String}
  {line : String} (haccepts : ∀ l, accepts l ↔ ∃ a, accept l = .ok a)
  (hrefuses : ∀ l complaint, accept l = .error complaint ↔ refuses l complaint)
  (hconsole : c.Unbroken)

include haccepts in
/-- There is a complaint about each line that is refused. -/
theorem exists_complaints (hrefused : ∀ l ∈ refused, ¬ accepts l) :
    ∃ complaints, List.Forall₂ (accept · = .error ·) refused complaints := by
  induction refused with
  | nil => exact ⟨[], .nil⟩
  | cons l refused ih =>
    obtain ⟨hl, hrest⟩ := List.forall_mem_cons.mp hrefused
    obtain ⟨complaints, hcomplaints⟩ := ih hrest
    cases hanswer : accept l with
    | ok a => exact absurd ((haccepts l).mpr ⟨a, hanswer⟩) hl
    | error complaint => exact ⟨complaint :: complaints, .cons hanswer hcomplaints⟩

include hrefuses in
theorem asked_question {complaints : List String}
    (hrefused : List.Forall₂ (accept · = .error ·) refused complaints) :
    Asked refuses refused rest c (c.continued rest (question complaints)) :=
  ⟨rfl, complaints, hrefused.imp fun _ _ => (hrefuses _ _).mp, shown_question rest complaints⟩

include haccepts hrefuses hconsole

/-- A question is answered by the first line that can be accepted, or not at all. -/
theorem ask_cases {c' : Console} (hlogged : c.Logged c') :
    (∃ refused line rest a c'', FirstTaken accepts c.pending refused line rest ∧
      accept line = .ok a ∧ ask accept c' = .ok a c'' ∧ Asked refuses refused rest c c'') ∨
    (∀ line ∈ c.pending, ¬ accepts line) ∧
      ∃ c'', ask accept c' = .error (.of .inputExhausted) c'' ∧
        Asked refuses c.pending [] c c'' := by
  have hconsole' := hlogged.unbroken hconsole
  obtain ⟨refused, line, rest, hfirst⟩ | hnone := exists_firstTaken accepts c.pending
  · obtain ⟨complaints, hcomplaints⟩ := exists_complaints haccepts hfirst.refused
    obtain ⟨a, hline⟩ := (haccepts line).mp hfirst.accepted
    have hask := ask_eq_ok hcomplaints hline hconsole' (hlogged.pending.trans hfirst.lines)
    exact .inl ⟨refused, line, rest, a, _, hfirst, hline, hask,
      (asked_question hrefuses hcomplaints).of_logged hlogged⟩
  · obtain ⟨complaints, hcomplaints⟩ := exists_complaints haccepts hnone
    have hask := ask_eq_error (hlogged.pending.symm ▸ hcomplaints) hconsole'
    exact .inr ⟨hnone, _, hask, (asked_question hrefuses hcomplaints).of_logged hlogged⟩

end Asked

end Console

end TeachingCpu
