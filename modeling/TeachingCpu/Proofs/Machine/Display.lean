import TeachingCpu.Proofs.Machine.Budget
import TeachingCpu.Proofs.Machine.Presentation

/-!
# Displays of a machine

How texts are shown makes no difference to a run. Two machines that are started on consoles with
different displays do the same, instruction by instruction, and show the same if one display shows
colours and the other does not (`start_on_displays`).
-/

namespace TeachingCpu

open Attempt Text

/-! ## The dialogue of a console -/

namespace Console

/-- The characters of a dialogue. -/
def spokenIn (journal : List ConsoleEntry) : List Char :=
  journal.reverse.flatMap (·.spoken.toList)

theorem spokenIn_cons (entry : ConsoleEntry) (journal : List ConsoleEntry) :
    spokenIn (entry :: journal) = spokenIn journal ++ entry.spoken.toList := by
  simp [spokenIn]

theorem toList_dialogue (c : Console) : c.dialogue.toList = spokenIn c.journal := by
  unfold dialogue spokenIn
  rw [String.toList_join, List.flatMap_map]
  induction c.journal.reverse with
  | nil => rfl
  | cons entry entries ih =>
    rw [List.flatMap_cons, ← ih]
    cases entry <;> rfl

/-- The console with another display, before anything was shown on it. -/
def showing (c : Console) (display : Display) : Console := { c with display, journal := [] }

/-- The console without its display and all that was shown on it. -/
def unshown (c : Console) : Console := c.showing {}

end Console

/-! ## Presentations -/

namespace Presentation

/-- Any displays, whatever is shown on them. -/
def anyDisplays : Presentation where
  faithful := False
  displays _ _ := True
  journals _ _ := True
  observers := Eq
  enter _ _ _ _ := trivial
  see _ h := congrArg _ h

/-- A display with colours, beside the same display without them. -/
def colours : Presentation where
  faithful := True
  displays display display' := display' = display.uncolored
  journals journal journal' := Strips (Console.spokenIn journal) (Console.spokenIn journal')
  observers := Eq
  enter entry hentry hdisplays hjournals := by
    subst hdisplays
    rw [Console.spokenIn_cons, Console.spokenIn_cons]
    exact hjournals.append (hentry trivial _)
  see _ h := congrArg _ h

end Presentation

theorem Console.Alike.decolored_dialogue {c c' : Console} (h : c.Alike .colours c') :
    decolored c.dialogue = c'.dialogue := by
  cases h with
  | intro _ hjournal _ =>
    refine decolored_of_strips ?_
    rw [toList_dialogue, toList_dialogue]
    exact hjournal

namespace Machine

variable {p : Presentation} {m m' : Machine}

/-- The machine without what was shown on its console, and how. -/
def unshown (m : Machine) : Machine :=
  { m with bench := { m.bench with console := m.bench.console.unshown } }

theorem Alike.unshown_eq (h : Alike .anyDisplays m m') : m.unshown = m'.unshown := by
  obtain ⟨⟨⟨⟩⟩, hobserved⟩ := h
  exact congrArg (fun observed => { m.unshown with observed }) hobserved

/-! ## Runs -/

theorem alike_after (h : Alike p m m') {n : Nat}
    (hprinted : p.faithful → ∀ k < n, ∀ text, (m.after k).printed? = some text → Plain text) :
    Alike p (m.after n) (m'.after n) := by
  induction n with
  | zero => exact h
  | succ n ih =>
    have hbefore : Alike p (m.after n) (m'.after n) :=
      ih fun hfaithful k hk => hprinted hfaithful k (Nat.lt_succ_of_lt hk)
    rw [after_succ, after_succ]
    refine finalState_of_sameResult (sameResult_stepInstruction hbefore fun hfaithful => ?_)
    exact hprinted hfaithful n (Nat.lt_succ_self n)

/-- A machine that was just built, with a program on it. -/
def start (config : Config) (console : Console) (storage : Storage) (image : Image) :
    Except Error Machine := do
  let m ← build config console storage
  match load image m with
  | .ok _ m' => .ok m'
  | .error e _ => .error e

/-- On two consoles that are alike no machine is started, for the same reason, or machines that are
alike in turn. -/
theorem start_cases (hobservers : p.observers none none) {console console' : Console}
    (h : console.Alike p console') (config : Config) (storage : Storage) (image : Image) :
    (∃ e, start config console storage image = .error e ∧
        start config console' storage image = .error e) ∨
      ∃ m m', start config console storage image = .ok m ∧
        start config console' storage image = .ok m' ∧ Alike p m m' := by
  cases hlayout : config.layout with
  | error e =>
    have hrefused : ∀ console, start config console storage image = .error e := by
      intro console
      simp only [start, build, hlayout]
      rfl
    exact .inl ⟨e, hrefused console, hrefused console'⟩
  | ok layout =>
    have hstart : ∀ console, start config console storage image =
        match load image (fresh config layout console storage) with
        | .ok _ m' => .ok m'
        | .error e _ => .error e := by
      intro console
      have hbuild : build config console storage = .ok (fresh config layout console storage) :=
        build_eq_ok_iff.mpr ⟨layout, hlayout, rfl⟩
      unfold start
      rw [hbuild]
      rfl
    have hfresh : Alike p (fresh config layout console storage)
        (fresh config layout console' storage) := by
      obtain ⟨hdisplay, hjournal, htyped⟩ := h
      refine Alike.log ?_ .debug _
      exact .intro (.intro (.intro hdisplay hjournal htyped)) hobservers
    have hload := matches_load image hfresh
    rw [hstart, hstart]
    cases hact : load image (fresh config layout console storage) with
    | ok _ m =>
      rw [hact] at hload
      obtain ⟨m', hact', halike⟩ := hload.exists_ok
      exact .inr ⟨m, m', rfl, by rw [hact'], halike⟩
    | error e m =>
      rw [hact] at hload
      obtain ⟨m', hact', -⟩ := hload.exists_error
      exact .inl ⟨e, rfl, by rw [hact']⟩

/-- No machine is started with either of two displays, for the same reason, or each instruction has
the same outcome with both and leaves the same machine, except for what it showed. As long as what
is typed and printed is plain, a dialogue in colours is the dialogue without them once its control
sequences are taken out. -/
theorem start_on_displays (config : Config) (console : Console) (storage : Storage)
    (image : Image) (d d' : Display) :
    (∃ e, start config (console.showing d) storage image = .error e ∧
        start config (console.showing d') storage image = .error e) ∨
      ∃ m m', start config (console.showing d) storage image = .ok m ∧
        start config (console.showing d') storage image = .ok m' ∧
        (∀ n, (m.after n).unshown = (m'.after n).unshown ∧
          stepInstruction.outcome (m.after n) = stepInstruction.outcome (m'.after n)) ∧
        (d' = d.uncolored → (∀ line ∈ console.pending, Plain line) → ∀ n,
          (∀ k < n, ∀ text, (m.after k).printed? = some text → Plain text) →
            decolored (m.after n).bench.console.dialogue =
              (m'.after n).bench.console.dialogue) := by
  have hany : (console.showing d).Alike .anyDisplays (console.showing d') :=
    .intro trivial trivial False.elim
  rcases start_cases rfl hany config storage image with hrefused | ⟨m, m', hm, hm', halike⟩
  · exact .inl hrefused
  · refine .inr ⟨m, m', hm, hm', fun n => ?_, fun hd htyped n hprinted => ?_⟩
    · have hafter := alike_after halike (n := n) False.elim
      refine ⟨hafter.unshown_eq, ?_⟩
      exact outcome_eq_of_sameResult (sameResult_stepInstruction hafter False.elim)
    · have hcolours : (console.showing d).Alike .colours (console.showing d') :=
        .intro hd .nil fun _ => htyped
      rcases start_cases rfl hcolours config storage image with
        ⟨e, hrefused, -⟩ | ⟨n₀, n₀', hn, hn', hcoloured⟩
      · rw [hm] at hrefused
        cases hrefused
      · cases hm.symm.trans hn
        cases hm'.symm.trans hn'
        exact (alike_after hcoloured fun _ => hprinted).bench.console.decolored_dialogue

/-- A program that opens the debugger and prints a letter: `mov %al $3`, `int`, `mov %al $10`,
`mov %dl $65`, `int`, `halt`. -/
def opensAndPrints : Image where
  rom := [0x02, 0x01, 0x00, 0x04, 0x03, 0x1e, 0x02, 0x01, 0x00, 0x04, 0x0a, 0x02, 0x01, 0x06,
    0x04, 0x41, 0x1e, 0x01]
  memory := []
  width := .bits16
  entry := 0

/-- The machine that runs it for a user who asks for the flags. -/
def opened (display : Display) : Machine :=
  (load opensAndPrints).finalState
    (fresh smallest.config ⟨16, 8, 12⟩ (Console.showing { pending := ["flags", "go"] } display)
      (.table {}))

theorem start_opensAndPrints (display : Display) :
    start smallest.config (Console.showing { pending := ["flags", "go"] } display) (.table {})
      opensAndPrints = .ok (opened display) := rfl

/-- The flags are shown in colours on one side alone, and without the colours they are the same. -/
theorem start_on_displays_flags :
    decolored ((opened { colored := true }).after 6).bench.console.dialogue =
        ((opened {}).after 6).bench.console.dialogue ∧
      ((opened { colored := true }).after 6).bench.console.dialogue ≠
        ((opened {}).after 6).bench.console.dialogue := by
  have hprinted : ∀ k < 6, ((opened { colored := true }).after k).printed?.all
      (fun text => decide (Plain text)) = true := by
    decide +kernel
  rcases start_on_displays smallest.config { pending := ["flags", "go"] } (.table {})
    opensAndPrints { colored := true } {} with ⟨e, hrefused, -⟩ | ⟨m, m', hm, hm', -, hcolours⟩
  · rw [start_opensAndPrints] at hrefused
    cases hrefused
  · cases (start_opensAndPrints _).symm.trans hm
    cases (start_opensAndPrints _).symm.trans hm'
    refine ⟨hcolours rfl (by decide) 6 fun k hk text htext => ?_, by decide +kernel⟩
    have hplain := hprinted k hk
    rw [htext] at hplain
    exact of_decide_eq_true hplain

end Machine

end TeachingCpu
