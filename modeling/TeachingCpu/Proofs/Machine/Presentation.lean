import TeachingCpu.Proofs.Machine.Calls
import TeachingCpu.Proofs.Service.Presentation

/-!
# Presentations of a machine

Machines that are alike in all but their presentation execute alike: an instruction has the same
outcome on both, and leaves machines that are alike (`sameResult_stepInstruction`). If the dialogues
have to be the same but for their colours, what the instruction prints must not hold control
sequences of its own.
-/

namespace TeachingCpu

open Attempt Text

namespace Machine

/-- Machines that are the same but for their presentation. -/
inductive Alike (p : Presentation) (m : Machine) : Machine → Prop where
  | intro {bench : Bench} {observed : Option (List UInt16)} (hbench : m.bench.Alike p bench)
    (hobserved : p.observers m.observed observed) : Alike p m { m with bench, observed }

variable {p : Presentation} {α : Type} {m m' : Machine}

theorem Alike.bench (h : Alike p m m') : m.bench.Alike p m'.bench := by
  cases h with
  | intro hbench _ => exact hbench

theorem Alike.cpu_eq (h : Alike p m m') : m'.cpu = m.cpu := by
  obtain ⟨⟨hconsole⟩, hobserved⟩ := h
  rfl

theorem Alike.status_eq (h : Alike p m m') : m'.status = m.status := by
  cases h with
  | intro => rfl

theorem Alike.breakPending_eq (h : Alike p m m') : m'.breakPending = m.breakPending := by
  cases h with
  | intro => rfl

theorem Alike.debugged_eq (h : Alike p m m') : m'.debugged = m.debugged := by
  cases h with
  | intro => rfl

theorem Alike.starting (h : Alike p m m') : Alike p m.starting m'.starting := by
  cases h with
  | intro hbench hobserved => exact .intro hbench hobserved

theorem Alike.log (h : Alike p m m') (level : LogLevel) (text : Unit → String) :
    Alike p (m.log level text) (m'.log level text) := by
  obtain ⟨⟨hconsole⟩, hobserved⟩ := h
  exact .intro (.intro (hconsole.log level topic text)) hobserved

theorem sameResult_onBench {act : Attempt Bench α} (h : Alike p m m')
    (hact : SameResult (Bench.Alike p) (act m.bench) (act m'.bench)) :
    SameResult (Alike p)
      (Attempt.onPart Machine.bench (fun bench m => { m with bench }) act m)
      (Attempt.onPart Machine.bench (fun bench m => { m with bench }) act m') := by
  obtain ⟨-, hobserved⟩ := h
  exact sameResult_onPart (fun _ _ hbench => .intro hbench hobserved) hact

theorem matches_onBench {act : Attempt Bench α} (h : Matches (Bench.Alike p) act act) :
    Matches (Alike p) (Attempt.onPart Machine.bench (fun bench m => { m with bench }) act)
      (Attempt.onPart Machine.bench (fun bench m => { m with bench }) act) := fun _ _ hm =>
  sameResult_onBench hm (h hm.bench)

theorem matches_onCpu (act : Attempt Cpu α) : Matches (Alike p) (onCpu act) (onCpu act) :=
  matches_onBench (Bench.matches_onCpu act)

/-! ## Fetching -/

theorem matches_ensureRunnable : Matches (Alike p) ensureRunnable ensureRunnable := by
  refine matches_get_bind fun m m' h => ?_
  rw [h.status_eq]
  split
  · exact matches_fail _ h
  · exact matches_pure _ h

theorem matches_fetchByte (address : UInt16) :
    Matches (Alike p) (fetchByte address) (fetchByte address) := by
  refine matches_get_bind ?_
  rintro m _ ⟨hbench, hobserved⟩
  dsimp only
  cases m.rom[address.toNat]? with
  | some b => exact matches_pure b (.intro hbench hobserved)
  | none => exact matches_fail _ (.intro hbench hobserved)

theorem matches_advance : Matches (Alike p) advance advance := by
  refine matches_get_bind fun m m' h => ?_
  rw [h.cpu_eq]
  split
  · exact matches_fail _ h
  · refine matches_bind (matches_onCpu _) (fun _ => ?_) h
    refine matches_bind (matches_modify ?_) fun _ => matches_pure _
    rintro m _ ⟨hbench, hobserved⟩
    exact .intro hbench (p.see _ hobserved)

theorem matches_fetchOperand : Matches (Alike p) fetchOperand fetchOperand := by
  refine matches_bind matches_advance fun pc => ?_
  refine matches_bind (matches_fetchByte pc) fun tag => ?_
  refine matches_bind matches_advance fun pc' => ?_
  refine matches_bind (matches_fetchByte pc') fun value => ?_
  split
  · exact matches_pure _
  · exact matches_fail _

theorem matches_fetchOperands (n : Nat) :
    Matches (Alike p) (fetchOperands n) (fetchOperands n) := by
  induction n with
  | zero => exact matches_pure _
  | succ n ih =>
    refine matches_bind matches_fetchOperand fun operand => ?_
    exact matches_bind ih fun rest => matches_pure _

theorem matches_fetchInstruction : Matches (Alike p) fetchInstruction fetchInstruction := by
  refine matches_get_bind fun m m' h => ?_
  rw [h.cpu_eq]
  refine matches_bind (matches_fetchByte m.cpu.pc) (fun code => ?_) h
  split
  · exact matches_fail _
  · refine matches_bind (matches_fetchOperands _) fun operands => ?_
    exact matches_bind matches_advance fun _ => matches_pure _

theorem matches_fetchNext : Matches (Alike p) fetchNext fetchNext := by
  refine matches_bind (matches_modify ?_) fun _ => ?_
  · rintro m _ ⟨⟨hconsole⟩, hobserved⟩
    exact .intro (.intro hconsole) hobserved
  · refine matches_bind matches_fetchInstruction fun i => ?_
    refine matches_bind (matches_modify ?_) fun _ => matches_pure i
    rintro m _ ⟨hbench, hobserved⟩
    refine Alike.log ?_ .trace _
    exact .intro hbench hobserved

/-! ## Executing -/

theorem matches_openDebugger : Matches (Alike p) openDebugger openDebugger := by
  refine matches_bind (matches_modify ?_) fun _ => ?_
  · rintro m _ ⟨hbench, hobserved⟩
    exact .intro hbench hobserved
  · refine matches_get_bind fun m m' h => ?_
    rw [h.cpu_eq]
    have hsession := Debugger.matches_session (p := p) m.cpu
    refine matches_bind (matches_onBench (Bench.matches_onConsole hsession)) (fun resume => ?_) h
    cases resume with
    | step =>
      refine matches_modify ?_
      rintro m _ ⟨hbench, hobserved⟩
      exact .intro hbench hobserved
    | go => exact matches_pure _
    | quit =>
      refine matches_modify ?_
      rintro m _ ⟨⟨hconsole⟩, hobserved⟩
      refine Alike.log ?_ .info _
      exact .intro (.intro hconsole) hobserved

/-- An interrupt that prints nothing but plain text. -/
theorem sameResult_interrupt (h : Alike p m m')
    (hprinted : p.faithful → ∀ text, m.bench.printed? = some text → Plain text) :
    SameResult (Alike p) (interrupt m) (interrupt m') := by
  have hdispatch := Service.sameResult_dispatch h.bench hprinted
  refine sameResult_bind (sameResult_onBench h hdispatch) fun outcome t t' _ ht => ?_
  cases outcome with
  | handled => exact matches_pure _ ht
  | invalid e => exact matches_pure _ ht
  | debug => exact matches_openDebugger ht

theorem sameResult_perform (h : Alike p m m') (i : Instruction)
    (hprinted : p.faithful → i.opcode = .int → ∀ text, m.bench.printed? = some text →
      Plain text) :
    SameResult (Alike p) (perform i m) (perform i m') := by
  cases heffect : i.opcode.effect with
  | halt =>
    simp only [perform, heffect]
    refine matches_modify ?_ h
    rintro m _ ⟨hbench, hobserved⟩
    refine Alike.log ?_ .info _
    exact .intro hbench hobserved
  | interrupt =>
    simp only [perform, heffect]
    exact sameResult_interrupt h fun hfaithful =>
      hprinted hfaithful (effect_eq_interrupt_iff.mp heffect)
  | _ =>
    simp only [perform, heffect]
    exact matches_onCpu _ h

theorem matches_breakIfWanted : Matches (Alike p) breakIfWanted breakIfWanted := by
  refine matches_get_bind fun m m' h => ?_
  rw [h.status_eq, h.breakPending_eq, h.cpu_eq, h.debugged_eq]
  split
  · refine matches_bind (matches_modify ?_) (fun _ => matches_openDebugger) h
    rintro m _ ⟨hbench, hobserved⟩
    exact .intro hbench hobserved
  · exact matches_pure _ h

/-- The text that the next instruction prints for the program. -/
def printed? (m : Machine) : Option String :=
  if m.status.isRunnable then
    match fetchNext m.starting with
    | .ok i m₁ => if i.opcode = .int then m₁.bench.printed? else none
    | .error _ _ => none
  else none

theorem sameResult_executeNext (hrunnable : m.status.isRunnable = true) (h : Alike p m m')
    (hprinted : p.faithful → ∀ text, m.printed? = some text → Plain text) :
    SameResult (Alike p) (executeNext m.starting) (executeNext m'.starting) := by
  rw [executeNext_eq]
  refine sameResult_bind (matches_fetchNext h.starting) fun i m₁ m₁' hfetch h₁ => ?_
  refine sameResult_bind (sameResult_perform h₁ i fun hfaithful hi text htext => ?_)
    fun _ _ _ _ h₂ => matches_breakIfWanted h₂
  refine hprinted hfaithful text ?_
  unfold printed?
  rw [if_pos hrunnable, hfetch]
  exact (if_pos hi).trans htext

theorem Alike.fault (h : Alike p m m') (e : Error) : Alike p (m.fault e) (m'.fault e) := by
  obtain ⟨⟨hconsole⟩, hobserved⟩ := h
  let line := "[0x" ++ hex 4 m.current.toNat ++ "] " ++ e.message
  have hlogged := hconsole.log .warn topic fun _ =>
    "fault: " ++ line ++ " (" ++ e.kind.code ++ ")"
  exact .intro (.intro hlogged) hobserved

/-- An instruction has the same outcome on machines that are alike. -/
theorem sameResult_stepInstruction (h : Alike p m m')
    (hprinted : p.faithful → ∀ text, m.printed? = some text → Plain text) :
    SameResult (Alike p) (stepInstruction m) (stepInstruction m') := by
  cases hrunnable : m.status.isRunnable with
  | false =>
    have hrunnable' : m'.status.isRunnable = false := h.status_eq ▸ hrunnable
    rw [stepInstruction_of_not_runnable hrunnable, stepInstruction_of_not_runnable hrunnable',
      h.status_eq]
    exact .error _ h
  | true =>
    have hrunnable' : m'.status.isRunnable = true := h.status_eq ▸ hrunnable
    have hexecute := sameResult_executeNext hrunnable h hprinted
    rw [stepInstruction_of_runnable hrunnable, stepInstruction_of_runnable hrunnable']
    cases hact : executeNext m.starting with
    | ok _ m₁ =>
      rw [hact] at hexecute
      obtain ⟨m₁', hact', h₁⟩ := hexecute.exists_ok
      rw [hact']
      dsimp only
      rw [h₁.status_eq]
      exact .ok _ h₁
    | error e m₁ =>
      rw [hact] at hexecute
      obtain ⟨m₁', hact', h₁⟩ := hexecute.exists_error
      rw [hact']
      exact .error e (h₁.fault e)

/-! ## Loading -/

theorem Alike.refusal?_eq (h : Alike p m m') (image : Image) :
    m'.refusal? image = m.refusal? image := by
  obtain ⟨⟨hconsole⟩, hobserved⟩ := h
  rfl

theorem matches_load (image : Image) : Matches (Alike p) (load image) (load image) := by
  refine matches_get_bind fun m m' h => ?_
  rw [h.refusal?_eq]
  cases m.refusal? image with
  | some cause => exact matches_fail cause h
  | none =>
    refine matches_bind (matches_modify ?_) (fun _ => ?_) h
    · rintro m _ ⟨⟨hconsole⟩, hobserved⟩
      exact .intro (.intro hconsole) hobserved
    · refine matches_bind (matches_onCpu _) fun _ => ?_
      refine matches_bind (matches_onCpu _) fun _ => matches_modify ?_
      rintro m _ ⟨hbench, hobserved⟩
      refine Alike.log ?_ .debug _
      exact .intro hbench hobserved

/-! ## Calls

Where what is shown need not be the same, nothing is asked of what is printed. -/

theorem matches_stepInstruction (hp : ¬ p.faithful) :
    Matches (Alike p) stepInstruction stepInstruction := fun _ _ h =>
  sameResult_stepInstruction h fun hfaithful => absurd hfaithful hp

theorem matches_continueFor (hp : ¬ p.faithful) (n : Nat) :
    Matches (Alike p) (continueFor n) (continueFor n) := by
  induction n with
  | zero =>
    refine matches_get_bind fun m m' h => ?_
    rw [h.status_eq]
    exact matches_pure _ h
  | succ n ih =>
    refine matches_bind (matches_stepInstruction hp) fun status => ?_
    split
    · exact ih
    · exact matches_pure _

theorem exists_run_right (hp : ¬ p.faithful) {ending : Ending} (h : run m = some ending) :
    ∀ m', Alike p m m' → ∃ ending', run m' = some ending' ∧
      SameResult (Alike p) ending ending' := by
  refine run.partial_correctness (fun m ending => ∀ m', Alike p m m' →
    ∃ ending', run m' = some ending' ∧ SameResult (Alike p) ending ending') ?_ m ending h
  intro _ ih m ending h m' halike
  have hstep := matches_stepInstruction hp halike
  rw [run]
  cases hact : stepInstruction m with
  | error e m₁ =>
    rw [hact] at h hstep
    obtain ⟨m₁', hact', h₁⟩ := hstep.exists_error
    cases h
    exact ⟨_, by rw [hact'], .error e h₁⟩
  | ok status m₁ =>
    rw [hact] at h hstep
    obtain ⟨m₁', hact', h₁⟩ := hstep.exists_ok
    rw [hact']
    cases status with
    | running => exact ih m₁ ending h m₁' h₁
    | _ =>
      cases h
      exact ⟨_, rfl, .ok _ h₁⟩

theorem exists_run_left (hp : ¬ p.faithful) {ending : Ending} (h : run m' = some ending) :
    ∀ m, Alike p m m' → ∃ ending, run m = some ending := by
  refine run.partial_correctness
    (fun m' _ => ∀ m, Alike p m m' → ∃ ending, run m = some ending) ?_ m' ending h
  intro _ ih m' ending h m halike
  have hstep := matches_stepInstruction hp halike
  rw [run]
  cases hact : stepInstruction m with
  | error e m₁ => exact ⟨_, rfl⟩
  | ok status m₁ =>
    rw [hact] at hstep
    obtain ⟨m₁', hact', h₁⟩ := hstep.exists_ok
    rw [hact'] at h
    cases status with
    | running => exact ih m₁' ending h m₁ h₁
    | _ => exact ⟨_, rfl⟩

/-- A run ends on both machines, in the same way, or on neither. -/
theorem rel_run (hp : ¬ p.faithful) (h : Alike p m m') :
    Option.Rel (SameResult (Alike p)) (run m) (run m') := by
  cases hrun : run m with
  | some ending =>
    obtain ⟨ending', hrun', hsame⟩ := exists_run_right hp hrun m' h
    rw [hrun']
    exact .some hsame
  | none =>
    cases hrun' : run m' with
    | none => exact .none
    | some ending' =>
      obtain ⟨ending, hends⟩ := exists_run_left hp hrun' m h
      rw [hrun] at hends
      cases hends

/-- The same reply, and machines that are alike. -/
def SameReply (p : Presentation) (served served' : Reply × Machine) : Prop :=
  served.1 = served'.1 ∧ Alike p served.2 served'.2

theorem sameReply_of_sameResult (answer : α → Answer) {r r' : EStateM.Result Error Machine α}
    (h : SameResult (Alike p) r r') : SameReply p (reply answer r) (reply answer r') := by
  cases h with
  | ok a halike => exact ⟨rfl, halike⟩
  | error e halike => exact ⟨rfl, halike⟩

theorem rel_serve (hp : ¬ p.faithful) (h : Alike p m m') (call : Call) :
    Option.Rel (SameReply p) (m.serve call) (m'.serve call) := by
  have hact : ∀ {β : Type} (answer : β → Answer) {act : Attempt Machine β},
      Matches (Alike p) act act →
        Option.Rel (SameReply p) (some (reply answer (act m))) (some (reply answer (act m'))) :=
    fun answer _ hmatches => .some (sameReply_of_sameResult answer (hmatches h))
  cases call with
  | load image => exact hact _ (matches_load image)
  | step => exact hact _ (matches_bind matches_ensureRunnable fun _ => matches_advance)
  | nextOperand => exact hact _ (matches_bind matches_ensureRunnable fun _ => matches_fetchOperand)
  | stepInstruction => exact hact _ (matches_stepInstruction hp)
  | run =>
    have hrun := rel_run hp h
    unfold serve
    generalize run m = ending at hrun ⊢
    generalize run m' = ending' at hrun ⊢
    cases hrun with
    | some hsame => exact .some (sameReply_of_sameResult .status hsame)
    | none => exact .none
  | runFor budget =>
    exact hact _ (matches_bind matches_ensureRunnable fun _ => matches_continueFor hp budget)
  | reset =>
    refine .some ⟨rfl, ?_⟩
    obtain ⟨⟨hconsole⟩, hobserved⟩ := h
    exact .intro (.intro hconsole) hobserved

/-- Calls get the same replies on machines that are alike, and leave machines that are alike. -/
theorem rel_serveAll (hp : ¬ p.faithful) (calls : List Call) (h : Alike p m m') :
    Option.Rel (fun served served' => served.1 = served'.1 ∧ Alike p served.2 served'.2)
      (m.serveAll calls) (m'.serveAll calls) := by
  induction calls generalizing m m' with
  | nil => exact .some ⟨rfl, h⟩
  | cons call calls ih =>
    have hserve := rel_serve hp h call
    unfold serveAll
    generalize m.serve call = served at hserve ⊢
    generalize m'.serve call = served' at hserve ⊢
    cases hserve with
    | none => exact .none
    | @some first first' hfirst =>
      have hrest := ih hfirst.2
      dsimp only
      generalize first.2.serveAll calls = rest at hrest ⊢
      generalize first'.2.serveAll calls = rest' at hrest ⊢
      cases hrest with
      | none => exact .none
      | some hlast => exact .some ⟨congrArg₂ List.cons hfirst.1 hlast.1, hlast.2⟩

end Machine

end TeachingCpu
