import TeachingCpu.Proofs.Machine.Calls

/-!
# The life cycle of a machine

Each status is entered by the calls that are meant for it (`StatusMoves`), a machine that cannot
go on refuses to execute and stays as it is, and a machine is faulted if and only if it holds the
failure of its last instruction (`FaultRecord`).
-/

namespace TeachingCpu

theorem ErrorKind.statusCode_ne_zero (kind : ErrorKind) : kind.statusCode ≠ 0 := by
  cases kind <;> decide

namespace Machine

variable {config : Config} {m m' : Machine} {call : Call} {reply : Reply} {ending : Ending}

/-! ## Entering and leaving a status -/

/-- How a call gets a machine from one status to another. -/
structure StatusMoves (m : Machine) (call : Call) (reply : Reply) (m' : Machine) : Prop where
  loaded : m'.status = .loaded →
    m.status = .loaded ∨ (∃ image, call = .load image) ∧ reply = .ok .done
  unloaded : m'.status = .unloaded → m.status = .unloaded ∨ call = .reset
  halted : m'.status = .halted → m.status = .halted ∨
    call.executes = true ∧ reply = .ok (.status .halted) ∧
      ∃ m₁, RunsTo m m₁ ∧ m₁.status.isRunnable = true ∧ stepInstruction m₁ = .ok .halted m'
  faulted : m'.status = .faulted → m.status = .faulted ∨
    call.executes = true ∧ ∃ e, reply = .error e ∧
      ∃ m₁, RunsTo m m₁ ∧ m₁.status.isRunnable = true ∧ stepInstruction m₁ = .error e m'
  /-- What stopped the program lasts until the machine is reset or loaded. -/
  stopped : m.status = .halted ∨ m.status = .faulted →
    m'.status = m.status ∨ call = .reset ∨ (∃ image, call = .load image) ∧ reply = .ok .done

/-- A call that leaves the status. -/
theorem statusMoves_of_eq (h : m'.status = m.status) : StatusMoves m call reply m' where
  loaded hm' := .inl (h.symm.trans hm')
  unloaded hm' := .inl (h.symm.trans hm')
  halted hm' := .inl (h.symm.trans hm')
  faulted hm' := .inl (h.symm.trans hm')
  stopped _ := .inl h

theorem statusMoves_loaded (m : Machine) (image : Image) :
    StatusMoves m (.load image) (.ok .done) (m.loaded image) where
  loaded _ := .inr ⟨⟨image, rfl⟩, rfl⟩
  unloaded h := nomatch h
  halted h := nomatch h
  faulted h := nomatch h
  stopped _ := .inr (.inr ⟨⟨image, rfl⟩, rfl⟩)

theorem statusMoves_reset (m : Machine) : StatusMoves m .reset (.ok .done) m.reset where
  loaded h := nomatch h
  unloaded _ := .inr rfl
  halted h := nomatch h
  faulted h := nomatch h
  stopped _ := .inr (.inl rfl)

/-- An instruction that runs on leads from a machine that can execute to a running one. -/
theorem RunsTo.status (h : RunsTo m m') : m' = m ∨ m'.status = .running := by
  cases h with
  | refl => exact .inl rfl
  | tail _ hstep => exact .inr hstep.status

theorem not_stopped (h : m.status.isRunnable = true) :
    ¬ (m.status = .halted ∨ m.status = .faulted) := by
  rintro (hm | hm) <;> rw [hm] at h <;> cases h

/-- Execution leads to a running machine, or it ends in the status that its reply tells. -/
theorem statusMoves_of_endsIn (hcall : call.executes = true)
    (hrunnable : m.status.isRunnable = true) (h : EndsIn m ending) :
    StatusMoves m call (Machine.reply .status ending).1 (Machine.reply .status ending).2 := by
  cases h with
  | @running m₁ hruns =>
    rcases hruns.status with hsame | hrunning
    · exact statusMoves_of_eq (congrArg Machine.status hsame)
    · have hne : ∀ status, m₁.status = status → status = .running := by
        intro status hstatus
        exact hstatus.symm.trans hrunning
      exact
        { loaded := fun hm' => nomatch hne _ hm'
          unloaded := fun hm' => nomatch hne _ hm'
          halted := fun hm' => nomatch hne _ hm'
          faulted := fun hm' => nomatch hne _ hm'
          stopped := fun hstopped => absurd hstopped (not_stopped hrunnable) }
  | halted hruns hrunnable₁ hlast =>
    have hhalted := (status_of_stepInstruction hlast).1
    exact
      { loaded := fun hm' => nomatch hhalted.symm.trans hm'
        unloaded := fun hm' => nomatch hhalted.symm.trans hm'
        halted := fun _ => .inr ⟨hcall, rfl, _, hruns, hrunnable₁, hlast⟩
        faulted := fun hm' => nomatch hhalted.symm.trans hm'
        stopped := fun hstopped => absurd hstopped (not_stopped hrunnable) }
  | faulted hruns hrunnable₁ hlast =>
    obtain ⟨m₂, -, -, rfl⟩ := fault_of_stepInstruction hrunnable₁ hlast
    exact
      { loaded := fun hm' => nomatch hm'
        unloaded := fun hm' => nomatch hm'
        halted := fun hm' => nomatch hm'
        faulted := fun _ => .inr ⟨hcall, _, rfl, _, hruns, hrunnable₁, hlast⟩
        stopped := fun hstopped => absurd hstopped (not_stopped hrunnable) }

theorem Served.statusMoves (h : Served m call reply m') : StatusMoves m call reply m' := by
  cases h with
  | stopped => exact statusMoves_of_eq rfl
  | refused => exact statusMoves_of_eq rfl
  | loaded => exact statusMoves_loaded m _
  | advanced _ _ h =>
    obtain ⟨pc, observed, -, rfl⟩ := h
    exact statusMoves_of_eq rfl
  | executed hcall hrunnable h => exact statusMoves_of_endsIn hcall hrunnable h
  | reset => exact statusMoves_reset m

/-! ## The failure that a machine holds -/

/-- A call led to a machine `m₁` whose next instruction failed. The call returned that failure, and
it is on the machine: a line that starts with the address of the instruction, and the status code
of the error. -/
def HoldsFault (config : Config) (m : Machine) : Prop :=
  ∃ m₀ call e m₁, Reachable config m₀ ∧ m₀.serve call = some (.error e, m) ∧
    RunsTo m₀ m₁ ∧ m₁.status.isRunnable = true ∧ stepInstruction m₁ = .error e m ∧
    m.output = ["[0x" ++ Text.hex 4 m₁.cpu.pc.toNat ++ "] " ++ e.message] ∧
    m.statusCode = e.kind.statusCode

/-- What a machine knows of a failure: nothing, or all that there is to it. -/
structure FaultRecord (config : Config) (m : Machine) : Prop where
  clean : m.status ≠ .faulted → m.statusCode = 0 ∧ m.output = []
  faulted : m.status = .faulted → HoldsFault config m

/-- A machine that nothing was recorded on. -/
theorem faultRecord_of_clean (hstatus : m.status ≠ .faulted) (hcode : m.statusCode = 0)
    (houtput : m.output = []) : FaultRecord config m :=
  ⟨fun _ => ⟨hcode, houtput⟩, fun hfaulted => absurd hfaulted hstatus⟩

theorem unblamed_of_stepInstruction {status : Status} (h : stepInstruction m = .ok status m') :
    m'.statusCode = m.statusCode ∧ m'.output = m.output := by
  obtain ⟨-, hproceeds, -⟩ := proceeds_of_stepInstruction h
  exact ⟨hproceeds.statusCode, hproceeds.output⟩

theorem RunsTo.unblamed (h : RunsTo m m') :
    m'.statusCode = m.statusCode ∧ m'.output = m.output := by
  induction h with
  | refl => exact ⟨rfl, rfl⟩
  | tail _ hstep ih =>
    obtain ⟨hcode, houtput⟩ := unblamed_of_stepInstruction hstep
    exact ⟨hcode.trans ih.1, houtput.trans ih.2⟩

/-- The first failure on a machine is told with the address of its instruction. -/
theorem output_of_stepInstruction_error {e : Error} (hrunnable : m.status.isRunnable = true)
    (houtput : m.output = []) (h : stepInstruction m = .error e m') :
    m'.output = ["[0x" ++ Text.hex 4 m.cpu.pc.toNat ++ "] " ++ e.message] ∧
      m'.statusCode = e.kind.statusCode := by
  obtain ⟨m₁, -, hproceeds, rfl⟩ := fault_of_stepInstruction hrunnable h
  have hbefore : m₁.output = [] := hproceeds.output.trans houtput
  have hcurrent : m₁.current = m.cpu.pc := hproceeds.current
  refine ⟨?_, rfl⟩
  change m₁.output ++ ["[0x" ++ Text.hex 4 m₁.current.toNat ++ "] " ++ e.message] = _
  rw [hbefore, hcurrent]
  rfl

theorem faultRecord_of_endsIn (hreachable : Reachable config m)
    (hrunnable : m.status.isRunnable = true) (hclean : m.statusCode = 0 ∧ m.output = [])
    (hserve : m.serve call = some (Machine.reply .status ending)) (h : EndsIn m ending) :
    FaultRecord config (Machine.reply .status ending).2 := by
  obtain ⟨hcode, houtput⟩ := hclean
  cases h with
  | running hruns =>
    obtain ⟨hcode', houtput'⟩ := hruns.unblamed
    refine faultRecord_of_clean ?_ (hcode'.trans hcode) (houtput'.trans houtput)
    intro hfaulted
    rcases hruns.status with rfl | hrunning
    · exact not_stopped hrunnable (.inr hfaulted)
    · exact nomatch hfaulted.symm.trans hrunning
  | halted hruns _ hlast =>
    have hhalted := (status_of_stepInstruction hlast).1
    obtain ⟨hcode', houtput'⟩ := hruns.unblamed
    obtain ⟨hcode'', houtput''⟩ := unblamed_of_stepInstruction hlast
    refine faultRecord_of_clean ?_ ((hcode''.trans hcode').trans hcode)
      ((houtput''.trans houtput').trans houtput)
    exact fun hfaulted => nomatch hfaulted.symm.trans hhalted
  | faulted hruns hrunnable₁ hlast =>
    have hbefore := hruns.unblamed.2.trans houtput
    have hfault := output_of_stepInstruction_error hrunnable₁ hbefore hlast
    refine ⟨fun hne => absurd ?_ hne, fun _ => ?_⟩
    · obtain ⟨m₂, -, -, rfl⟩ := fault_of_stepInstruction hrunnable₁ hlast
      rfl
    · exact ⟨m, call, _, _, hreachable, hserve, hruns, hrunnable₁, hlast, hfault⟩

theorem Reachable.faultRecord (h : Reachable config m) : FaultRecord config m := by
  induction h with
  | build h | observe h =>
    obtain ⟨layout, -, rfl⟩ := build_eq_ok_iff.mp h
    exact faultRecord_of_clean (fun hm => nomatch hm) rfl rfl
  | @serve m m' call reply hm hserve ih =>
    cases hm.served hserve with
    | stopped => exact ih
    | refused => exact ih
    | loaded => exact faultRecord_of_clean (fun hm => nomatch hm) rfl rfl
    | advanced _ hrunnable h =>
      obtain ⟨pc, observed, -, rfl⟩ := h
      have hrunning : m.status ≠ .faulted := fun hfaulted => not_stopped hrunnable (.inr hfaulted)
      exact faultRecord_of_clean hrunning (ih.clean hrunning).1 (ih.clean hrunning).2
    | executed _ hrunnable h =>
      have hclean := ih.clean fun hfaulted => not_stopped hrunnable (.inr hfaulted)
      exact faultRecord_of_endsIn hm hrunnable hclean hserve h
    | reset => exact faultRecord_of_clean (fun hm => nomatch hm) rfl rfl

/-! ## The life cycle -/

/-- The life cycle of a machine that is built from a configuration and driven by calls in any
order, whatever programs it is given and whatever is typed. A machine that cannot go on refuses to
execute and stays as it is, its observer included. A status is entered and left by the calls that
are meant for it. A machine is faulted if and only if a status code is on it, and if and only if
there is output, and then both are those of the failure that the last effective call returned. -/
theorem lifeCycle (h : Reachable config m) :
    (∀ call, call.executes = true →
      m.status = .unloaded ∨ m.status = .halted ∨ m.status = .faulted →
        ∃ e : Error, e.kind = .engineNotRunnable ∧ m.serve call = some (.error e, m)) ∧
      (∀ call reply m', m.serve call = some (reply, m') → StatusMoves m call reply m') ∧
      (m.status = .faulted ↔ m.statusCode ≠ 0) ∧ (m.status = .faulted ↔ m.output ≠ []) ∧
      (m.status = .faulted → HoldsFault config m) := by
  have hrecord := h.faultRecord
  refine ⟨fun call hcall hstatus => ?_, fun call reply m' hserve => ?_, ?_, ?_, hrecord.faulted⟩
  · have hstopped : m.status.isRunnable = false := by
      rcases hstatus with hm | hm | hm <;> rw [hm] <;> rfl
    exact ⟨_, rfl, serve_of_not_runnable hcall hstopped⟩
  · exact (h.served hserve).statusMoves
  · constructor
    · intro hfaulted
      obtain ⟨_, _, e, _, _, _, _, _, _, _, hcode⟩ := hrecord.faulted hfaulted
      rw [hcode]
      exact e.kind.statusCode_ne_zero
    · intro hcode
      by_contra hne
      exact hcode (hrecord.clean hne).1
  · constructor
    · intro hfaulted
      obtain ⟨_, _, _, _, _, _, _, _, _, houtput, _⟩ := hrecord.faulted hfaulted
      rw [houtput]
      exact List.cons_ne_nil _ _
    · intro houtput
      by_contra hne
      exact houtput (hrecord.clean hne).2

/-- A program that is no instruction. -/
def noInstruction : Image where
  rom := [0xff]
  memory := []
  width := .bits16
  entry := 0

/-- A machine that has run it. -/
def faultedAtStart : Machine :=
  stepInstruction.finalState ((load noInstruction).finalState smallest)

theorem lifeCycle_faultedAtStart :
    Reachable smallest.config faultedAtStart ∧ faultedAtStart.status = .faulted ∧
      faultedAtStart.output ≠ [] ∧
        ∃ e, faultedAtStart.serve .run = some (.error e, faultedAtStart) := by
  have hload : serve smallest (.load noInstruction) =
      some (.ok .done, (load noInstruction).finalState smallest) := rfl
  have hstep : serve ((load noInstruction).finalState smallest) .stepInstruction =
      some (.error (.of (.undefinedOpcode 0xff)), faultedAtStart) := rfl
  have hreachable := Reachable.serve (.serve reachable_smallest hload) hstep
  have hfaulted : faultedAtStart.status = .faulted := rfl
  obtain ⟨hrefuses, -, -, houtput, -⟩ := lifeCycle hreachable
  obtain ⟨e, -, hrun⟩ := hrefuses .run rfl (.inr (.inr hfaulted))
  exact ⟨hreachable, hfaulted, houtput.mp hfaulted, e, hrun⟩

end Machine

end TeachingCpu
