import TeachingCpu.Proofs.Machine.Load
import TeachingCpu.Proofs.Machine.Progress

/-!
# Calls

A machine is driven from outside by calls: it is given a program, counted on, executed for an
instruction, for some or to the end, and reset. `Served` lists all that a call can do, and what
holds of every machine that calls can lead to is shown along it (`Reachable`).
-/

namespace TeachingCpu

open Attempt

/-- The calls of a machine. -/
inductive Call where
  | load (image : Image)
  | step
  | nextOperand
  | stepInstruction
  | run
  | runFor (budget : Nat)
  | reset

/-- What a call yields. -/
inductive Answer where
  | done
  | pc (value : UInt16)
  | operand (operand : Operand)
  | status (status : Status)

/-- What the caller learns. -/
abbrev Reply := Except Error Answer

/-- Whether a call needs a program that can go on. -/
def Call.executes : Call → Bool
  | .load _ | .reset => false
  | _ => true

namespace Machine

/-- What an action tells the caller, and the machine that it leaves. -/
def reply {α : Type} (answer : α → Answer) : EStateM.Result Error Machine α → Reply × Machine
  | .ok a m => (.ok (answer a), m)
  | .error e m => (.error e, m)

/-- Serves a call. There is no reply to a run that does not end. -/
def serve (m : Machine) : Call → Option (Reply × Machine)
  | .load image => some (reply (fun _ => .done) (load image m))
  | .step => some (reply .pc (step m))
  | .nextOperand => some (reply .operand (nextOperand m))
  | .stepInstruction => some (reply .status (stepInstruction m))
  | .run => (run m).map (reply .status)
  | .runFor budget => some (reply .status (runFor budget m))
  | .reset => some (.ok .done, m.reset)

/-- Serves calls one behind the other. -/
def serveAll (m : Machine) : List Call → Option (List Reply × Machine)
  | [] => some ([], m)
  | call :: calls =>
    match m.serve call with
    | none => none
    | some (reply, m) => (m.serveAll calls).map fun (replies, m) => (reply :: replies, m)

/-- The machines that are built from a configuration and driven by calls. -/
inductive Reachable (config : Config) : Machine → Prop where
  | build {console : Console} {storage : Storage} {m : Machine}
    (h : build config console storage = .ok m) : Reachable config m
  | observe {console : Console} {storage : Storage} {m : Machine}
    (h : Machine.build config console storage = .ok m) : Reachable config m.observe
  | serve {m m' : Machine} {call : Call} {reply : Reply} (h : Reachable config m)
    (hserve : m.serve call = some (reply, m')) : Reachable config m'

/-! ## Runs -/

/-- An instruction that leaves the machine running. -/
def RunsOn (m m' : Machine) : Prop := stepInstruction m = .ok .running m'

/-- Instructions that leave the machine running, one behind the other. -/
abbrev RunsTo : Machine → Machine → Prop := Relation.ReflTransGen RunsOn

/-- How the execution of instructions ends. -/
inductive EndsIn (m : Machine) : Ending → Prop where
  /-- No more instructions were wanted. -/
  | running {m' : Machine} (h : RunsTo m m') : EndsIn m (.ok m'.status m')
  /-- The last instruction stopped the program. -/
  | halted {m₁ m' : Machine} (h : RunsTo m m₁) (hrunnable : m₁.status.isRunnable = true)
    (hstep : stepInstruction m₁ = .ok .halted m') : EndsIn m (.ok .halted m')
  /-- The last instruction failed. -/
  | faulted {m₁ m' : Machine} {e : Error} (h : RunsTo m m₁)
    (hrunnable : m₁.status.isRunnable = true) (hstep : stepInstruction m₁ = .error e m') :
    EndsIn m (.error e m')

theorem RunsOn.status {m m' : Machine} (h : RunsOn m m') : m'.status = .running :=
  (proceeds_of_stepInstruction h).2.2.symm

theorem RunsOn.isRunnable {m m' : Machine} (h : RunsOn m m') : m'.status.isRunnable = true :=
  congrArg Status.isRunnable h.status

/-- An instruction leaves the machine running or halted. -/
theorem status_of_stepInstruction {m m' : Machine} {status : Status}
    (h : stepInstruction m = .ok status m') :
    m'.status = status ∧ (status = .running ∨ status = .halted) := by
  obtain ⟨-, hproceeds, rfl⟩ := proceeds_of_stepInstruction h
  exact ⟨rfl, hproceeds.status⟩

theorem EndsIn.head {m m₁ : Machine} {ending : Ending} (hstep : RunsOn m m₁)
    (h : EndsIn m₁ ending) : EndsIn m ending := by
  cases h with
  | running hruns => exact .running (.head hstep hruns)
  | halted hruns hrunnable hlast => exact .halted (.head hstep hruns) hrunnable hlast
  | faulted hruns hrunnable hlast => exact .faulted (.head hstep hruns) hrunnable hlast

theorem endsIn_stepInstruction {m : Machine} (h : m.status.isRunnable = true) :
    EndsIn m (stepInstruction m) := by
  cases hstep : stepInstruction m with
  | error e m' => exact .faulted .refl h hstep
  | ok status m' =>
    obtain ⟨hsame, rfl | rfl⟩ := status_of_stepInstruction hstep
    · have hrunning := EndsIn.running (.single hstep)
      rw [hsame] at hrunning
      exact hrunning
    · exact .halted .refl h hstep

theorem endsIn_continueFor (n : Nat) {m : Machine} (h : m.status.isRunnable = true) :
    EndsIn m (continueFor n m) := by
  induction n generalizing m with
  | zero => exact .running .refl
  | succ n ih =>
    have hone := endsIn_stepInstruction h
    cases hstep : stepInstruction m with
    | error e m' =>
      rw [hstep] at hone
      have hall : continueFor (n + 1) m = .error e m' := bind_of_error hstep
      rw [hall]
      exact hone
    | ok status m' =>
      rw [hstep] at hone
      have hall : continueFor (n + 1) m =
          (if status = .running then continueFor n else pure status) m' := bind_of_ok hstep
      rw [hall]
      by_cases hstatus : status = .running
      · subst hstatus
        have hrunning : RunsOn m m' := hstep
        rw [if_pos rfl]
        exact (ih hrunning.isRunnable).head hrunning
      · rw [if_neg hstatus]
        exact hone

theorem endsIn_run {m : Machine} {ending : Ending} (h : run m = some ending)
    (hrunnable : m.status.isRunnable = true) : EndsIn m ending := by
  revert hrunnable
  refine run.partial_correctness
    (fun m ending => m.status.isRunnable = true → EndsIn m ending) ?_ m ending h
  intro run ih m ending h hrunnable
  have hone := endsIn_stepInstruction hrunnable
  cases hstep : stepInstruction m with
  | error e m' =>
    rw [hstep] at h hone
    cases h
    exact hone
  | ok status m' =>
    rw [hstep] at h hone
    cases status with
    | running =>
      have hrunning : RunsOn m m' := hstep
      exact (ih m' ending h hrunning.isRunnable).head hrunning
    | _ =>
      cases h
      exact hone

theorem run_of_not_runnable {m : Machine} (h : m.status.isRunnable = false) :
    run m = some (.error (.of (.notRunnable m.status)) m) := by
  rw [run, stepInstruction_of_not_runnable h]

/-! ## What calls do -/

/-- What a call does to a machine. -/
inductive Served (m : Machine) : Call → Reply → Machine → Prop where
  /-- There is no program that can go on. -/
  | stopped {call : Call} (hcall : call.executes = true) (h : m.status.isRunnable = false) :
    Served m call (.error (.of (.notRunnable m.status))) m
  | refused {image : Image} {cause : Cause} (h : m.refusal? image = some cause) :
    Served m (.load image) (.error (.of cause)) m
  | loaded {image : Image} (h : m.refusal? image = none) :
    Served m (.load image) (.ok .done) (m.loaded image)
  /-- The machine is counted on, or an operand is fetched. -/
  | advanced {call : Call} {reply : Reply} {m' : Machine}
    (hcall : call = .step ∨ call = .nextOperand) (hrunnable : m.status.isRunnable = true)
    (h : Advances m m') : Served m call reply m'
  | executed {call : Call} {ending : Ending} (hcall : call.executes = true)
    (hrunnable : m.status.isRunnable = true) (h : EndsIn m ending) :
    Served m call (reply .status ending).1 (reply .status ending).2
  | reset : Served m .reset (.ok .done) m.reset

theorem reply_of_leaves {α : Type} {R : Machine → Machine → Prop} {act : Attempt Machine α}
    (h : Leaves R R act) (answer : α → Answer) (m : Machine) :
    R m (reply answer (act m)).2 := by
  cases hact : act m with
  | ok a m' => exact h.ok hact
  | error e m' => exact h.error hact

/-- A machine that has no program to go on with refuses to execute, and stays as it is. -/
theorem serve_of_not_runnable {m : Machine} {call : Call} (hcall : call.executes = true)
    (h : m.status.isRunnable = false) :
    m.serve call = some (.error (.of (.notRunnable m.status)), m) := by
  have hguard : ∀ {α : Type} (answer : α → Answer) (act : Attempt Machine α),
      reply answer ((ensureRunnable >>= fun _ => act) m) =
        (.error (.of (.notRunnable m.status)), m) := by
    intro α answer act
    rw [ensureRunnable_bind, h]
    rfl
  cases call with
  | load image => cases hcall
  | reset => cases hcall
  | step => exact congrArg some (hguard .pc advance)
  | nextOperand => exact congrArg some (hguard .operand fetchOperand)
  | stepInstruction =>
    unfold serve
    rw [stepInstruction_of_not_runnable h]
    rfl
  | run =>
    unfold serve
    rw [run_of_not_runnable h]
    rfl
  | runFor budget => exact congrArg some (hguard .status (continueFor budget))

theorem served_of_executes {m m' : Machine} {call : Call} {reply : Reply}
    (hcall : call.executes = true) (hrunnable : m.status.isRunnable = true)
    (h : m.serve call = some (reply, m')) : Served m call reply m' := by
  have hexecuted : ∀ {ending : Ending}, EndsIn m ending →
      Machine.reply .status ending = (reply, m') → Served m call reply m' := by
    intro ending hends heq
    have hserved := Served.executed hcall hrunnable hends
    rw [heq] at hserved
    exact hserved
  cases call with
  | load image => cases hcall
  | reset => cases hcall
  | step =>
    have hadvances := reply_of_leaves leaves_advance .pc m
    have hact : step m = advance m := (ensureRunnable_bind advance m).trans (if_pos hrunnable)
    rw [← hact, Option.some.inj h] at hadvances
    exact .advanced (.inl rfl) hrunnable hadvances
  | nextOperand =>
    have hadvances := reply_of_leaves leaves_fetchOperand .operand m
    have hact : nextOperand m = fetchOperand m :=
      (ensureRunnable_bind fetchOperand m).trans (if_pos hrunnable)
    rw [← hact, Option.some.inj h] at hadvances
    exact .advanced (.inr rfl) hrunnable hadvances
  | stepInstruction =>
    exact hexecuted (endsIn_stepInstruction hrunnable) (Option.some.inj h)
  | run =>
    obtain ⟨ending, hrun, heq⟩ := Option.map_eq_some_iff.mp h
    exact hexecuted (endsIn_run hrun hrunnable) heq
  | runFor budget =>
    have hact : runFor budget m = continueFor budget m :=
      (ensureRunnable_bind (continueFor budget) m).trans (if_pos hrunnable)
    refine hexecuted (endsIn_continueFor budget hrunnable) ?_
    rw [← hact]
    exact Option.some.inj h

/-- A call does one of the things listed. -/
theorem served_of_serve {m m' : Machine} {call : Call} {reply : Reply}
    (hsize : m.cpu.layout.size ≤ 65535) (h : m.serve call = some (reply, m')) :
    Served m call reply m' := by
  cases hcall : call.executes with
  | true =>
    cases hrunnable : m.status.isRunnable with
    | true => exact served_of_executes hcall hrunnable h
    | false =>
      rw [serve_of_not_runnable hcall hrunnable] at h
      cases h
      exact .stopped hcall hrunnable
  | false =>
    cases call with
    | load image =>
      have hload : Machine.reply (fun _ => .done) (load image m) = (reply, m') :=
        Option.some.inj h
      rw [load_eq hsize image] at hload
      cases hrefusal : m.refusal? image with
      | some cause =>
        rw [hrefusal] at hload
        cases hload
        exact .refused hrefusal
      | none =>
        rw [hrefusal] at hload
        cases hload
        exact .loaded hrefusal
    | reset =>
      cases h
      exact .reset
    | _ => cases hcall

/-! ## What no call changes -/

/-- What every call does: the configuration and the observer stay, and the processor goes through
some moves. -/
structure Kept (m m' : Machine) : Prop where
  config : m'.config = m.config
  cpu : m.cpu.Evolves m'.cpu
  isObserved : m'.observed.isSome = m.observed.isSome

instance : IsPreorder Machine Kept where
  refl _ := ⟨rfl, .refl, rfl⟩
  trans _ _ _ h h' :=
    ⟨h'.config.trans h.config, h.cpu.trans h'.cpu, h'.isObserved.trans h.isObserved⟩

theorem kept_loaded (m : Machine) (image : Image) : Kept m (m.loaded image) := by
  have hcleared : m.cpu.Evolves m.cpu.reset := Cpu.Move.reset.evolves
  have hfilled : m.cpu.Evolves
      { m.cpu.reset with memory := m.cpu.memory.clear.replace 0 image.memory } :=
    hcleared.tail (.memory rfl)
  have hstack := hfilled.trans (Cpu.evolves_initStack _)
  exact ⟨rfl, hstack.trans (Cpu.evolves_setSlot _ (r := .pc) (by decide) image.entry), rfl⟩

theorem kept_stepInstruction : Leaves Kept Kept stepInstruction := by
  constructor
  · intro m m' status h
    obtain ⟨-, hproceeds, -⟩ := proceeds_of_stepInstruction h
    exact ⟨hproceeds.config, hproceeds.cpu, hproceeds.isObserved⟩
  · intro m m' e h
    cases hrunnable : m.status.isRunnable with
    | false =>
      rw [stepInstruction_of_not_runnable hrunnable] at h
      cases h
      exact refl_of Kept m
    | true =>
      obtain ⟨m₁, -, hproceeds, rfl⟩ := fault_of_stepInstruction hrunnable h
      exact ⟨hproceeds.config, hproceeds.cpu, hproceeds.isObserved⟩

theorem RunsTo.kept {m m' : Machine} (h : RunsTo m m') : Kept m m' := by
  induction h with
  | refl => exact refl_of Kept m
  | tail _ hstep ih => exact trans_of Kept ih (kept_stepInstruction.ok hstep)

theorem EndsIn.kept {m : Machine} {ending : Ending} (h : EndsIn m ending) :
    Kept m (reply .status ending).2 := by
  cases h with
  | running hruns => exact hruns.kept
  | halted hruns _ hlast => exact trans_of Kept hruns.kept (kept_stepInstruction.ok hlast)
  | faulted hruns _ hlast => exact trans_of Kept hruns.kept (kept_stepInstruction.error hlast)

theorem Served.kept {m m' : Machine} {call : Call} {reply : Reply}
    (h : Served m call reply m') : Kept m m' := by
  cases h with
  | stopped => exact refl_of Kept m
  | refused => exact refl_of Kept m
  | loaded => exact kept_loaded m _
  | advanced _ _ h => exact ⟨h.proceeds.config, h.proceeds.cpu, h.proceeds.isObserved⟩
  | executed _ _ h => exact h.kept
  | reset => exact ⟨rfl, Cpu.Move.reset.evolves, rfl⟩

/-! ## What holds of all machines -/

/-- What a machine was built from is on it. -/
structure BuiltFrom (config : Config) (m : Machine) : Prop where
  layout : config.layout = .ok m.cpu.layout
  allowPcWrite : m.cpu.allowPcWrite = config.allowPcWrite
  config : m.config = config

namespace BuiltFrom

variable {config : Config} {m m' : Machine}

theorem size_le (h : BuiltFrom config m) : m.cpu.layout.size ≤ 65535 :=
  (Config.size_of_layout h.layout).2.2

theorem of_kept (h : BuiltFrom config m) (hkept : Kept m m') : BuiltFrom config m' := by
  obtain ⟨hlayout, hallow⟩ := hkept.cpu.keeps
  exact ⟨h.layout.trans (congrArg Except.ok hlayout.symm), hallow.trans h.allowPcWrite,
    hkept.config.trans h.config⟩

end BuiltFrom

namespace Reachable

variable {config : Config} {m m' : Machine}

theorem builtFrom (h : Reachable config m) : BuiltFrom config m := by
  induction h with
  | build h | observe h =>
    obtain ⟨layout, hlayout, rfl⟩ := build_eq_ok_iff.mp h
    exact ⟨hlayout, rfl, rfl⟩
  | serve _ hserve ih => exact ih.of_kept (served_of_serve ih.size_le hserve).kept

/-- What a call does to a reachable machine. -/
theorem served (h : Reachable config m) {call : Call} {reply : Reply}
    (hserve : m.serve call = some (reply, m')) : Served m call reply m' :=
  served_of_serve h.builtFrom.size_le hserve

end Reachable

/-- A machine with the least memory. -/
def smallest : Machine where
  config := { memorySize := 16 }
  bench :=
    { cpu := Cpu.powerOn ⟨16, 8, 12⟩ false
      console := {}
      storage := .table {} }

theorem reachable_smallest : Reachable smallest.config smallest := by
  have hbuild : build smallest.config {} (.table {}) = .ok smallest := rfl
  exact .build hbuild

end Machine

end TeachingCpu
