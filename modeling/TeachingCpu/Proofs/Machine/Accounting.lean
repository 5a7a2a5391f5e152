import TeachingCpu.Proofs.Machine.ControlFlow

/-!
# The account of a run

A machine counts the instructions whose bytes it has fetched as a whole, and a cycle for each of
these bytes. Its observer is shown `pc` when a fetch counts it up, and at no other time. So a run is
accounted for by the fetches in it, one for each instruction that is begun (`accounts_of_load`).
-/

namespace TeachingCpu

open Attempt

/-- What becomes of the fetch of an instruction. -/
inductive Fetch where
  /-- All bytes of the instruction at an address were fetched. -/
  | whole (address : Nat) (i : Instruction)
  /-- The fetch from an address failed behind some steps of `pc`. -/
  | cut (address steps : Nat)

namespace Fetch

/-- Whether the instruction was fetched as a whole. -/
def isWhole : Fetch → Bool
  | whole .. => true
  | cut .. => false

/-- The length of the instruction that was fetched, if one was. -/
def length : Fetch → Nat
  | whole _ i => i.toBytes.length
  | cut .. => 0

/-- What an observer sees of the fetch: where `pc` goes, step by step. -/
def seen : Fetch → List Nat
  | whole address i => List.range' (address + 1) i.toBytes.length
  | cut address steps => List.range' (address + 1) steps

end Fetch

namespace Machine

variable {m m' : Machine} {i : Instruction} {n : Nat}

/-! ## Instructions in the code -/

/-- The bytes of an instruction are in the code, from `pc` on. -/
structure Stands (m : Machine) (i : Instruction) : Prop where
  complete : i.Complete
  bytes : i.toBytes <+: m.rom.toList.drop m.cpu.pc.toNat

theorem ahead_of_fetchNextByte {b : UInt8} {rest : List UInt8}
    (h : (advance >>= fetchByte) m = .ok b m') (hrest : m'.Ahead rest) : m.Ahead (b :: rest) := by
  obtain ⟨hcounts, hb⟩ := fetchNextByte_eq_ok.mp h
  unfold Ahead at hrest
  rw [hcounts.rom, hcounts.toNat_pc] at hrest
  exact List.cons_prefix_drop_iff.mpr ⟨Array.getElem?_toList.trans hb, hrest⟩

theorem ahead_of_fetchOperand {o : Operand} {rest : List UInt8}
    (h : fetchOperand m = .ok o m') (hrest : m'.Ahead rest) : m.Ahead (o.toBytes ++ rest) := by
  rw [fetchOperand_eq] at h
  obtain ⟨tag, m₁, htag, h⟩ := bind_eq_ok.mp h
  obtain ⟨value, m₂, hvalue, h⟩ := bind_eq_ok.mp h
  cases hmode : Mode.ofTag? tag with
  | none =>
    simp only [hmode] at h
    cases h
  | some mode =>
    simp only [hmode] at h
    cases h
    obtain rfl := Mode.tag_of_ofTag? hmode
    exact ahead_of_fetchNextByte htag (ahead_of_fetchNextByte hvalue hrest)

theorem ahead_of_fetchOperands {operands : List Operand} (h : fetchOperands n m = .ok operands m') :
    m.Ahead (operands.flatMap Operand.toBytes) := by
  induction n generalizing operands m with
  | zero =>
    cases h
    exact List.nil_prefix
  | succ n ih =>
    obtain ⟨operand, m₁, hfirst, h⟩ := bind_eq_ok.mp h
    obtain ⟨rest, m₂, hrest, h⟩ := bind_eq_ok.mp h
    cases h
    exact ahead_of_fetchOperand hfirst (ih hrest)

/-- In code of at most 65535 bytes an instruction is fetched exactly if it stands there. -/
theorem fetchInstruction_eq_ok_iff_stands (hrom : m.rom.size ≤ 65535) :
    fetchInstruction m = .ok i m' ↔ m.Stands i ∧ m' = m.countUp i.opcode.length := by
  constructor
  · intro h
    refine ⟨?_, (counts_fetchInstruction h).eq⟩
    obtain ⟨hcode, m₁, hoperands, -⟩ := fetchInstruction_eq_ok.mp h
    refine ⟨length_of_fetchOperands hoperands, List.cons_prefix_drop_iff.mpr ⟨?_, ?_⟩⟩
    · exact Array.getElem?_toList.trans hcode
    · exact ahead_of_fetchOperands hoperands
  · rintro ⟨hstands, rfl⟩
    have hbytes := hstands.bytes
    rw [← List.append_nil i.toBytes] at hbytes
    obtain ⟨hfetch, -⟩ := fetchInstruction_of_prefix hstands.complete hrom hbytes
    exact hfetch

/-! ## What counts and what is seen -/

/-- What is kept on a machine of its run. -/
def counters (m : Machine) : Nat × Nat × Option (List UInt16) :=
  (m.instructions, m.cycles, m.observed)

/-- What the observer has seen, the first first. -/
def notified (m : Machine) : Option (List Nat) :=
  m.observed.map fun pcs => pcs.reverse.map UInt16.toNat

theorem instructions_countUp (m : Machine) (n : Nat) :
    (m.countUp n).instructions = m.instructions := by
  obtain ⟨pc, observed, -, heq⟩ := advances_countUp m n
  rw [heq]
  rfl

theorem cycles_countUp (m : Machine) (n : Nat) : (m.countUp n).cycles = m.cycles := by
  obtain ⟨pc, observed, -, heq⟩ := advances_countUp m n
  rw [heq]
  rfl

theorem notified_countUp (h : m.cpu.pc.toNat + n ≤ 65535) :
    (m.countUp n).notified = m.notified.map (· ++ List.range' (m.cpu.pc.toNat + 1) n) := by
  induction n with
  | zero => simp [countUp]
  | succ n ih =>
    have hpc := toNat_pc_countUp h
    have hobserved : (m.countUp (n + 1)).observed =
        (m.countUp n).observed.map ((m.countUp (n + 1)).cpu.pc :: ·) := by
      rw [countUp, pc_atPc]
      rfl
    have hone : (m.countUp (n + 1)).notified =
        (m.countUp n).notified.map (· ++ [m.cpu.pc.toNat + (n + 1)]) := by
      unfold notified
      rw [hobserved, Option.map_map, Option.map_map, ← hpc]
      congr 1
      funext pcs
      simp
    rw [hone, ih (by omega), Option.map_map, List.range'_1_concat]
    congr 1
    funext pcs
    simp only [Function.comp_apply, List.append_assoc]
    rw [Nat.add_assoc, Nat.add_comm 1]

theorem keeps_counters_onBench {α : Type} (act : Attempt Bench α) :
    Keeps counters (onPart Machine.bench (fun bench m => { m with bench }) act) := by
  refine keeps_onPart ?_ act
  intro m bench
  rfl

theorem keeps_counters_openDebugger : Keeps counters openDebugger := by
  refine keeps_bind (keeps_modify fun _ => rfl) fun _ => keeps_bind keeps_get fun m => ?_
  refine keeps_bind (keeps_counters_onBench _) fun resume => ?_
  cases resume with
  | go => exact keeps_pure _
  | step | quit => exact keeps_modify fun _ => rfl

theorem keeps_counters_perform (i : Instruction) : Keeps counters (perform i) := by
  unfold perform
  split
  · exact keeps_modify fun _ => rfl
  · refine keeps_bind (keeps_counters_onBench _) fun outcome => ?_
    cases outcome with
    | handled | invalid => exact keeps_pure _
    | debug => exact keeps_counters_openDebugger
  · exact keeps_counters_onBench _

theorem keeps_counters_breakIfWanted : Keeps counters breakIfWanted := by
  refine keeps_bind keeps_get fun m => ?_
  split
  · exact keeps_bind (keeps_modify fun _ => rfl) fun _ => keeps_counters_openDebugger
  · exact keeps_pure _

/-- Behind the fetch, nothing is counted or shown: not by a jump or a write to `pc`, not by the
debugger, and not by a failure. -/
theorem counters_stepInstruction (hrunnable : m.status.isRunnable = true) :
    (stepInstruction.finalState m).counters = (fetchNext.finalState m.starting).counters := by
  have hrest : ∀ i, Keeps counters (do perform i; breakIfWanted) := fun i =>
    keeps_bind (keeps_counters_perform i) fun _ => keeps_counters_breakIfWanted
  have hexecute := view_finalState_bind hrest (x := fetchNext) m.starting
  rw [← executeNext_eq] at hexecute
  rw [← hexecute]
  unfold finalState
  rw [stepInstruction_of_runnable hrunnable]
  cases executeNext m.starting <;> rfl

/-! ## One instruction -/

/-- The next instruction fails with `pc` counted up some steps. -/
structure FaultsBehind (m : Machine) (steps : Nat) : Prop where
  status : (stepInstruction.finalState m).status = .faulted
  pc : (stepInstruction.finalState m).cpu.pc.toNat = m.cpu.pc.toNat + steps

/-- What becomes of the fetch of the next instruction. -/
inductive Fetches (m : Machine) : Fetch → Prop where
  | whole {i : Instruction} (h : m.Stands i) : Fetches m (.whole m.cpu.pc.toNat i)
  /-- There is an opcode, but no instruction that begins with it. -/
  | cut {opcode : Opcode} {steps : Nat} (hopcode : m.rom[m.cpu.pc.toNat]? = some opcode.code)
    (hnone : ∀ i, ¬ m.Stands i) (hsteps : steps < opcode.length)
    (hfaults : m.FaultsBehind steps) : Fetches m (.cut m.cpu.pc.toNat steps)
  /-- There is no opcode. -/
  | noOpcode (hnone : ∀ opcode : Opcode, m.rom[m.cpu.pc.toNat]? ≠ some opcode.code)
    (hfaults : m.FaultsBehind 0) : Fetches m (.cut m.cpu.pc.toNat 0)

/-- Some fetches are all that was counted and seen from one machine to another. -/
structure Accounts (m m' : Machine) (fetches : List Fetch) : Prop where
  instructions : m'.instructions = m.instructions + fetches.countP Fetch.isWhole
  cycles : m'.cycles = m.cycles + (fetches.map Fetch.length).sum
  notified : m'.notified = m.notified.map (· ++ fetches.flatMap Fetch.seen)

namespace Accounts

theorem nil (m : Machine) : Accounts m m [] := by
  refine ⟨rfl, rfl, ?_⟩
  simp

theorem append {m₁ m₂ m₃ : Machine} {fetches fetches' : List Fetch}
    (h : Accounts m₁ m₂ fetches) (h' : Accounts m₂ m₃ fetches') :
    Accounts m₁ m₃ (fetches ++ fetches') := by
  refine ⟨?_, ?_, ?_⟩
  · rw [h'.instructions, h.instructions, List.countP_append, Nat.add_assoc]
  · rw [h'.cycles, h.cycles, List.map_append, List.sum_append, Nat.add_assoc]
  · rw [h'.notified, h.notified, Option.map_map, List.flatMap_append]
    congr 1
    funext pcs
    simp

end Accounts

theorem accounts_of_counters {fetch : Fetch} {m₁ : Machine} (h : m'.counters = m₁.counters)
    (hinstructions : m₁.instructions = m.instructions + [fetch].countP Fetch.isWhole)
    (hcycles : m₁.cycles = m.cycles + fetch.length)
    (hnotified : m₁.notified = m.notified.map (· ++ fetch.seen)) : Accounts m m' [fetch] := by
  simp only [counters, Prod.mk.injEq] at h
  obtain ⟨hsameInstructions, hsameCycles, hsameObserved⟩ := h
  refine ⟨hsameInstructions.trans hinstructions, ?_, ?_⟩
  · rw [hsameCycles, hcycles, List.map_singleton, List.sum_singleton]
  · unfold notified at hnotified ⊢
    rw [hsameObserved, hnotified, List.flatMap_singleton]

/-- The whole instruction is fetched, counted and seen. -/
theorem accounts_of_stands (hrom : m.rom.size ≤ 65535) (hrunnable : m.status.isRunnable = true)
    (h : m.Stands i) :
    Accounts m (stepInstruction.finalState m) [.whole m.cpu.pc.toNat i] := by
  have hbegun : m.starting.begun.Stands i := ⟨h.complete, h.bytes⟩
  have hfetch := (fetchInstruction_eq_ok_iff_stands (m := m.starting.begun) hrom).mpr ⟨hbegun, rfl⟩
  have hcounts := counts_fetchInstruction hfetch
  have hnext := fetchNext_eq_ok.mpr ⟨_, hfetch, rfl⟩
  have hcounters := counters_stepInstruction hrunnable
  rw [finalState_of_ok hnext] at hcounters
  refine accounts_of_counters hcounters ?_ ?_ ?_
  · exact congrArg (· + 1) (instructions_countUp m.starting.begun _)
  · rw [Fetch.length, h.complete.length_toBytes]
    exact congrArg (· + i.opcode.length) (cycles_countUp m.starting.begun _)
  · rw [Fetch.seen, h.complete.length_toBytes]
    exact notified_countUp hcounts.inside

/-- A fetch that fails stops the machine. Its steps are seen, and nothing is counted. -/
theorem accounts_of_fetchInstruction_error {e : Error} {steps : Nat}
    (hrunnable : m.status.isRunnable = true)
    (hfetch : fetchInstruction m.starting.begun = .error e m')
    (hcounts : Counts steps m.starting.begun m') :
    m.FaultsBehind steps ∧
      Accounts m (stepInstruction.finalState m) [.cut m.cpu.pc.toNat steps] := by
  have hnext := fetchNext_eq_error.mpr hfetch
  have hstep := finalState_of_error (stepInstruction_of_fetchNext_error hrunnable hnext)
  have hcounters := counters_stepInstruction hrunnable
  rw [finalState_of_error hnext, hcounts.eq] at hcounters
  refine ⟨⟨?_, ?_⟩, accounts_of_counters hcounters ?_ ?_ ?_⟩
  · rw [hstep]
    rfl
  · rw [hstep]
    exact hcounts.toNat_pc
  · exact instructions_countUp m.starting.begun steps
  · exact cycles_countUp m.starting.begun steps
  · exact notified_countUp hcounts.inside

/-- An instruction is accounted for by its fetch. -/
theorem accounts_stepInstruction (hrom : m.rom.size ≤ 65535)
    (hrunnable : m.status.isRunnable = true) :
    ∃ fetch, Fetches m fetch ∧ Accounts m (stepInstruction.finalState m) [fetch] := by
  have hbegun : ∀ {i m'}, fetchInstruction m.starting.begun = .ok i m' ↔
      m.starting.begun.Stands i ∧ m' = m.starting.begun.countUp i.opcode.length :=
    fetchInstruction_eq_ok_iff_stands hrom
  cases hfetch : fetchInstruction m.starting.begun with
  | ok i m' =>
    obtain ⟨⟨hcomplete, hbytes⟩, -⟩ := hbegun.mp hfetch
    have hstands : m.Stands i := ⟨hcomplete, hbytes⟩
    exact ⟨_, .whole hstands, accounts_of_stands hrom hrunnable hstands⟩
  | error e m' =>
    have hnone : ∀ i, ¬ m.Stands i := by
      intro i hstands
      have hok := hbegun.mpr ⟨⟨hstands.complete, hstands.bytes⟩, rfl⟩
      rw [hfetch] at hok
      cases hok
    rcases fetchInstruction_error hfetch with ⟨opcode, hopcode, steps, hsteps, hcounts⟩ | ⟨hno, hm'⟩
    · obtain ⟨hfaults, haccounts⟩ := accounts_of_fetchInstruction_error hrunnable hfetch hcounts
      exact ⟨_, .cut hopcode hnone hsteps hfaults, haccounts⟩
    · subst hm'
      obtain ⟨hfaults, haccounts⟩ :=
        accounts_of_fetchInstruction_error hrunnable hfetch (counts_zero _)
      exact ⟨_, .noOpcode hno hfaults, haccounts⟩

/-! ## Runs -/

/-- The machines on which the first `n` instructions of a run begin, fewer if the program stops
before. -/
def begins (m : Machine) (n : Nat) : List Machine :=
  ((List.range n).map m.after).filter (·.status.isRunnable)

theorem begins_succ (m : Machine) (n : Nat) :
    m.begins (n + 1) =
      m.begins n ++ if (m.after n).status.isRunnable then [m.after n] else [] := by
  unfold begins
  rw [List.range_succ, List.map_append, List.filter_append, List.map_singleton,
    List.filter_singleton, Bool.cond_eq_ite]

theorem rom_after (m : Machine) (n : Nat) : (m.after n).rom = m.rom := by
  induction n with
  | zero => rfl
  | succ n ih => rw [after_succ, rom_stepInstruction, ih]

/-- A run is accounted for by the fetches of the instructions that it begins. -/
theorem accounts_after (hrom : m.rom.size ≤ 65535) (n : Nat) :
    ∃ fetches, List.Forall₂ Fetches (m.begins n) fetches ∧ Accounts m (m.after n) fetches := by
  induction n with
  | zero => exact ⟨[], .nil, .nil m⟩
  | succ n ih =>
    obtain ⟨fetches, hfetches, haccounts⟩ := ih
    rw [begins_succ, after_succ]
    cases hrunnable : (m.after n).status.isRunnable with
    | false =>
      rw [finalState_of_error (stepInstruction_of_not_runnable hrunnable)]
      refine ⟨fetches, ?_, haccounts⟩
      simpa using hfetches
    | true =>
      rw [← rom_after m n] at hrom
      obtain ⟨fetch, hfetch, hone⟩ := accounts_stepInstruction hrom hrunnable
      exact ⟨fetches ++ [fetch], List.rel_append hfetches (.cons hfetch .nil),
        haccounts.append hone⟩

/-- A program of at most 65535 bytes is loaded, and it is let run by whatever calls. They lead to
the machines behind so many instructions. On each of these all that is counted and seen since the
program was loaded comes from the fetches of the instructions that were begun: the instructions
that were fetched as a whole, their lengths, and the steps that `pc` took in the fetches. -/
theorem accounts_of_load {config : Config} {m₀ : Machine} {image : Image}
    (hm₀ : Reachable config m₀) (hload : load image m₀ = .ok () m)
    (hrom : image.rom.length ≤ 65535) :
    (∀ calls replies m', (∀ call ∈ calls, call.runs = true) →
        m.serveAll calls = some (replies, m') → ∃ n, m' = m.after n) ∧
      ∀ n, ∃ fetches, List.Forall₂ Fetches (m.begins n) fetches ∧
        (m.after n).instructions = fetches.countP Fetch.isWhole ∧
        (m.after n).cycles = (fetches.map Fetch.length).sum ∧
        (m.after n).notified = m.notified.map (· ++ fetches.flatMap Fetch.seen) := by
  obtain rfl : m = m₀.loaded image := eq_loaded_of_load hm₀.builtFrom.size_le hload
  refine ⟨fun calls replies m' hcalls hserve => exists_after_of_serveAll hcalls hserve, ?_⟩
  intro n
  obtain ⟨fetches, hfetches, haccounts⟩ := accounts_after (m := m₀.loaded image) hrom n
  have hinstructions : (m₀.loaded image).instructions = 0 := rfl
  have hcycles : (m₀.loaded image).cycles = 0 := rfl
  have hall := haccounts.instructions
  have hsum := haccounts.cycles
  rw [hinstructions, Nat.zero_add] at hall
  rw [hcycles, Nat.zero_add] at hsum
  exact ⟨fetches, hfetches, hall, hsum, haccounts.notified⟩

/-- A program whose second instruction has an unknown tag and no value: `mov %al $3` and the
beginning of a `push`. -/
def cutPush : Image where
  rom := [0x02, 0x01, 0x00, 0x04, 0x03, 0x1c, 0x09]
  memory := []
  width := .bits16
  entry := 0

/-- Seven steps are seen of the two instructions, and one of them is counted. -/
theorem accounts_of_load_cutPush :
    ∃ m, Reachable smallest.config smallest.observe ∧
      load cutPush smallest.observe = .ok () m ∧ cutPush.rom.length ≤ 65535 ∧
      (∃ fetches, List.Forall₂ Fetches (m.begins 2) fetches ∧
        (m.after 2).notified = m.notified.map (· ++ fetches.flatMap Fetch.seen)) ∧
      (m.after 2).instructions = 1 ∧ (m.after 2).cycles = 5 ∧
      (m.after 2).notified = some [1, 2, 3, 4, 5, 6, 7] := by
  have hbuild : build smallest.config {} (.table {}) = .ok smallest := rfl
  have hreachable : Reachable smallest.config smallest.observe := .observe hbuild
  have hload : load cutPush smallest.observe = .ok () (smallest.observe.loaded cutPush) :=
    load_eq (by decide) cutPush
  have hrom : cutPush.rom.length ≤ 65535 := by decide
  obtain ⟨-, haccounts⟩ := accounts_of_load hreachable hload hrom
  obtain ⟨fetches, hfetches, -, -, hnotified⟩ := haccounts 2
  exact ⟨_, hreachable, hload, hrom, ⟨fetches, hfetches, hnotified⟩, by decide +kernel,
    by decide +kernel, by decide +kernel⟩

end Machine

end TeachingCpu
