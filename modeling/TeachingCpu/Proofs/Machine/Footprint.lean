import TeachingCpu.Proofs.Cpu.Footprint
import TeachingCpu.Proofs.Machine.Steps

/-!
# What an instruction leaves alone

An instruction that completes, is no interrupt and does not bring up the debugger counts `pc` up by
its length and stays within its footprint. Beside the processor it shows log lines at most
(`framed_stepInstruction`).
-/

namespace TeachingCpu

open Attempt

namespace Instruction

/-- The fetch has no influence on the footprint. -/
theorem footprint_setPc (i : Instruction) (cpu : Cpu) (pc : UInt16) :
    i.footprint (cpu.setPc pc) = i.footprint cpu := by
  have hpush : (cpu.setPc pc).pushFootprint = cpu.pushFootprint := by
    unfold Cpu.pushFootprint Cpu.setPc
    rw [Cpu.reg_setSlot_of_ne _ (by decide)]
  obtain ⟨opcode, operands⟩ := i
  cases opcode with
  | push => exact hpush
  | call =>
    exact congrArg (fun f : Cpu.Footprint => { f with calls := true, movesPc := true }) hpush
  | _ => rfl

end Instruction

namespace Machine

variable {m m' m₁ : Machine} {i : Instruction}

/-- Behind the fetch, `pc` is the address after the instruction. -/
theorem toNat_pc_of_next? (h : m.next? = some (i, m₁)) :
    m₁.cpu.pc.toNat = m.cpu.pc.toNat + i.toBytes.length := by
  rw [(complete_of_next? h).length_toBytes]
  obtain ⟨m₂, hfetch, rfl⟩ := fetchNext_eq_ok.mp (next?_eq_some_iff.mp h).2
  exact (counts_fetchInstruction hfetch).toNat_pc

/-! ## Beside the processor -/

/-- Files and program stay, and on the console there are at most new log lines. -/
structure Undisturbed (m m' : Machine) : Prop where
  console : m.bench.console.Logged m'.bench.console
  storage : m'.bench.storage = m.bench.storage
  rom : m'.rom = m.rom

instance : IsPreorder Machine Undisturbed where
  refl _ := ⟨refl_of Console.Logged _, rfl, rfl⟩
  trans _ _ _ h h' := ⟨trans_of Console.Logged h.console h'.console, h'.storage.trans h.storage,
    h'.rom.trans h.rom⟩

theorem undisturbed_log (m : Machine) (level : LogLevel) (text : Unit → String) :
    Undisturbed m (m.log level text) :=
  ⟨Console.logged_log _ level topic text, rfl, rfl⟩

theorem undisturbed_of_next? (h : m.next? = some (i, m₁)) : Undisturbed m m₁ := by
  obtain ⟨m₂, hfetch, rfl⟩ := fetchNext_eq_ok.mp (next?_eq_some_iff.mp h).2
  obtain ⟨pc, observed, -, rfl⟩ := leaves_fetchInstruction.ok hfetch
  refine trans_of Undisturbed ?_ (undisturbed_log _ .trace _)
  exact ⟨refl_of Console.Logged _, rfl, rfl⟩

/-- An instruction other than an interrupt works on the processor. -/
theorem undisturbed_of_perform (hint : i.opcode ≠ .int) (h : perform i m = .ok () m') :
    Undisturbed m m' := by
  rcases perform_eq hint with hhalt | hcpu
  · rw [hhalt] at h
    cases h
    have hstopped : Undisturbed m { m with status := .halted } :=
      ⟨refl_of Console.Logged _, rfl, rfl⟩
    exact trans_of Undisturbed hstopped (undisturbed_log _ .info _)
  · rw [hcpu] at h
    obtain ⟨bench, hbench, rfl⟩ := onPart_eq_ok.mp h
    obtain ⟨cpu, -, rfl⟩ := onPart_eq_ok.mp hbench
    exact ⟨refl_of Console.Logged _, rfl, rfl⟩

/-- Where the debugger was not open, nothing happens behind the instruction. -/
theorem eq_of_breakIfWanted (h : breakIfWanted m = .ok () m') (hdebugged : m'.debugged = false) :
    m' = m := by
  unfold breakIfWanted at h
  rw [get_bind_apply] at h
  split at h
  · rw [modify_bind_apply] at h
    cases hanswer : debuggerAnswer? { m with breakPending := false } with
    | none =>
      obtain ⟨e, m₁, hopen, -⟩ := openDebugger_of_no_answer hanswer
      rw [hopen] at h
      cases h
    | some resume =>
      obtain ⟨m₁, hopen, -, hopened, -⟩ := openDebugger_of_answer hanswer
      rw [hopen] at h
      cases h
      rw [hopened] at hdebugged
      cases hdebugged
  · cases h
    rfl

/-! ## The whole instruction -/

/-- An instruction changes nothing outside of its footprint, and of `pc` no more than that it is
the address after the instruction unless the instruction goes elsewhere. -/
structure Framed (i : Instruction) (m m' : Machine) : Prop where
  registers : ∀ r ∉ (i.footprint m.cpu).registers, r ≠ .pc → m'.cpu.reg r = m.cpu.reg r
  pc : (i.footprint m.cpu).movesPc = false →
    m'.cpu.pc.toNat = m.cpu.pc.toNat + i.toBytes.length
  flags : ∀ flag ∉ (i.footprint m.cpu).flags, m'.cpu.flags.get flag = m.cpu.flags.get flag
  memory : ∀ address, address < (i.footprint m.cpu).start ∨
      (i.footprint m.cpu).start + (i.footprint m.cpu).length ≤ address →
    m'.cpu.memory.byteAt address = m.cpu.memory.byteAt address
  calls : (i.footprint m.cpu).calls = false → m'.cpu.calls = m.cpu.calls
  layout : m'.cpu.layout = m.cpu.layout
  beside : Undisturbed m m'

/-- An instruction that completes, is no interrupt and does not bring up the debugger changes
nothing outside of its footprint. The flag for files that were not found is in none. -/
theorem framed_stepInstruction {status : Status} (hnext : m.next? = some (i, m₁))
    (hint : i.opcode ≠ .int) (h : stepInstruction m = .ok status m')
    (hdebugged : m'.debugged = false) :
    Framed i m m' ∧ m'.cpu.flags.error = m.cpu.flags.error := by
  rw [stepInstruction_of_next? hnext] at h
  split at h
  · next m'' hact =>
    cases h
    obtain ⟨_, m₂, hperform, hbreak⟩ := bind_eq_ok.mp hact
    obtain rfl := eq_of_breakIfWanted hbreak hdebugged
    obtain ⟨pc, hcpu⟩ := exists_pc_of_next? hnext
    have hbeside := trans_of Undisturbed (undisturbed_of_next? hnext)
      (undisturbed_of_perform hint hperform)
    obtain ⟨hint', -⟩ | hperformed := perform_cases hperform
    · exact absurd hint' hint
    have hconfined := Instruction.confined_perform (complete_of_next? hnext) hperformed
    have hpc := toNat_pc_of_next? hnext
    rw [hcpu] at hconfined hpc
    rw [Instruction.footprint_setPc] at hconfined
    refine ⟨⟨?_, ?_, hconfined.flags, hconfined.memory, hconfined.calls, hconfined.layout,
      hbeside⟩, ?_⟩
    · intro r hr hne
      exact (hconfined.registers r hr hne).trans (Cpu.reg_setSlot_of_ne _ hne.symm _)
    · intro hstays
      rw [hconfined.pc hstays, hpc]
    · exact hconfined.flags .error (i.error_notMem_footprint m.cpu)
  · cases h

/-- A program that stores a number through a pointer to the high byte of the pointer itself:
`mov *0 $7`. -/
def storesIntoPointer : Image where
  rom := [0x02, 0x03, 0x00, 0x04, 0x07]
  memory := [0x01]
  width := .bits16
  entry := 0

/-- The machine before the store. -/
def beforeStore : Machine := (load storesIntoPointer).finalState smallest

/-- The pointer is read before it is written: the store changes the byte that it pointed to. -/
theorem framed_storesIntoPointer :
    ∃ i m₁ m', beforeStore.next? = some (i, m₁) ∧ i.opcode ≠ .int ∧
      stepInstruction beforeStore = .ok .running m' ∧ m'.debugged = false ∧
      m'.cpu.memory.byteAt 1 = 7 ∧
      (∀ address, address < 1 ∨ 2 ≤ address →
        m'.cpu.memory.byteAt address = beforeStore.cpu.memory.byteAt address) ∧
      m'.cpu.pc.toNat = 5 ∧ m'.cpu.reg .sp = beforeStore.cpu.reg .sp := by
  have hnext : beforeStore.next? = some (⟨.mov, [⟨.indirect, 0⟩, ⟨.immediate, 7⟩]⟩,
      fetchNext.finalState beforeStore.starting) := next?_eq_some_iff.mpr ⟨rfl, rfl⟩
  have hint : Opcode.mov ≠ .int := by decide
  have hstep : stepInstruction beforeStore = .ok .running _ := rfl
  obtain ⟨hframed, -⟩ := framed_stepInstruction hnext hint hstep rfl
  exact ⟨_, _, _, hnext, hint, hstep, rfl, rfl, hframed.memory, hframed.pc rfl,
    hframed.registers .sp (by decide) (by decide)⟩

end Machine

end TeachingCpu
