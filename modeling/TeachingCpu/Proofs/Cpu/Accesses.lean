import TeachingCpu.Proofs.Cpu.Evolution
import TeachingCpu.Proofs.Memory.Cells

/-!
# Accesses to memory

An access reads the memory of a processor or changes it. `Access.onCells` says what it does on a
plain row of cells: which places it needs, what it answers, and which cells it replaces. On a
processor it has the same answer and leaves the same cells, or it is refused, where a place is
missing, and changes nothing (`agrees_act`). So no sequence of accesses tells a memory from a row of
cells (`sameAnswers_onCells`).
-/

namespace TeachingCpu

open Attempt

/-- The accesses to a memory. -/
inductive Access where
  | readByte (address : Nat)
  | writeByte (address : Nat) (value : UInt8)
  | readWord (address : Nat)
  | writeWord (address : Nat) (value : UInt16)
  | readString (address : Nat)
  | writeString (address : Nat) (bytes : List UInt8)
  | load (address : Nat) (bytes : List UInt8)
  | slice (address length : Nat)
  | image
  | clear
deriving DecidableEq, Repr

namespace Access

/-- What an access gives back. -/
inductive Answer where
  | byte (value : UInt8)
  | word (value : UInt16)
  | bytes (bytes : List UInt8)
  /-- Where the zero behind a string was stored. -/
  | terminator (address : Nat)
  | done
deriving DecidableEq, Repr

/-- An access to the memory of a processor. -/
def act : Access → Attempt Cpu Answer
  | readByte address => do return .byte (← Cpu.readMemory (·.readByte address))
  | writeByte address value => do
    Cpu.writeMemory (·.writeByte address value)
    return .done
  | readWord address => do return .word (← Cpu.readMemory (·.readWord address))
  | writeWord address value => do
    Cpu.writeMemory (·.writeWord address value)
    return .done
  | readString address => do return .bytes (← Cpu.readMemory (·.readString address))
  | writeString address bytes => do return .terminator (← Cpu.storeString address bytes)
  | load address bytes => do
    Cpu.writeMemory (·.load address bytes)
    return .done
  | slice address length => do return .bytes (← Cpu.readMemory (·.slice address length))
  | image => do return .bytes (← get).memory.image
  | clear => do
    modify fun cpu => { cpu with memory := cpu.memory.clear }
    return .done

/-- The answers to accesses that are made one after the other. -/
def answers : List Access → Cpu → List (Except Error Answer)
  | [], _ => []
  | access :: rest, cpu => access.act.outcome cpu :: answers rest (access.act.finalState cpu)

/-- The processor behind accesses that are made one after the other. -/
def after (accesses : List Access) (cpu : Cpu) : Cpu :=
  accesses.foldl (fun cpu access => access.act.finalState cpu) cpu

/-! ## Rows of cells -/

/-- What an access answers on a row of cells, and the row behind it. There is nothing if a place is
missing, or the zero behind a string. -/
def onCells (cells : List UInt8) : Access → Option (Answer × List UInt8)
  | readByte address =>
    if address < cells.length then some (.byte (cells.getD address 0), cells) else none
  | writeByte address value =>
    if address < cells.length then some (.done, cells.set address value) else none
  | readWord address =>
    if address + 1 < cells.length then
      let value := (cells.getD address 0).toNat + 256 * (cells.getD (address + 1) 0).toNat
      some (.word (.ofNat value), cells)
    else none
  | writeWord address value =>
    if address + 1 < cells.length then
      let low := UInt8.ofNat (value.toNat % 256)
      let high := UInt8.ofNat (value.toNat / 256)
      some (.done, (cells.set address low).set (address + 1) high)
    else none
  | readString address =>
    if 0 ∈ cells.drop address then
      some (.bytes ((cells.drop address).takeWhile (· != 0)), cells)
    else none
  | writeString address bytes =>
    if address + bytes.length < cells.length then
      some (.terminator (address + bytes.length), overlay cells address (bytes ++ [0]))
    else none
  | load address bytes =>
    if bytes.length = 0 ∨ address + bytes.length ≤ cells.length then
      some (.done, overlay cells address bytes)
    else none
  | slice address length =>
    if length = 0 ∨ address + length ≤ cells.length then
      some (.bytes ((cells.drop address).take length), cells)
    else none
  | image => some (.bytes (cells.rdropWhile (· == 0)), cells)
  | clear => some (.done, List.replicate cells.length 0)

/-- The row behind an access. One that is refused changes nothing. -/
def cellsBehind (cells : List UInt8) (access : Access) : List UInt8 :=
  ((access.onCells cells).map Prod.snd).getD cells

/-- The answers to accesses to a row, `none` for those that are refused. -/
def answersOnCells : List Access → List UInt8 → List (Option Answer)
  | [], _ => []
  | access :: rest, cells =>
    (access.onCells cells).map Prod.fst :: answersOnCells rest (cellsBehind cells access)

/-- An access to a memory and one to a row have the same answer, or both are refused. -/
inductive SameAnswer : Except Error Answer → Option Answer → Prop where
  | answered (answer : Answer) : SameAnswer (.ok answer) (some answer)
  | refused {e : Error} (h : e.kind = .invalidMemoryAddress) : SameAnswer (.error e) none

/-- The memory has certain bytes in the end, and nothing else of the processor was changed. -/
structure Refilled (cpu : Cpu) (cells : List UInt8) (cpu' : Cpu) : Prop where
  layout : cpu'.layout = cpu.layout
  cells : cpu'.memory.toList = cells
  others : cpu' = { cpu with memory := cpu'.memory }

theorem Refilled.trans {s t u : Cpu} {cells cells' : List UInt8} (h : Refilled s cells t)
    (h' : Refilled t cells' u) : Refilled s cells' u where
  layout := h'.layout.trans h.layout
  cells := h'.cells
  others := by rw [h'.others, h.others]

/-! ## One access -/

variable {cpu : Cpu}

/-- What becomes of an access to the memory of a processor is what becomes of it on a row. -/
inductive Agrees (cpu : Cpu) :
    EStateM.Result Error Cpu Answer → Option (Answer × List UInt8) → Prop where
  | answered (answer : Answer) {memory : Memory} (h : memory.layout = cpu.layout) :
    Agrees cpu (.ok answer { cpu with memory }) (some (answer, memory.toList))
  | refused {e : Error} (h : e.kind = .invalidMemoryAddress) : Agrees cpu (.error e cpu) none

theorem agrees_read {α : Type} {read : Memory → Except Error α} {answer : α → Answer} {a : α}
    {p : Prop} [Decidable p] (hok : ∀ b, read cpu.memory = .ok b ↔ p ∧ b = a)
    (hrefuses : Refuses (·.kind = .invalidMemoryAddress) (read cpu.memory)) :
    Agrees cpu ((do return answer (← Cpu.readMemory read)) cpu)
      (if p then some (answer a, cpu.memory.toList) else none) := by
  by_cases hp : p
  · have hread : Cpu.readMemory read cpu = .ok a cpu :=
      Cpu.readMemory_eq_ok_iff.mpr ⟨(hok a).mpr ⟨hp, rfl⟩, rfl⟩
    rw [if_pos hp, bind_of_ok hread]
    exact .answered _ rfl
  · obtain ⟨e, hread, he⟩ := hrefuses.exists_error fun b hb => hp ((hok b).mp hb).1
    rw [if_neg hp, bind_of_error (Cpu.readMemory_of_error hread)]
    exact .refused he

theorem agrees_write (address : Nat) (bytes : List UInt8) {write : Memory → Except Error Memory}
    {answer : Answer} {cells : List UInt8} {p : Prop} [Decidable p]
    (hok : ∀ m', write cpu.memory = .ok m' ↔ p ∧ m' = cpu.memory.replace address bytes)
    (hcells : p → (cpu.memory.replace address bytes).toList = cells)
    (hrefuses : Refuses (·.kind = .invalidMemoryAddress) (write cpu.memory)) :
    Agrees cpu ((do Cpu.writeMemory write; return answer) cpu)
      (if p then some (answer, cells) else none) := by
  by_cases hp : p
  · have hwrite := (hok (cpu.memory.replace address bytes)).mpr ⟨hp, rfl⟩
    rw [if_pos hp, ← hcells hp, bind_of_ok (Cpu.writeMemory_eq_ok_iff.mpr ⟨_, hwrite, rfl⟩)]
    exact .answered _ rfl
  · obtain ⟨e, hwrite, he⟩ := hrefuses.exists_error fun m' hm' => hp ((hok m').mp hm').1
    rw [if_neg hp, bind_of_error (Cpu.writeMemory_of_error hwrite)]
    exact .refused he

theorem wordAt_eq_ofNat (m : Memory) (address : Nat) :
    m.wordAt address =
      .ofNat ((m.toList.getD address 0).toNat + 256 * (m.toList.getD (address + 1) 0).toNat) := by
  rw [m.getD_toList, m.getD_toList, Memory.wordAt, ← UInt16.toNat_inj]
  simp [UInt16.toNat_add, UInt16.toNat_mul]

theorem wordBytes_eq (value : UInt16) :
    Memory.wordBytes value = [.ofNat (value.toNat % 256), .ofNat (value.toNat / 256)] := by
  rw [Memory.wordBytes]
  congr 1
  · rw [← UInt8.toNat_inj]
    simp
  · congr 1
    rw [← UInt8.toNat_inj]
    simp [Nat.shiftRight_eq_div_pow]

section Sized

variable (hmin : 0 < cpu.layout.size) (hmax : cpu.layout.size ≤ 65535)

include hmin hmax

/-- An access does to the memory of a processor what it does to the row of its bytes. -/
theorem agrees_act (access : Access) :
    Agrees cpu (access.act cpu) (access.onCells cpu.memory.toList) := by
  have hlength := cpu.memory.length_toList
  cases access with
  | readByte address =>
    simp only [onCells, Memory.getD_toList, hlength]
    exact agrees_read (fun b => Memory.readByte_eq_ok_iff hmin hmax) (Memory.refuses_readByte _ _)
  | writeByte address value =>
    simp only [onCells, hlength]
    refine agrees_write address [value] (fun m' => Memory.writeByte_eq_ok_iff hmin hmax)
      (fun hin => ?_) (Memory.refuses_writeByte _ _ _)
    rw [Memory.toList_replace hmin hmax ((Memory.inRange_iff hmin hmax).mpr (.inr hin)),
      overlay_singleton (by rwa [hlength])]
  | readWord address =>
    simp only [onCells, hlength]
    refine agrees_read (fun b => ?_) (Memory.refuses_readWord _ _)
    rw [Memory.readWord_eq_ok_iff hmin hmax, wordAt_eq_ofNat]
  | writeWord address value =>
    simp only [onCells, hlength]
    refine agrees_write address (Memory.wordBytes value) (fun m' => ?_) (fun hin => ?_)
      (Memory.refuses_writeWord _ _ _)
    · exact Memory.writeWord_eq_ok_iff hmin hmax
    · rw [Memory.toList_replace hmin hmax ((Memory.inRange_iff hmin hmax).mpr (.inr hin)),
        wordBytes_eq, overlay_pair (by rwa [hlength])]
  | readString address =>
    simp only [onCells]
    refine agrees_read (fun b => ?_) (Memory.refuses_readStringFrom _ _ _)
    rw [Memory.readString_eq_ok_iff, Memory.holdsString_iff hmin hmax]
  | writeString address bytes =>
    simp only [onCells, hlength, act, Cpu.storeString_eq, bind_assoc, pure_bind]
    refine agrees_write address (bytes ++ [0]) (fun m' => ?_) (fun hin => ?_)
      (Memory.refuses_writeString _ _ _)
    · rw [Memory.writeString_eq_ok_iff, Memory.le_lastAddressable_iff hmin hmax]
    · refine Memory.toList_replace hmin hmax ((Memory.inRange_iff hmin hmax).mpr (.inr ?_))
      rw [List.length_append, List.length_singleton]
      exact hin
  | load address bytes =>
    simp only [onCells, hlength]
    refine agrees_write address bytes (fun m' => ?_) (fun hin => ?_) (Memory.refuses_load _ _ _)
    · rw [Memory.load_eq_ok_iff, Memory.inRange_iff hmin hmax]
    · exact Memory.toList_replace hmin hmax ((Memory.inRange_iff hmin hmax).mpr hin)
  | slice address length =>
    simp only [onCells, hlength]
    refine agrees_read (fun b => ?_) (Memory.refuses_slice _ _ _)
    rw [Memory.slice_eq_ok_iff, Memory.inRange_iff hmin hmax]
    refine and_congr_right fun hin => ?_
    rcases hin with rfl | hin
    · rfl
    · rw [Memory.bytesAt_eq_take hin]
  | image => exact .answered _ rfl
  | clear =>
    rw [onCells, ← Memory.toList_clear]
    exact .answered _ rfl

theorem sameAnswer_act (access : Access) :
    SameAnswer (access.act.outcome cpu) ((access.onCells cpu.memory.toList).map Prod.fst) := by
  have hagrees := agrees_act hmin hmax access
  unfold outcome
  generalize access.act cpu = result at hagrees ⊢
  generalize access.onCells cpu.memory.toList = reply at hagrees ⊢
  cases hagrees with
  | answered answer _ => exact .answered answer
  | refused h => exact .refused h

theorem refilled_act (access : Access) :
    Refilled cpu (cellsBehind cpu.memory.toList access) (access.act.finalState cpu) := by
  have hagrees := agrees_act hmin hmax access
  unfold finalState cellsBehind
  generalize access.act cpu = result at hagrees ⊢
  generalize access.onCells cpu.memory.toList = reply at hagrees ⊢
  cases hagrees with
  | answered answer h => exact ⟨h, rfl, rfl⟩
  | refused h => exact ⟨rfl, rfl, rfl⟩

/-! ## Accesses one after the other -/

theorem sameAnswers (accesses : List Access) :
    List.Forall₂ SameAnswer (answers accesses cpu)
      (answersOnCells accesses cpu.memory.toList) := by
  induction accesses generalizing cpu with
  | nil => exact .nil
  | cons access rest ih =>
    have hbehind := refilled_act hmin hmax access
    have hrest := ih (hbehind.layout.symm ▸ hmin) (hbehind.layout.symm ▸ hmax)
    rw [hbehind.cells] at hrest
    exact .cons (sameAnswer_act hmin hmax access) hrest

theorem refilled_after (accesses : List Access) :
    Refilled cpu (accesses.foldl cellsBehind cpu.memory.toList) (after accesses cpu) := by
  induction accesses generalizing cpu with
  | nil => exact ⟨rfl, rfl, rfl⟩
  | cons access rest ih =>
    have hbehind := refilled_act hmin hmax access
    have hrest := ih (hbehind.layout.symm ▸ hmin) (hbehind.layout.symm ▸ hmax)
    rw [hbehind.cells] at hrest
    exact hbehind.trans hrest

/-- The image of a memory restores it once it is cleared. -/
theorem load_image_behind_clear :
    answers [clear, load 0 cpu.memory.image] cpu = [.ok .done, .ok .done] ∧
      after [clear, load 0 cpu.memory.image] cpu = cpu := by
  have hload : cpu.memory.clear.load 0 cpu.memory.image = .ok cpu.memory := by
    refine Memory.load_eq_ok_iff.mpr ⟨(Memory.inRange_iff hmin hmax).mpr (.inr ?_), ?_⟩
    · rw [Nat.zero_add]
      exact cpu.memory.length_image_le
    · exact cpu.memory.replace_clear_image.symm
  have hact : (load 0 cpu.memory.image).act { cpu with memory := cpu.memory.clear } =
      .ok .done cpu := by
    have hwrite : Cpu.writeMemory (·.load 0 cpu.memory.image)
        { cpu with memory := cpu.memory.clear } = .ok () cpu :=
      Cpu.writeMemory_eq_ok_iff.mpr ⟨_, hload, rfl⟩
    exact bind_of_ok hwrite
  constructor
  · have houtcome : (load 0 cpu.memory.image).act.outcome
        { cpu with memory := cpu.memory.clear } = .ok .done := by
      unfold outcome
      rw [hact]
    exact congrArg (fun answer => [Except.ok Answer.done, answer]) houtcome
  · exact finalState_of_ok hact

/-- Accesses to a memory of at most 65535 bytes. On the row of its bytes they have the same answers,
and those that find no place there fail on an address. Behind them the memory has the bytes of the
row, and nothing else of the processor is changed. The image of a memory restores it once it is
cleared. -/
theorem sameAnswers_onCells (accesses : List Access) :
    cpu.memory.toList.length = cpu.layout.size ∧
      List.Forall₂ SameAnswer (answers accesses cpu)
        (answersOnCells accesses cpu.memory.toList) ∧
      Refilled cpu (accesses.foldl cellsBehind cpu.memory.toList) (after accesses cpu) ∧
      answers [clear, load 0 cpu.memory.image] cpu = [.ok .done, .ok .done] ∧
      after [clear, load 0 cpu.memory.image] cpu = cpu :=
  ⟨cpu.memory.length_toList, sameAnswers hmin hmax accesses,
    refilled_after hmin hmax accesses, load_image_behind_clear hmin hmax⟩

end Sized

/-- Accesses around the end of a memory of sixteen bytes: a string whose zero is the last byte, a
string and a word for which a byte is missing, the first string once more, an empty stretch outside,
and the last four bytes. -/
def aroundEnd : List Access :=
  [.writeString 13 [97, 98], .writeString 14 [97, 98], .writeWord 15 0x1234, .readString 13,
    .load 99 [], .slice 12 4]

/-- A processor with sixteen bytes of memory. -/
def sixteenBytes : Cpu := .powerOn ⟨16, 8, 12⟩ false

theorem sameAnswers_onCells_aroundEnd :
    (0 < sixteenBytes.layout.size ∧ sixteenBytes.layout.size ≤ 65535) ∧
      List.Forall₂ SameAnswer (answers aroundEnd sixteenBytes)
        [some (.terminator 15), none, none, some (.bytes [97, 98]), some .done,
          some (.bytes [0, 97, 98, 0])] ∧
      (after aroundEnd sixteenBytes).memory.toList = List.replicate 13 0 ++ [97, 98, 0] := by
  have hmin : 0 < sixteenBytes.layout.size := by decide
  have hmax : sixteenBytes.layout.size ≤ 65535 := by decide
  obtain ⟨-, hanswers, hrefilled, -⟩ := sameAnswers_onCells hmin hmax aroundEnd
  have hcells : sixteenBytes.memory.toList = List.replicate 16 0 := rfl
  rw [hcells] at hanswers hrefilled
  exact ⟨⟨hmin, hmax⟩, hanswers, hrefilled.cells⟩

end Access

end TeachingCpu
