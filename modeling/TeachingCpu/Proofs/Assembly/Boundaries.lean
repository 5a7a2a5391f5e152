import TeachingCpu.Machine.Execute
import TeachingCpu.Proofs.Assembly.Relisted

/-!
# Boundaries of instructions

Where one instruction of a listing ends, the next begins or the code ends (`Boundary.behind`). The
operands of an assembled program name registers that exist, and its labels are such boundaries
(`Assembled.sound`).
-/

namespace TeachingCpu

/-- Whether an effect goes to the address that its operand says. -/
def Effect.branches : Effect → Bool
  | .jump _ | .call => true
  | _ => false

namespace Listing

/-- An address where an instruction begins, or that of the end of the code. -/
def Boundary (listed : List ListedInstruction) (stop : Nat) (address : UInt16) : Prop :=
  (∃ l ∈ listed, address = l.offset) ∨ address.toNat = stop

/-- Behind an instruction is a boundary. -/
theorem Boundary.behind {listed : List ListedInstruction} {start stop : Nat}
    (hfollow : Follow start listed stop) {l : ListedInstruction} (hl : l ∈ listed)
    {address : UInt16} (h : address.toNat = l.offset.toNat + l.instruction.opcode.length) :
    Boundary listed stop address := by
  obtain ⟨front, back, rfl⟩ := List.append_of_mem hl
  obtain ⟨middle, -, hmiddle, hback⟩ := follow_append.mp hfollow
  rw [← hmiddle, ← h] at hback
  cases back with
  | nil => exact .inr hback
  | cons next rest =>
    refine .inl ⟨next, by simp, ?_⟩
    exact UInt16.toNat_inj.mp hback.1.symm

/-- Jumps and calls go to labels. -/
def LabelOnly (listed : List ListedInstruction) : Prop :=
  ∀ l ∈ listed, l.instruction.opcode.effect.branches = true →
    ∀ o ∈ l.instruction.operands, o.mode = .label

instance (listed : List ListedInstruction) : Decidable (LabelOnly listed) :=
  inferInstanceAs (Decidable (∀ l ∈ listed, l.instruction.opcode.effect.branches = true →
    ∀ o ∈ l.instruction.operands, o.mode = .label))

/-- Code whose operands name registers that exist and labels that are boundaries. -/
structure SoundCode (rom : List UInt8) (listed : List ListedInstruction) : Prop where
  decode : decodeRom rom = .ok listed
  length : rom.length ≤ 65535
  registers : ∀ l ∈ listed, ∀ o ∈ l.instruction.operands,
    o.mode = .register → o.register? ≠ none
  labels : ∀ l ∈ listed, ∀ o ∈ l.instruction.operands,
    o.mode = .label → Boundary listed rom.length o.value.toUInt16

theorem SoundCode.boundary_behind {rom : List UInt8} {listed : List ListedInstruction}
    (h : SoundCode rom listed) {l : ListedInstruction} (hl : l ∈ listed) {address : UInt16}
    (haddress : address.toNat = l.offset.toNat + l.instruction.toBytes.length) :
    Boundary listed rom.length address := by
  obtain ⟨instructions, hcomplete, hrom, rfl⟩ := decodeRom_eq_ok_iff.mp h.decode
  have hlength : 0 + (instructions.flatMap Instruction.toBytes).length ≤ 65535 := by
    rw [Nat.zero_add, ← hrom]
    exact h.length
  have hfollow := follow_listFrom hcomplete hlength
  rw [Nat.zero_add, ← hrom] at hfollow
  refine Boundary.behind hfollow hl ?_
  obtain ⟨front, back, hinstructions, -⟩ := exists_of_mem_listFrom hcomplete hl
  have hi : l.instruction.Complete := hcomplete _ (by simp [hinstructions])
  rw [haddress, hi.length_toBytes]

end Listing

namespace Assembled

variable {source : String} {config : Config} {image : Image} {layout : Layout} {d : Draft}
  {p : StringPool} {instructions : List Instruction}
  (h : Assembled source config image layout d p instructions)

include h

theorem length_rom_le : image.rom.length ≤ 65535 := by
  rw [h.length_rom]
  exact h.draft.code.length

theorem boundary_label {name : String} {n : Nat} (hfind : d.labels.find? name = some n) :
    Listing.Boundary (Listing.listFrom 0 instructions) image.rom.length n.toUInt16 := by
  rcases List.mem_append.mp (h.exists_offset hfind) with hoffset | hend
  · obtain ⟨l, hl, hoffset⟩ := List.mem_map.mp hoffset
    exact .inl ⟨l, hl, hoffset.symm⟩
  · rw [List.mem_singleton.mp hend]
    exact .inr (Nat.toNat_toUInt16_of_le h.length_rom_le)

theorem sound : Listing.SoundCode image.rom (Listing.listFrom 0 instructions) := by
  have hdenotes : ∀ l ∈ Listing.listFrom 0 instructions, ∀ o ∈ l.instruction.operands,
      o.mode ≠ .str → d.Denotes o.mode o.value.toNat := by
    intro l hl o ho hmode
    obtain ⟨s, -, t, -, hencodes⟩ :=
      h.exists_encodes (o := o) (List.mem_flatMap.mpr ⟨l, hl, ho⟩)
    exact hencodes.denotes hmode
  refine ⟨?_, h.length_rom_le, fun l hl o ho hmode => ?_, fun l hl o ho hmode => ?_⟩
  · rw [h.rom]
    exact Listing.decodeRom_flatMap_toBytes h.complete
  · have hregister := hdenotes l hl o ho (by simp [hmode])
    rw [hmode] at hregister
    obtain ⟨r, hr⟩ := hregister
    unfold Operand.register?
    rw [hmode]
    dsimp only
    rw [hr, Register.ofId?_id]
    exact Option.some_ne_none r
  · have hlabel := hdenotes l hl o ho (by simp [hmode])
    rw [hmode] at hlabel
    obtain ⟨name, hfind⟩ := hlabel
    have hvalue : o.value.toNat.toUInt16 = o.value.toUInt16 := UInt16.ofNat_uInt8ToNat _
    rw [← hvalue]
    exact h.boundary_label hfind

end Assembled

end TeachingCpu
