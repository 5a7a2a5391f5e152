import TeachingCpu.Proofs.Assembly.Literals
import TeachingCpu.Proofs.Assembly.RoundTrip

/-!
# When the source text of a listing assembles

A literal that contains the character with code point zero ends there for a listing. What stands
behind it is memory that nothing names: it is declared, and the literals move behind it. They may
have no room there, and that is the only way in which the source text of a listing can fail to
assemble. Where it assembles, it has the instructions of the listing.
-/

namespace TeachingCpu

open Listing (ofInstructions)

/-- Operands of the same mode, with the same value if they are no strings. -/
structure RestatedOperand (o o' : Operand) : Prop where
  mode : o'.mode = o.mode
  value : o.mode ≠ .str → o'.value = o.value

/-- Instructions that differ at most in the addresses of strings. -/
structure RestatedInstruction (i i' : Instruction) : Prop where
  opcode : i'.opcode = i.opcode
  operands : List.Forall₂ RestatedOperand i.operands i'.operands

namespace Listing

/-- Listings whose instructions differ at most in the addresses of strings. -/
def Restated (l l' : Listing) : Prop :=
  List.Forall₂ (fun i i' => i'.offset = i.offset ∧
    RestatedInstruction i.instruction i'.instruction) l.instructions l'.instructions

theorem Restated.operands {l l' : Listing} (h : l.Restated l') :
    List.Forall₂ RestatedOperand l.operands l'.operands :=
  List.rel_flatMap h fun _ _ hi => hi.2.operands

/-- The operands of any mode but that of strings name the same addresses. -/
theorem Restated.mem_addresses_iff {l l' : Listing} (h : l.Restated l') {mode : Mode}
    (hmode : mode ≠ .str) {a : Nat} : a ∈ l'.addresses mode ↔ a ∈ l.addresses mode := by
  rw [Listing.mem_addresses_iff, Listing.mem_addresses_iff]
  constructor
  · rintro ⟨o', ho', rfl, rfl⟩
    obtain ⟨o, ho, hsame⟩ := h.operands.exists_left ho'
    rw [hsame.mode] at hmode
    exact ⟨o, ho, hsame.mode.symm, by rw [hsame.value hmode]⟩
  · rintro ⟨o, ho, rfl, rfl⟩
    obtain ⟨o', ho', hsame⟩ := h.operands.exists_right ho
    exact ⟨o', ho', hsame.mode, by rw [hsame.value hmode]⟩

end Listing

namespace Assembled

variable {source : String} {config : Config} {image : Image} {layout : Layout} {d d' : Draft}
  {p p' : StringPool} {instructions : List Instruction}
  (h : Assembled source config image layout d p instructions)

include h

section Restated

variable (hd' : Listing.Relaid (ofInstructions image instructions) layout d')

include hd'

theorem restatedOperand {t : Token} {o o' : Operand}
    (ho : o ∈ (ofInstructions image instructions).operands)
    (ht : (ofInstructions image instructions).Writes t o) (ho' : d'.Encodes p' t o') :
    RestatedOperand o o' := by
  by_cases hmode : o.mode = .str
  · cases ho' with
    | literal => exact ⟨hmode.symm, fun hne => absurd hmode hne⟩
    | word hkind => exact absurd (ht.literal hmode).1 hkind
  · obtain ⟨hkind, htext⟩ := ht.word hmode
    cases ho' with
    | literal hstr => exact absurd hstr hkind
    | word _ hword =>
      have hwritten := h.wordOperand_operandSource hd' ho hmode
      rw [← htext, hword, Except.ok.injEq, Prod.mk.injEq, UInt8.toNat_inj] at hwritten
      exact ⟨hwritten.1, fun _ => hwritten.2⟩

/-- Whatever the source text of the listing assembles to has its instructions. -/
theorem restated {image' : Image} {instructions' : List Instruction}
    (hencodes : List.Forall₂ (d'.EncodesStatement p') d'.statementList instructions') :
    (ofInstructions image instructions).Restated (ofInstructions image' instructions') := by
  have hlisted : List.Forall₂
      (fun (i : ListedInstruction) i' => RestatedInstruction i.instruction i')
      (Listing.listFrom 0 instructions) instructions' := by
    refine hd'.coded.statements.mem_right.flip.through ?_ hencodes
    rintro i s i' ⟨hi, hs⟩ hi'
    constructor
    · exact Option.some.inj (hi'.opcode.symm.trans hs.opcode)
    · refine hs.writes.mem_right.flip.through ?_ hi'.operands
      rintro o t o' ⟨ho, ht⟩ ho'
      exact h.restatedOperand hd' (List.mem_flatMap.mpr ⟨i, hi, ho⟩) ht ho'
  rw [← List.forall₂_map_left_iff, Listing.map_instruction_listFrom] at hlisted
  exact Listing.forall₂_listFrom RestatedInstruction.opcode hlisted 0

end Restated

/-- The source text of the listing assembles exactly if its literals have room. -/
theorem exists_assemble_source_iff :
    (∃ image', assemble (ofInstructions image instructions).source config = .ok image') ↔
      (ofInstructions image instructions).LiteralsFit config.memorySize := by
  obtain ⟨d', hread, hd'⟩ := Listing.exists_read_source h.layout_eq h.placeable
  rw [← h.exists_pass_iff hd']
  constructor
  · rintro ⟨image', hassemble⟩
    obtain ⟨d'', p', hread', hencode⟩ := assemble_eq_ok_iff.mp hassemble
    obtain ⟨-, instructions', -, hpass, -⟩ := Draft.encode_eq_ok_iff.mp hencode
    rw [hread] at hread'
    cases hread'
    exact ⟨instructions', p', hpass⟩
  · rintro ⟨instructions', p', hpass⟩
    exact ⟨_, h.assemble_source_of_pass hd' hread hpass⟩

end Assembled

theorem exists_assemble_source_iff {source : String} {config : Config} {image : Image}
    {l : Listing} (h : assemble source config = .ok image)
    (hl : disassemble image.toBytes = .ok l) :
    (∃ image', assemble l.source config = .ok image') ↔ l.LiteralsFit config.memorySize := by
  obtain ⟨layout, d, p, instructions, hA⟩ := exists_assembled h
  obtain rfl := Except.ok.inj (hA.disassemble_toBytes.symm.trans hl)
  exact hA.exists_assemble_source_iff

/-- Whatever `assemble` accepts, the source text of its listing assembles again for the same
machine exactly if the string literals have room behind what the listing declares, as they do if
none of them contains the character with code point zero. It then has the same instructions up to
the addresses of strings, and the same entry. -/
theorem assemble_source_iff_literalsFit {source : String} {config : Config} {image : Image}
    (h : assemble source config = .ok image) :
    ∃ l, disassemble image.toBytes = .ok l ∧ l.image = image ∧
      ((∃ image', assemble l.source config = .ok image') ↔ l.LiteralsFit config.memorySize) ∧
      ((∀ d, Draft.read source config = .ok d → d.NulFree) → l.LiteralsFit config.memorySize) ∧
      ∀ image', assemble l.source config = .ok image' →
        ∃ l', disassemble image'.toBytes = .ok l' ∧ l'.image = image' ∧
          image'.entry = image.entry ∧ l.Restated l' := by
  obtain ⟨layout, d, p, instructions, hA⟩ := exists_assembled h
  have hiff := hA.exists_assemble_source_iff
  refine ⟨_, hA.disassemble_toBytes, rfl, hiff, ?_, ?_⟩
  · intro hnul
    obtain ⟨image', -, -, -, hassemble, -⟩ := hA.exists_reassembled (hnul d hA.read)
    exact hiff.mp ⟨image', hassemble⟩
  · intro image' hassemble
    obtain ⟨d', p', instructions', hB, hd'⟩ := hA.exists_of_assemble_source hassemble
    exact ⟨_, hB.disassemble_toBytes, rfl, hA.entry_reassembled hB hd',
      hA.restated hd' hB.encodes⟩

/-- A literal of which the listing sees the front only. The rest has room in front of it. -/
theorem assemble_source_iff_literalsFit_splitLiteral :
    assemble ".MAIN\nlea %bx \"ab\\0cd\"\nhalt" { memorySize := 32 } =
      .ok ⟨[35, 1, 13, 6, 0, 1], [97, 98, 0, 99, 100], .bits16, 0⟩ ∧
    ∃ l image', disassemble [35, 1, 13, 6, 0, 1, 255, 97, 98, 0, 99, 100, 254, 16, 0, 0] = .ok l ∧
      assemble l.source { memorySize := 32 } = .ok image' := by
  have hassemble : assemble ".MAIN\nlea %bx \"ab\\0cd\"\nhalt" { memorySize := 32 } =
      .ok ⟨[35, 1, 13, 6, 0, 1], [97, 98, 0, 99, 100], .bits16, 0⟩ := by
    decide +kernel
  have hlisted : disassemble [35, 1, 13, 6, 0, 1, 255, 97, 98, 0, 99, 100, 254, 16, 0, 0] =
      .ok ⟨⟨[35, 1, 13, 6, 0, 1], [97, 98, 0, 99, 100], .bits16, 0⟩,
        [⟨0, .lea, [⟨.register, 13⟩, ⟨.str, 0⟩]⟩, ⟨5, .halt, []⟩]⟩ := by
    decide +kernel
  obtain ⟨l, hl, -, hiff, -⟩ := assemble_source_iff_literalsFit hassemble
  obtain rfl := Except.ok.inj (hl.symm.trans hlisted)
  obtain ⟨image', himage'⟩ := hiff.mpr (by decide +kernel)
  exact ⟨hassemble, _, image', hlisted, himage'⟩

/-- Data, and behind it a literal that just starts at an address of one byte. The listing declares
the end of the literal, and its front would have to go behind that. -/
def literalAtTheEdge : String :=
  ".DATA\norg 250\nx 7\nend\n.MAIN\nmov %al @x\nlea %bx \"a\\0b\""

/-- The listing of `literalAtTheEdge`. -/
def listingAtTheEdge : Listing where
  image := ⟨[2, 1, 0, 5, 250, 35, 1, 13, 6, 252], List.replicate 250 0 ++ [7, 0, 97, 0, 98],
    .bits16, 0⟩
  instructions :=
    [⟨0, .mov, [⟨.register, 0⟩, ⟨.data, 250⟩]⟩, ⟨5, .lea, [⟨.register, 13⟩, ⟨.str, 252⟩]⟩]

theorem assemble_source_listingAtTheEdge_ne_ok :
    assemble literalAtTheEdge {} = .ok listingAtTheEdge.image ∧
      disassemble listingAtTheEdge.image.toBytes = .ok listingAtTheEdge ∧
      ∀ image', assemble listingAtTheEdge.source {} ≠ .ok image' := by
  have hassemble : assemble literalAtTheEdge {} = .ok listingAtTheEdge.image := by
    decide +kernel
  have hlisted : disassemble listingAtTheEdge.image.toBytes = .ok listingAtTheEdge := by
    decide +kernel
  have hfull : ¬ listingAtTheEdge.LiteralsFit 4096 := by
    decide +kernel
  refine ⟨hassemble, hlisted, fun image' hsource => ?_⟩
  exact hfull ((exists_assemble_source_iff hassemble hlisted).mp ⟨image', hsource⟩)

end TeachingCpu
