import TeachingCpu.Proofs.Assembly.Relisted

/-!
# Assembling what was disassembled

The source text of the listing of an assembled program assembles again, for the same machine, to
the same program. String literals may stand elsewhere in memory: the listing declares no memory
that nothing names and that is zero, so its data may end sooner than that of the program.
-/

namespace TeachingCpu

open Listing (ofInstructions)

/-- A string stands at an address of the memory that a program starts with: bytes that are not
zero, and a zero byte behind them. -/
def Image.StringAt (image : Image) (size address : Nat) (bytes : List UInt8) : Prop :=
  0 ∉ bytes ∧ bytes ++ [0] <+: (image.initialMemory size).drop address

/-- Operands of two programs with the same mode and the same value, or the addresses of the same
string. -/
inductive SameOperand (size : Nat) (image image' : Image) : Operand → Operand → Prop where
  | value {o : Operand} (hmode : o.mode ≠ .str) : SameOperand size image image' o o
  | string {address address' : UInt8} (bytes : List UInt8)
    (h : image.StringAt size address.toNat bytes)
    (h' : image'.StringAt size address'.toNat bytes) :
    SameOperand size image image' ⟨.str, address⟩ ⟨.str, address'⟩

/-- Instructions of two programs that do the same. -/
structure SameInstruction (size : Nat) (image image' : Image) (i i' : Instruction) : Prop where
  opcode : i'.opcode = i.opcode
  operands : List.Forall₂ (SameOperand size image image') i.operands i'.operands

/-- Listings of one program: they differ at most in the addresses of its string literals. -/
structure SameProgram (size : Nat) (l l' : Listing) : Prop where
  width : l'.image.width = l.image.width
  entry : l'.image.entry = l.image.entry
  length : l'.image.rom.length = l.image.rom.length
  instructions : List.Forall₂
    (fun i i' => i'.offset = i.offset ∧
      SameInstruction size l.image l'.image i.instruction i'.instruction)
    l.instructions l'.instructions

/-! ## Strings in memory -/

/-- The image of a memory and zeros behind it are the memory. -/
theorem Memory.toList_eq_initialMemory {m : Memory} {image : Image} (h : image.memory = m.image) :
    m.toList = image.initialMemory m.layout.size := by
  obtain ⟨n, hn⟩ := m.exists_toList_eq
  have hlength := congrArg List.length hn
  rw [length_toList, List.length_append, List.length_replicate] at hlength
  rw [hn, Image.initialMemory, h, hlength, Nat.add_sub_cancel_left]

theorem StringPool.prefix_of_holds {m : Memory} {address : Nat} {bytes : List UInt8}
    (h : Holds m address bytes) (hend : address + bytes.length < m.layout.size) :
    bytes ++ [0] <+: m.toList.drop address := by
  have hlength := m.length_toList
  rw [List.prefix_iff_eq_take]
  apply List.ext_getElem
  · simp only [List.length_append, List.length_singleton, List.length_take, List.length_drop]
    omega
  · intro k hk hk'
    have hle : k ≤ bytes.length := by
      simp only [List.length_append, List.length_singleton] at hk
      omega
    have hbyte := h k hle
    rw [← Memory.getD_drop_toList] at hbyte
    rw [List.getElem_take, ← List.getD_eq_getElem (bytes ++ [0]) 0 hk,
      ← List.getD_eq_getElem (m.toList.drop address) 0, hbyte]
    exact Memory.getD_append_zeros bytes 1 k

theorem Assembled.stringAt {source : String} {config : Config} {image : Image} {layout : Layout}
    {d : Draft} {p : StringPool} {instructions : List Instruction}
    (h : Assembled source config image layout d p instructions) {text : String} {address : Nat}
    {bytes : List UInt8} (hfind : p.interned.find? text = some address)
    (hbytes : Text.toBytes text = .ok bytes) (hzero : 0 ∉ bytes) :
    image.StringAt config.memorySize address bytes := by
  obtain ⟨hsize, hmin, hmax⟩ := Config.size_of_layout h.layout_eq
  obtain ⟨bytes', hbytes', -, hend, hholds⟩ := h.pool.literals text address hfind
  rw [hbytes] at hbytes'
  cases hbytes'
  have hlayout := h.pool.layout.trans h.draft.layout
  have hbound := h.pool.bound
  rw [hlayout, Layout.lastAddressable_eq hmax] at hbound
  refine ⟨hzero, ?_⟩
  rw [← hsize, ← hlayout, ← Memory.toList_eq_initialMemory h.memory]
  apply StringPool.prefix_of_holds hholds
  rw [hlayout]
  omega

/-! ## Programs with the same statements -/

section Same

variable {source source' : String} {config : Config} {image image' : Image}
  {layout layout' : Layout} {d d' : Draft} {p p' : StringPool}
  {instructions instructions' : List Instruction}
  (h : Assembled source config image layout d p instructions)
  (h' : Assembled source' config image' layout' d' p' instructions')
  (hnul : d.NulFree)

include h h' hnul

theorem sameOperand {t t' : Token} {o o' : Operand} (ht : d.SameToken d' t t')
    (ho : d.Encodes p t o) (ho' : d'.Encodes p' t' o') :
    SameOperand config.memorySize image image' o o' := by
  cases ht with
  | literal hkind hkind' htext =>
    cases ho with
    | word hne => exact absurd hkind hne
    | literal _ hfind =>
      cases ho' with
      | word hne => exact absurd hkind' hne
      | literal _ hfind' =>
        obtain ⟨bytes, hbytes, hzero, -⟩ := h.literal_groupAt hnul hfind
        rw [htext] at hfind'
        exact .string bytes (h.stringAt hfind hbytes hzero) (h'.stringAt hfind' hbytes hzero)
  | word hkind hkind' hword =>
    cases ho with
    | literal hstr => exact absurd hstr hkind
    | @word mode value _ hvalue =>
      cases ho' with
      | literal hstr => exact absurd hstr hkind'
      | @word mode' value' _ hvalue' =>
        rw [hword, hvalue, Except.ok.injEq, Prod.mk.injEq, UInt8.toNat_inj] at hvalue'
        obtain ⟨rfl, rfl⟩ := hvalue'
        apply SameOperand.value
        intro heq
        subst heq
        exact Draft.denotes_of_wordOperand hvalue

theorem sameInstruction {s s' : Statement} {i i' : Instruction} (hs : d.SameStatement d' s s')
    (hi : d.EncodesStatement p s i) (hi' : d'.EncodesStatement p' s' i') :
    SameInstruction config.memorySize image image' i i' := by
  constructor
  · have hopcode := hs.opcode
    rw [hi.opcode, hi'.opcode] at hopcode
    exact Option.some.inj hopcode
  · have htokens : List.Forall₂ (fun o t' => ∃ t, d.SameToken d' t t' ∧ d.Encodes p t o)
        i.operands s'.operands :=
      hi.operands.flip.through (fun o t t' ho ht => ⟨t, ht, ho⟩) hs.operands
    exact htokens.through (fun o t' o' ⟨t, ht, ho⟩ ho' => sameOperand h h' hnul ht ho ho')
      hi'.operands

theorem sameInstructions
    (hsame : List.Forall₂ (d.SameStatement d') d.statementList d'.statementList) :
    List.Forall₂ (SameInstruction config.memorySize image image') instructions instructions' := by
  have hstatements : List.Forall₂
      (fun i s' => ∃ s, d.SameStatement d' s s' ∧ d.EncodesStatement p s i)
      instructions d'.statementList :=
    h.encodes.flip.through (fun i s s' hi hs => ⟨s, hs, hi⟩) hsame
  exact hstatements.through (fun i s' i' ⟨s, hs, hi⟩ hi' => sameInstruction h h' hnul hs hi hi')
    h'.encodes

end Same

/-- Operands that are no strings are the same. -/
theorem eq_of_sameOperands {size : Nat} {image image' : Image} {os os' : List Operand}
    (h : List.Forall₂ (SameOperand size image image') os os') (hnone : ∀ o ∈ os, o.mode ≠ .str) :
    os' = os := by
  induction h with
  | nil => rfl
  | cons ho _ ih =>
    obtain ⟨hne, hrest⟩ := List.forall_mem_cons.mp hnone
    cases ho with
    | value => rw [ih hrest]
    | string => exact absurd rfl hne

/-- Without string operands, the instructions are the same. -/
theorem eq_of_sameInstructions {size : Nat} {image image' : Image} {is is' : List Instruction}
    (h : List.Forall₂ (SameInstruction size image image') is is')
    (hnone : ∀ i ∈ is, ∀ o ∈ i.operands, o.mode ≠ .str) : is' = is := by
  induction h with
  | nil => rfl
  | @cons i i' is is' hfirst hrest ih =>
    obtain ⟨hi, his⟩ := List.forall_mem_cons.mp hnone
    obtain ⟨opcode, operands⟩ := i
    obtain ⟨opcode', operands'⟩ := i'
    have hopcode : opcode' = opcode := hfirst.opcode
    have hsame : operands' = operands := eq_of_sameOperands hfirst.operands hi
    rw [hopcode, hsame, ih his]

/-! ## The round trip -/

namespace Assembled

variable {source : String} {config : Config} {image : Image} {layout : Layout} {d : Draft}
  {p : StringPool} {instructions : List Instruction}
  (h : Assembled source config image layout d p instructions)

include h

section Relaid

variable {d' : Draft} (hd' : Listing.Relaid (ofInstructions image instructions) layout d')

include hd'

/-- The entry of the program is that of its listing. -/
theorem find?_entryLabel : d'.labels.find? entryLabel = some image.entry.toNat := by
  rw [hd'.coded.labels]
  obtain ⟨i, hi, hoffset⟩ := h.exists_listed h.entry h.entry_lt
  rw [Nat.toUInt16_eq, UInt16.ofNat_toNat] at hoffset
  refine ⟨image.entry, List.mem_append_left _ ?_, rfl, Listing.labelAt?_entry⟩
  rw [← hoffset]
  exact List.mem_map_of_mem hi

theorem romLength_eq : d'.romLength = image.rom.length := hd'.coded.follow.stop_eq h.follow

/-- Where the second pass over the source text of the listing succeeds, the text assembles. -/
theorem assemble_source_of_pass {p' : StringPool} {instructions' : List Instruction}
    (hread : Draft.read (ofInstructions image instructions).source config = .ok d')
    (hpass : d'.statementList.mapM d'.encodeStatement d'.emptyPool = .ok instructions' p') :
    assemble (ofInstructions image instructions).source config =
      .ok ⟨instructions'.flatMap Instruction.toBytes, p'.memory.image, .bits16, image.entry⟩ := by
  have hlt : image.entry.toNat < d'.romLength := by
    rw [h.romLength_eq hd', h.length_rom]
    exact h.entry_lt
  have hentry := Draft.entry_eq_ok_iff.mpr ⟨h.find?_entryLabel hd', hlt⟩
  refine assemble_eq_ok_iff.mpr ⟨d', p', hread, Draft.encode_eq_ok_iff.mpr
    ⟨_, instructions', hentry, hpass, ?_⟩⟩
  rw [Nat.toUInt16_eq, UInt16.ofNat_toNat]

end Relaid

/-- What the source text of the listing assembles to. -/
theorem exists_of_assemble_source {image' : Image}
    (hassemble : assemble (ofInstructions image instructions).source config = .ok image') :
    ∃ d' p' instructions', Assembled (ofInstructions image instructions).source config image' layout
        d' p' instructions' ∧ Listing.Relaid (ofInstructions image instructions) layout d' := by
  obtain ⟨d', hread, hd'⟩ := Listing.exists_read_source h.layout_eq h.placeable
  obtain ⟨layout', d'', p', instructions', h'⟩ := exists_assembled hassemble
  have hdraft : d'' = d' := Except.ok.inj (h'.read.symm.trans hread)
  have hlayout' : layout' = layout := Except.ok.inj (h'.layout_eq.symm.trans h.layout_eq)
  rw [hdraft, hlayout'] at h'
  exact ⟨d', p', instructions', h', hd'⟩

/-- The source text of the listing assembles. -/
theorem exists_reassembled (hnul : d.NulFree) :
    ∃ image' d' p' instructions',
      assemble (ofInstructions image instructions).source config = .ok image' ∧
        Assembled (ofInstructions image instructions).source config image' layout d' p'
          instructions' ∧
        Listing.Relaid (ofInstructions image instructions) layout d' := by
  obtain ⟨d', hread, hd'⟩ := Listing.exists_read_source h.layout_eq h.placeable
  have hlayout : d'.memory.layout = d.memory.layout :=
    hd'.declared.layout.trans h.draft.layout.symm
  have hend : d'.dataEnd ≤ d.dataEnd := hd'.dataEnd.trans_le (h.dataEnd_le hnul)
  obtain ⟨instructions', p', hpass⟩ := Draft.exists_pass_of_same (h.sameStatements hd' hnul)
    hlayout hend h.pass
  have hassemble := h.assemble_source_of_pass hd' hread hpass
  obtain ⟨d'', p'', instructions'', h', hd''⟩ := h.exists_of_assemble_source hassemble
  exact ⟨_, d'', p'', instructions'', hassemble, h', hd''⟩

theorem find?_interned_eq_none
    (hnone : ∀ o ∈ (ofInstructions image instructions).operands, o.mode ≠ .str) (text : String) :
    p.interned.find? text = none := by
  rw [Option.eq_none_iff_forall_ne_some]
  intro address hfind
  obtain ⟨-, -, -, -, -, -, haddress⟩ := h.exists_literal hfind
  obtain ⟨o, ho, hmode, -⟩ := Listing.mem_addresses_iff.mp haddress
  exact hnone o ho hmode

section Reassembled

variable {source' : String} {image' : Image} {d' : Draft} {p' : StringPool}
  {instructions' : List Instruction}
  (h' : Assembled source' config image' layout d' p' instructions')
  (hd' : Listing.Relaid (ofInstructions image instructions) layout d')

include h' hd'

theorem entry_reassembled : image'.entry = image.entry := by
  have hfind := h'.entry
  rw [h.find?_entryLabel hd'] at hfind
  exact UInt16.toNat_inj.mp (Option.some.inj hfind).symm

theorem length_reassembled : image'.rom.length = image.rom.length := by
  rw [h'.length_rom, h.romLength_eq hd']

/-- Without string operands, the memory is the same. -/
theorem memory_reassembled (heq : instructions' = instructions)
    (hnone : ∀ o ∈ (ofInstructions image instructions).operands, o.mode ≠ .str) :
    image'.memory = image.memory := by
  subst heq
  have hstrings : ∀ a, a ∉ (ofInstructions image instructions').addresses .str := by
    intro a ha
    obtain ⟨o, ho, hmode, -⟩ := Listing.mem_addresses_iff.mp ha
    exact hnone o ho hmode
  rw [h'.memory, h.memory]
  apply Memory.image_congr
  intro k
  rw [h'.byteAt_of_literals (h'.find?_interned_eq_none hnone), hd'.byteAt hstrings]
  exact h.getD_memory k

/-- Without string operands, the image is the same. -/
theorem reassembled_eq
    (hsame : List.Forall₂ (SameInstruction config.memorySize image image') instructions
      instructions')
    (hnone : ∀ o ∈ (ofInstructions image instructions).operands, o.mode ≠ .str) :
    image' = image := by
  have heq : instructions' = instructions := by
    apply eq_of_sameInstructions hsame
    intro i hi o ho
    rw [← Listing.map_instruction_listFrom 0 instructions] at hi
    obtain ⟨listed, hlisted, rfl⟩ := List.mem_map.mp hi
    exact hnone o (List.mem_flatMap.mpr ⟨listed, hlisted, ho⟩)
  have hrom : image'.rom = image.rom := by
    rw [h'.rom, h.rom, heq]
  have hmemory := h.memory_reassembled h' hd' heq hnone
  have hwidth : image'.width = image.width := h'.width.trans h.width.symm
  have hentry := h.entry_reassembled h' hd'
  cases image
  cases image'
  simp_all

end Reassembled

end Assembled

/-- Whatever `assemble` accepts, its listing assembles again for the same machine, to the same
program: its string literals may stand elsewhere, and nothing else changes. Where it has no string
operands, the image is the same. -/
theorem assemble_source_of_assemble {source : String} {config : Config} {image : Image}
    (h : assemble source config = .ok image)
    (hnul : ∀ d, Draft.read source config = .ok d → d.NulFree) :
    ∃ l, disassemble image.toBytes = .ok l ∧ l.image = image ∧
      ∃ image', assemble l.source config = .ok image' ∧
        ∃ l', disassemble image'.toBytes = .ok l' ∧ l'.image = image' ∧
          SameProgram config.memorySize l l' ∧
            ((∀ o ∈ l.operands, o.mode ≠ .str) → image' = image) := by
  obtain ⟨layout, d, p, instructions, hA⟩ := exists_assembled h
  have hfree := hnul d hA.read
  obtain ⟨image', d', p', instructions', hassemble, hB, hd'⟩ := hA.exists_reassembled hfree
  have hsame := sameInstructions hA hB hfree (hA.sameStatements hd' hfree)
  refine ⟨_, hA.disassemble_toBytes, rfl, image', hassemble, _, hB.disassemble_toBytes, rfl,
    ⟨?_, ?_, ?_, Listing.forall₂_listFrom SameInstruction.opcode hsame 0⟩, ?_⟩
  · exact hB.width.trans hA.width.symm
  · exact hA.entry_reassembled hB hd'
  · exact hA.length_reassembled hB hd'
  · intro hnone
    exact hA.reassembled_eq hB hd' hsame hnone

/-- A program with two variables that overlap, one behind them that nothing names, and a
literal. -/
def overlappingVariables : String :=
  ".DATA\nx \"hey\"\norg 1\ny 101 7\norg 9\nz\nend\n" ++
    ".MAIN\nlea %ax \"ok\"\nmov %bl @y\njmp .MAIN"

theorem assemble_source_of_assemble_overlappingVariables :
    assemble overlappingVariables { memorySize := 32 } =
      .ok ⟨[35, 1, 12, 6, 10, 2, 1, 2, 5, 1, 17, 7, 0],
        [104, 101, 7, 0, 0, 0, 0, 0, 0, 0, 111, 107], .bits16, 0⟩ ∧
    ∃ l image' l',
      disassemble [35, 1, 12, 6, 10, 2, 1, 2, 5, 1, 17, 7, 0, 255, 104, 101, 7, 0, 0, 0, 0, 0, 0, 0,
        111, 107, 254, 16, 0, 0] = .ok l ∧
      assemble l.source { memorySize := 32 } = .ok image' ∧
      disassemble image'.toBytes = .ok l' ∧ SameProgram 32 l l' := by
  have hassemble : assemble overlappingVariables { memorySize := 32 } =
      .ok ⟨[35, 1, 12, 6, 10, 2, 1, 2, 5, 1, 17, 7, 0],
        [104, 101, 7, 0, 0, 0, 0, 0, 0, 0, 111, 107], .bits16, 0⟩ := by
    decide +kernel
  have hdraft : (Draft.read overlappingVariables { memorySize := 32 }).map
      (fun d => decide d.NulFree) = .ok true := by
    decide +kernel
  obtain ⟨l, hl, -, image', himage', l', hl', -, hsame, -⟩ :=
    assemble_source_of_assemble hassemble fun d hd => by
      rw [hd] at hdraft
      exact of_decide_eq_true (Except.ok.inj hdraft)
  exact ⟨hassemble, l, image', l', hl, himage', hl', hsame⟩

end TeachingCpu
