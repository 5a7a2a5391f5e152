import TeachingCpu.Proofs.Assembly.Reassembly

/-!
# Source texts of listings as normal forms

What the source text of a listing assembles to has a listing whose source text assembles to the
same image: one round trip is enough. The first may move string literals, because memory that
nothing names is declared and the literals go behind it. After that, the listing declares the same
memory again (`Assembled.mem_declaredVariables_reassembled`), so that nothing moves.
-/

namespace TeachingCpu

open Listing (ofInstructions)

namespace Assembled

variable {source source' : String} {config : Config} {image image' : Image} {layout : Layout}
  {d d' d'' : Draft} {p p' : StringPool} {instructions instructions' : List Instruction}
  (h : Assembled source config image layout d p instructions)
  (hd' : Listing.Relaid (ofInstructions image instructions) layout d')
  (h' : Assembled source' config image' layout d' p' instructions')

/-! ## The second listing -/

section Second

include hd' h'

/-- In front of its literals, the second image has the data of the first listing. -/
theorem getD_reassembled {k : Nat} (hk : k < (ofInstructions image instructions).dataEnd) :
    image'.memory.getD k 0 = d'.memory.byteAt k := by
  rw [← hd'.dataEnd] at hk
  rw [h'.getD_memory, h'.pool.data k hk]

theorem groupAt_reassembled {v : Nat × String}
    (hv : v ∈ (ofInstructions image instructions).declaredVariables) :
    (ofInstructions image' instructions').groupAt v.1 =
      (ofInstructions image instructions).groupAt v.1 := by
  have hend := Listing.lt_dataEnd hv
  apply Listing.groupAt_eq _ _ (Listing.zero_notMem_groupAt _ _)
  intro k hk
  show image'.memory.getD (v.1 + k) 0 = _
  rw [getD_reassembled hd' h' (by omega), hd'.declared.written v hv _ (by omega) (by omega)]
  rcases Nat.eq_or_lt_of_le hk with rfl | hlt
  · rw [Listing.getD_behind_groupAt, List.getD_eq_default _ _ le_rfl]
  · exact (Listing.getD_groupAt _ _ hlt).1.symm

include h

theorem mem_addresses_data_reassembled {a : Nat} :
    a ∈ (ofInstructions image' instructions').addresses .data ↔
      a ∈ (ofInstructions image instructions).addresses .data :=
  (h.restated hd' h'.encodes).mem_addresses_iff (by decide)

/-- The second listing declares no other run of memory that no operand reaches. -/
theorem mem_unreached_of_reassembled {a : Nat}
    (ha : a ∈ (ofInstructions image' instructions').unreached) :
    a ∈ (ofInstructions image instructions).unreached := by
  have hlt := h'.unreached_lt hd'.nulFree ha
  rw [hd'.dataEnd] at hlt
  obtain ⟨⟨hbyte, hbefore⟩, hdata, -⟩ := Listing.mem_unreached_iff.mp ha
  have hbyte' : d'.memory.byteAt a ≠ 0 := by
    rw [← getD_reassembled hd' h' hlt]
    exact hbyte
  obtain ⟨⟨b, name⟩, hv, hle, hcovers⟩ := hd'.declared.covered a hbyte'
  dsimp only at hle hcovers
  obtain rfl : b = a := by
    by_contra hne
    -- The run goes on in front of `a`, inside the same group.
    have hinside : a - 1 - b < ((ofInstructions image instructions).groupAt b).length := by omega
    have hnonzero := ((ofInstructions image instructions).getD_groupAt b hinside).2
    have hwritten := hd'.declared.written _ hv (a - 1) (by dsimp only; omega) (by dsimp only; omega)
    rw [show b + (a - 1 - b) = a - 1 by omega, ← hwritten,
      ← getD_reassembled hd' h' (by omega)] at hnonzero
    rcases hbefore with rfl | hbefore
    · omega
    · exact hnonzero hbefore
  rcases Listing.mem_declaredVariables_iff.mp hv with ⟨hdata', -⟩ | ⟨hunreached, -⟩
  · exact absurd ((h.mem_addresses_data_reassembled hd' h').mpr hdata') hdata
  · exact hunreached

/-- Runs that no operand reaches stay where they are. -/
theorem mem_unreached_reassembled {a : Nat} :
    a ∈ (ofInstructions image' instructions').unreached ↔
      a ∈ (ofInstructions image instructions).unreached := by
  refine ⟨h.mem_unreached_of_reassembled hd' h', fun ha => ?_⟩
  have hv := Listing.mem_declaredVariables_iff.mpr (.inr ⟨ha, rfl⟩)
  have hlt := Listing.lt_dataEnd hv
  dsimp only at hlt
  obtain ⟨⟨hbyte, hbefore⟩, hdata, -⟩ := Listing.mem_unreached_iff.mp ha
  refine Listing.mem_unreached_iff.mpr ⟨⟨?_, ?_⟩, ?_, fun hstr => ?_⟩
  · show image'.memory.getD a 0 ≠ 0
    rw [getD_reassembled hd' h' (by omega),
      hd'.declared.written _ hv a le_rfl (Nat.le_add_right _ _)]
    exact hbyte
  · refine hbefore.imp_right fun hzero => ?_
    show image'.memory.getD (a - 1) 0 = 0
    rw [getD_reassembled hd' h' (by omega)]
    exact hd'.byteAt_eq_zero hzero
  · rwa [h.mem_addresses_data_reassembled hd' h']
  · have hbehind := h'.le_of_str hstr
    rw [hd'.dataEnd] at hbehind
    omega

/-- The second listing declares what the first does. -/
theorem mem_declaredVariables_reassembled {v : Nat × String} :
    v ∈ (ofInstructions image' instructions').declaredVariables ↔
      v ∈ (ofInstructions image instructions).declaredVariables := by
  obtain ⟨a, name⟩ := v
  rw [Listing.mem_declaredVariables_iff, Listing.mem_declaredVariables_iff,
    h.mem_addresses_data_reassembled hd' h', h.mem_unreached_reassembled hd' h']

theorem dataEnd_reassembled :
    (ofInstructions image' instructions').dataEnd =
      (ofInstructions image instructions).dataEnd := by
  refine eq_of_forall_ge_iff fun n => ?_
  rw [← Listing.endOf_declaredVariables, ← Listing.endOf_declaredVariables, Listing.endOf_le_iff,
    Listing.endOf_le_iff, List.forall_mem_map, List.forall_mem_map]
  refine forall_congr' fun v => ?_
  rw [h.mem_declaredVariables_reassembled hd' h']
  exact forall_congr' fun hv => by rw [groupAt_reassembled hd' h' hv]

/-! ## The second draft -/

section Draft

variable (hd'' : Listing.Relaid (ofInstructions image' instructions') layout d'')

include hd''

theorem memory_draft_eq : d''.memory = d'.memory := by
  have hdeclared : ∀ v ∈ (ofInstructions image instructions).declaredVariables, ∀ k, v.1 ≤ k →
      k < v.1 + ((ofInstructions image instructions).groupAt v.1).length →
        d''.memory.byteAt k = d'.memory.byteAt k := by
    intro v hv k hle hlt
    have hend := Listing.lt_dataEnd hv
    have hgroup := groupAt_reassembled hd' h' hv
    rw [hd''.declared.written v ((h.mem_declaredVariables_reassembled hd' h').mpr hv) k hle
      (by rw [hgroup]; omega)]
    exact getD_reassembled hd' h' (by omega)
  apply Memory.eq_of_byteAt (hd''.declared.layout.trans hd'.declared.layout.symm)
  intro k
  by_cases hk : d'.memory.byteAt k = 0
  · by_contra hne
    rw [hk] at hne
    obtain ⟨v, hv, hle, hlt⟩ := hd''.declared.covered k hne
    rw [h.mem_declaredVariables_reassembled hd' h'] at hv
    rw [groupAt_reassembled hd' h' hv] at hlt
    exact hne ((hdeclared v hv k hle hlt).trans hk)
  · obtain ⟨v, hv, hle, hlt⟩ := hd'.declared.covered k hk
    exact hdeclared v hv k hle hlt

/-- The literals of the second source text start where those of the first do, in front of them the
same memory. -/
theorem emptyPool_eq : d''.emptyPool = d'.emptyPool := by
  rw [Draft.emptyPool, Draft.emptyPool, h.memory_draft_eq hd' h' hd'', hd''.dataEnd, hd'.dataEnd,
    h.dataEnd_reassembled hd' h']

end Draft

end Second

end Assembled

/-- One round trip normalises: what the source text of a listing assembles to is what the source
text of its own listing assembles to, for the same machine. -/
theorem assemble_source_of_assemble_source {source : String} {config : Config}
    {image image' : Image} {l : Listing} (h : assemble source config = .ok image)
    (hl : disassemble image.toBytes = .ok l) (h' : assemble l.source config = .ok image') :
    ∃ l', disassemble image'.toBytes = .ok l' ∧ assemble l'.source config = .ok image' := by
  obtain ⟨layout, d, p, instructions, hA⟩ := exists_assembled h
  obtain rfl := Except.ok.inj (hA.disassemble_toBytes.symm.trans hl)
  obtain ⟨d', p', instructions', hB, hd'⟩ := hA.exists_of_assemble_source h'
  obtain ⟨d'', hread, hd''⟩ := Listing.exists_read_source hB.layout_eq hB.placeable
  have hpass : d''.statementList.mapM d''.encodeStatement d''.emptyPool =
      .ok instructions' p' := by
    rw [hA.emptyPool_eq hd' hB hd'']
    exact Draft.pass_of_same (hB.sameStatements hd'' hd'.nulFree) hB.pass
  refine ⟨_, hB.disassemble_toBytes, ?_⟩
  refine (hB.assemble_source_of_pass hd'' hread hpass).trans ?_
  rw [← hB.rom, ← hB.memory, ← hB.width]

/-- A literal that the first round trip splits. Its front moves behind its end and stays there. -/
theorem assemble_source_of_assemble_source_splitLiteral :
    ∃ l image' l',
      disassemble [35, 1, 13, 6, 0, 1, 255, 97, 98, 0, 99, 100, 254, 16, 0, 0] = .ok l ∧
        assemble l.source { memorySize := 32 } = .ok image' ∧
        disassemble image'.toBytes = .ok l' ∧
        assemble l'.source { memorySize := 32 } = .ok image' := by
  have hassemble : assemble ".MAIN\nlea %bx \"ab\\0cd\"\nhalt" { memorySize := 32 } =
      .ok ⟨[35, 1, 13, 6, 0, 1], [97, 98, 0, 99, 100], .bits16, 0⟩ := by
    decide +kernel
  have hlisted : disassemble [35, 1, 13, 6, 0, 1, 255, 97, 98, 0, 99, 100, 254, 16, 0, 0] =
      .ok ⟨⟨[35, 1, 13, 6, 0, 1], [97, 98, 0, 99, 100], .bits16, 0⟩,
        [⟨0, .lea, [⟨.register, 13⟩, ⟨.str, 0⟩]⟩, ⟨5, .halt, []⟩]⟩ := by
    decide +kernel
  obtain ⟨image', hsource⟩ :=
    (exists_assemble_source_iff hassemble hlisted).mpr (by decide +kernel)
  obtain ⟨l', hl', hagain⟩ := assemble_source_of_assemble_source hassemble hlisted hsource
  exact ⟨_, image', l', hlisted, hsource, hl', hagain⟩

end TeachingCpu
