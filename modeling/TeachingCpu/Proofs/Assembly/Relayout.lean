import TeachingCpu.Proofs.Assembly.Lay
import TeachingCpu.Proofs.Listing.Decode
import TeachingCpu.Proofs.Listing.Names

/-!
# Laying out a listing again

The first pass takes the source text of a listing. Its draft has the variables of the listing with
the bytes they had in memory, the labels at their addresses, and a statement for each instruction
(`Relaid`).
-/

namespace TeachingCpu

open Source (Piece)
open Draft (Lays)

namespace Listing

/-- Where the groups at some addresses end: behind the zero byte of the one that reaches
farthest. -/
def endOf (l : Listing) (addresses : List Nat) : Nat :=
  addresses.foldl (fun reached a => max reached (a + (l.groupAt a).length + 1)) 0

/-- Where the variables that a listing declares end. -/
def dataEnd (l : Listing) : Nat := l.endOf (l.addresses .data ++ l.unreached)

theorem endOf_append_singleton (l : Listing) (addresses : List Nat) (a : Nat) :
    l.endOf (addresses ++ [a]) = max (l.endOf addresses) (a + (l.groupAt a).length + 1) := by
  rw [endOf, List.foldl_append]
  rfl

theorem endOf_le_iff {l : Listing} {addresses : List Nat} {n : Nat} :
    l.endOf addresses ≤ n ↔ ∀ a ∈ addresses, a + (l.groupAt a).length < n := by
  induction addresses using List.reverseRecOn with
  | nil => simp [endOf]
  | append_singleton addresses a ih =>
    rw [endOf_append_singleton, Nat.max_le, ih]
    rw [List.forall_mem_append, List.forall_mem_singleton, Nat.succ_le_iff]

theorem endOf_declaredVariables (l : Listing) :
    l.endOf (l.declaredVariables.map Prod.fst) = l.dataEnd := by
  have hperm := l.perm_declaredVariables.map Prod.fst
  rw [List.map_append, List.map_map, List.map_map] at hperm
  have hfst : ∀ (f : Nat → String) (addresses : List Nat),
      addresses.map (Prod.fst ∘ fun a => (a, f a)) = addresses := fun f addresses => List.map_id _
  rw [hfst, hfst] at hperm
  refine eq_of_forall_ge_iff fun n => ?_
  rw [dataEnd, endOf_le_iff, endOf_le_iff]
  exact forall_congr' fun a => by rw [hperm.mem_iff]

/-- The variables of a listing end there or before. -/
theorem lt_dataEnd {l : Listing} {v : Nat × String} (hv : v ∈ l.declaredVariables) :
    v.1 + (l.groupAt v.1).length < l.dataEnd :=
  endOf_le_iff.mp l.endOf_declaredVariables.le v.1 (List.mem_map_of_mem hv)

/-- The variables of a listing and their bytes lie in memory, and its instructions are complete
and follow each other. -/
structure Placeable (l : Listing) (layout : Layout) : Prop where
  size : layout.size ≤ 65535
  bounded : l.dataEnd ≤ layout.size
  memory : l.MemoryBelow
  complete : ∀ i ∈ l.instructions, i.instruction.Complete
  follow : Follow 0 l.instructions l.image.rom.length
  length : l.image.rom.length ≤ 65535

/-- A draft has some of the variables of a listing, with the bytes that they have in the image,
and nothing else in memory. -/
structure Declared (l : Listing) (layout : Layout) (done : List (Nat × String)) (d : Draft) :
    Prop where
  layout : d.memory.layout = layout
  dataEnd : d.dataEnd = l.endOf (done.map Prod.fst)
  vars : ∀ name a, d.vars.find? name = some a ↔ (a, name) ∈ done
  written : ∀ v ∈ done, ∀ k, v.1 ≤ k → k ≤ v.1 + (l.groupAt v.1).length →
    d.memory.byteAt k = l.image.memory.getD k 0
  covered : ∀ k, d.memory.byteAt k ≠ 0 → ∃ v ∈ done, v.1 ≤ k ∧ k < v.1 + (l.groupAt v.1).length

/-- A statement was written for an instruction. -/
structure Restates (l : Listing) (s : Statement) (i : ListedInstruction) : Prop where
  mnemonic : s.mnemonic.content = (.word, i.instruction.opcode.mnemonic)
  operands : s.operands.map Token.content =
    (i.instruction.operands.map (l.operandPiece l.targets)).map Piece.content

/-- A draft has some of the instructions of a listing, and the labels at some code addresses. -/
structure Coded (l : Listing) (offsets : List UInt16) (done : List ListedInstruction)
    (d : Draft) : Prop where
  statements : List.Forall₂ (Restates l) d.statementList done
  follow : Follow 0 done d.romLength
  labels : ∀ name n, d.labels.find? name = some n ↔
    ∃ a ∈ offsets, a.toNat = n ∧ l.labelAt? l.targets a = some name

/-- The draft of the source text of a listing. -/
structure Relaid (l : Listing) (layout : Layout) (d : Draft) : Prop where
  declared : Declared l layout l.declaredVariables d
  coded : Coded l (l.instructions.map (·.offset) ++ [l.image.rom.length.toUInt16]) l.instructions d

/-! ## Data -/

section Data

variable {l : Listing} {layout : Layout} {done rest : List (Nat × String)}
  {v : Nat × String}

theorem declared_empty : Declared l layout [] (Draft.empty layout) := by
  refine ⟨rfl, rfl, ?_, ?_, ?_⟩
  · intro name a
    refine iff_of_false (fun h => ?_) List.not_mem_nil
    cases h
  · intro v hv
    cases hv
  · intro k hk
    exact absurd (Memory.byteAt_zeroed layout k) hk

/-- Only the data of a draft matters. -/
theorem Declared.congr {d d' : Draft} (h : Declared l layout done d)
    (hmemory : d'.memory = d.memory) (hvars : d'.vars = d.vars) (hend : d'.dataEnd = d.dataEnd) :
    Declared l layout done d' := by
  refine ⟨?_, ?_, ?_, ?_, ?_⟩
  · rw [hmemory]
    exact h.layout
  · rw [hend]
    exact h.dataEnd
  · rw [hvars]
    exact h.vars
  · rw [hmemory]
    exact h.written
  · rw [hmemory]
    exact h.covered

/-- Memory behind a group of the image that was written to its place. -/
theorem byteAt_replace_groupAt {m : Memory} {address : Nat}
    (hfits : address + (l.groupAt address).length < m.layout.size) (k : Nat) :
    (m.replace address (l.groupAt address ++ [0])).byteAt k =
      if address ≤ k ∧ k ≤ address + (l.groupAt address).length then l.image.memory.getD k 0
      else m.byteAt k := by
  rw [Memory.byteAt_replace_string hfits]
  by_cases hk : address ≤ k ∧ k ≤ address + (l.groupAt address).length
  · rw [if_pos hk, if_pos hk]
    obtain ⟨j, rfl⟩ := Nat.exists_eq_add_of_le hk.1
    rw [Nat.add_sub_cancel_left]
    rcases Nat.eq_or_lt_of_le (Nat.le_of_add_le_add_left hk.2) with rfl | hlt
    · rw [List.getD_eq_default _ _ le_rfl, getD_behind_groupAt]
    · exact (l.getD_groupAt address hlt).1
  · rw [if_neg hk, if_neg hk]

theorem find?_define_iff_mem {vars : SymbolTable} {address : Nat} {name : String}
    (hvars : ∀ other a, vars.find? other = some a ↔ (a, other) ∈ done)
    (hnew : vars.find? name = none) (other : String) (a : Nat) :
    (vars.define name address).find? other = some a ↔ (a, other) ∈ done ++ [(address, name)] := by
  rw [List.mem_append, List.mem_singleton, ← hvars]
  by_cases hother : other = name
  · subst hother
    simp [hnew, eq_comm]
  · rw [SymbolTable.find?_define_of_ne _ hother]
    simp [hother]

/-- A variable that is written behind others. -/
theorem Declared.putGroup {d : Draft} (h : Declared l layout done d)
    (hposition : d.position = some v.1) (hv : v.1 + (l.groupAt v.1).length < layout.size)
    (hnew : d.vars.find? v.2 = none) :
    Declared l layout (done ++ [v])
      (Draft.putGroup { d with vars := d.vars.define v.2 (d.position.getD 0) }
        (l.groupAt v.1)) := by
  obtain ⟨address, name⟩ := v
  dsimp only at hposition hv hnew ⊢
  have hlayout := h.layout
  have haddress : d.position.getD 0 = address := by
    rw [hposition]
    rfl
  have hfits : address + (l.groupAt address).length < d.memory.layout.size := by
    rwa [hlayout]
  have hbyte := byteAt_replace_groupAt hfits
  unfold Draft.putGroup
  rw [haddress]
  refine ⟨hlayout, ?_, ?_, ?_, ?_⟩
  · show max d.dataEnd (address + (l.groupAt address).length + 1) = _
    rw [List.map_append, List.map_singleton, endOf_append_singleton, h.dataEnd]
  · exact find?_define_iff_mem h.vars hnew
  · intro w hw k hk hk'
    show (d.memory.replace address _).byteAt k = _
    rw [hbyte]
    split
    · rfl
    · next hout =>
      rcases List.mem_append.mp hw with hw | hw
      · exact h.written w hw k hk hk'
      · rw [List.mem_singleton] at hw
        subst hw
        exact absurd ⟨hk, hk'⟩ hout
  · intro k hk
    have hk' : (d.memory.replace address (l.groupAt address ++ [0])).byteAt k ≠ 0 := hk
    rw [hbyte] at hk'
    split at hk'
    · next hin =>
      have hbehind : k ≠ address + (l.groupAt address).length := by
        intro heq
        rw [heq, getD_behind_groupAt] at hk'
        exact hk' rfl
      exact ⟨(address, name), List.mem_append_right _ (List.mem_singleton_self _), hin.1,
        Nat.lt_of_le_of_ne hin.2 hbehind⟩
    · obtain ⟨w, hw, hcovers⟩ := h.covered k hk'
      exact ⟨w, List.mem_append_left _ hw, hcovers⟩

theorem isIdentifier_of_declared (hv : v ∈ l.declaredVariables) : Draft.isIdentifier v.2 :=
  (isName_of_mem_declaredVariables hv).identifier

/-- The lines of a variable. -/
theorem lays_declaration (hplace : Placeable l layout)
    (hxs : l.declaredVariables = done ++ v :: rest) {code : SymbolTable × List Statement × Nat} :
    Lays (fun d => d.position.isSome ∧ d.code = code ∧ Declared l layout done d)
      (l.declarationPieces v)
      (fun d => d.position.isSome ∧ d.code = code ∧ Declared l layout (done ++ [v]) d) := by
  have hmem : v ∈ l.declaredVariables := by
    rw [hxs]
    exact List.mem_append_right _ List.mem_cons_self
  have hinside : v.1 + (l.groupAt v.1).length < layout.size :=
    Nat.lt_of_lt_of_le (lt_dataEnd hmem) hplace.bounded
  have hlast := Layout.lastAddressable_eq hplace.size
  have hsize := hplace.size
  have hnodup := nodup_map_snd_declaredVariables hplace.memory
  refine Lays.cons (Q := fun d => d.position = some v.1 ∧ d.code = code ∧
    Declared l layout done d) (Draft.lays_line ?_) (Draft.lays_line ?_)
  · intro line d hline h
    rcases h with ⟨hopen, hcode, hd⟩
    have hlayout := hd.layout
    refine ⟨_, Draft.addLine_origin hline hopen (by omega) ?_, rfl, hcode, hd.congr rfl rfl rfl⟩
    rw [hlayout]
    omega
  · intro line d hline h
    rcases h with ⟨hposition, hcode, hd⟩
    have hopen : d.position.isSome := by simp [hposition]
    have hnew : d.vars.find? v.2 = none := by
      rw [Option.eq_none_iff_forall_ne_some]
      intro a hfind
      have hdone := (hd.vars v.2 a).mp hfind
      rw [hxs, List.map_append, List.map_cons, List.nodup_append] at hnodup
      have hname : v.2 ∈ done.map Prod.snd := List.mem_map.mpr ⟨(a, v.2), hdone, rfl⟩
      exact hnodup.2.2 v.2 hname v.2 List.mem_cons_self rfl
    have hfits : d.Fits (l.groupAt v.1) := by
      unfold Draft.Fits
      rw [hposition, hd.layout, Option.getD_some]
      omega
    obtain ⟨hend, horigin⟩ := name_ne_of_mem_declaredVariables hmem
    refine ⟨_, Draft.addLine_variable hline hopen (isIdentifier_of_declared hmem) hend horigin
      hnew hfits, rfl, hcode, hd.putGroup hposition hinside hnew⟩

/-- The lines of the data block. -/
theorem lays_dataPieces (hplace : Placeable l layout) :
    Lays (· = Draft.empty layout) l.dataPieces
      (fun d => d.position = none ∧ d.code = ({}, [], 0) ∧
        Declared l layout l.declaredVariables d) := by
  let I : List (Nat × String) → Draft → Prop := fun done d =>
    d.position.isSome ∧ d.code = ({}, [], 0) ∧ Declared l layout done d
  have hvariables : Lays (I []) (l.declaredVariables.flatMap l.declarationPieces)
      (I l.declaredVariables) :=
    Draft.lays_flatMap I fun done v rest hxs => lays_declaration hplace hxs
  unfold dataPieces
  split
  · next hnone =>
    apply Draft.lays_nil
    intro d heq
    subst heq
    rw [hnone]
    exact ⟨rfl, rfl, declared_empty⟩
  · next declared hdeclared =>
    refine Lays.cons (Draft.lays_line ?_) (hvariables.append
      (Lays.cons (Draft.lays_line ?_) (Draft.lays_empty_line fun d hd => hd)))
    · intro line d hline heq
      subst heq
      exact ⟨_, Draft.addLine_dataWord hline rfl, rfl, rfl, declared_empty.congr rfl rfl rfl⟩
    · intro line d hline h
      rcases h with ⟨hopen, hcode, hd⟩
      obtain ⟨overruns, hadd⟩ := Draft.addLine_end hline hopen
      exact ⟨_, hadd, rfl, hcode, hd.congr rfl rfl rfl⟩

end Data

/-! ## Code -/

section Code

variable {l : Listing} {layout : Layout} {named : List (Nat × String)}
  {offsets : List UInt16} {done : List ListedInstruction}

theorem coded_of_code {d : Draft} (h : d.code = ({}, [], 0)) : Coded l [] [] d := by
  simp only [Draft.code, Prod.mk.injEq] at h
  obtain ⟨hlabels, hstatements, hlength⟩ := h
  refine ⟨?_, ?_, ?_⟩
  · rw [Draft.statementList, hstatements]
    exact .nil
  · rw [hlength]
    rfl
  · intro name n
    rw [hlabels]
    refine iff_of_false (fun hfind => ?_) fun hlabel => ?_
    · cases hfind
    · obtain ⟨a, ha, -⟩ := hlabel
      exact List.not_mem_nil ha

/-- A label at the end of the code so far. -/
theorem Coded.define_label {d : Draft} (h : Coded l offsets done d) {offset : UInt16}
    (hoffset : Follow 0 done offset.toNat) {name : String}
    (hlabel : l.labelAt? l.targets offset = some name) :
    Coded l (offsets ++ [offset]) done
      { d with labels := d.labels.define name d.romLength } := by
  have hstop := h.follow.stop_eq hoffset
  refine ⟨h.statements, h.follow, ?_⟩
  intro other n
  show (d.labels.define name d.romLength).find? other = some n ↔ _
  by_cases hother : other = name
  · subst hother
    rw [SymbolTable.find?_define_self, hstop]
    constructor
    · intro hn
      exact ⟨offset, by simp, Option.some.inj hn, hlabel⟩
    · intro hparts
      rcases hparts with ⟨a, -, rfl, hlabel'⟩
      rw [labelAt?_injective hlabel' hlabel]
  · rw [SymbolTable.find?_define_of_ne _ hother, h.labels]
    constructor
    · intro hparts
      rcases hparts with ⟨a, ha, hn, hname⟩
      exact ⟨a, List.mem_append_left _ ha, hn, hname⟩
    · intro hparts
      rcases hparts with ⟨a, ha, hn, hname⟩
      rcases List.mem_append.mp ha with ha | ha
      · exact ⟨a, ha, hn, hname⟩
      · rw [List.mem_singleton] at ha
        rw [ha, hlabel] at hname
        exact absurd (Option.some.inj hname).symm hother

/-- The line of a label, if there is one. -/
theorem lays_labelPieces {offset : UInt16} (hoffset : Follow 0 done offset.toNat)
    (hnew : offset ∉ offsets) :
    Lays (fun d => d.position = none ∧ Declared l layout named d ∧ Coded l offsets done d)
      (l.labelPieces l.targets offset)
      (fun d => d.position = none ∧ Declared l layout named d ∧
        Coded l (offsets ++ [offset]) done d) := by
  unfold labelPieces
  cases hlabel : l.labelAt? l.targets offset with
  | none =>
    apply Draft.lays_nil
    intro d h
    rcases h with ⟨hclosed, hd, hcoded⟩
    refine ⟨hclosed, hd, hcoded.statements, hcoded.follow, ?_⟩
    intro name n
    rw [hcoded.labels]
    constructor
    · intro h
      rcases h with ⟨a, ha, hn, hname⟩
      exact ⟨a, List.mem_append_left _ ha, hn, hname⟩
    · intro h
      rcases h with ⟨a, ha, hn, hname⟩
      rcases List.mem_append.mp ha with ha | ha
      · exact ⟨a, ha, hn, hname⟩
      · rw [List.mem_singleton] at ha
        rw [ha, hlabel] at hname
        cases hname
  | some name =>
    apply Draft.lays_line
    intro line d hline h
    rcases h with ⟨hclosed, hd, hcoded⟩
    have hfree : d.labels.find? name = none := by
      rw [Option.eq_none_iff_forall_ne_some]
      intro n hfind
      obtain ⟨a, ha, -, hname⟩ := (hcoded.labels name n).mp hfind
      rw [labelAt?_injective hname hlabel] at ha
      exact hnew ha
    have hidentifier := (isName_of_labelAt? hlabel).identifier
    exact ⟨_, Draft.addLine_label hline hclosed hidentifier (lower_label_ne hlabel) hfree, hclosed,
      hd.congr rfl rfl rfl, hcoded.define_label hoffset hlabel⟩

theorem lower_mnemonic_ne (op : Opcode) : Text.lower op.mnemonic ≠ Draft.dataWord := by
  cases op <;> decide

theorem head?_mnemonic_ne (op : Opcode) : op.mnemonic.toList.head? ≠ some '.' := by
  cases op <;> decide

theorem arity_le (op : Opcode) : op.arity ≤ 2 := by
  cases op <;> decide

/-- The statement of an instruction. -/
theorem lays_statementPieces {i : ListedInstruction} (hi : Follow 0 done i.offset.toNat)
    (hcomplete : i.instruction.Complete)
    (hspace : i.offset.toNat + i.instruction.opcode.length ≤ 65535) :
    Lays (fun d => d.position = none ∧ Declared l layout named d ∧ Coded l offsets done d)
      [l.statementPieces l.targets i.instruction]
      (fun d => d.position = none ∧ Declared l layout named d ∧
        Coded l offsets (done ++ [i]) d) := by
  apply Draft.lays_line
  intro line d hline h
  rcases h with ⟨hclosed, hd, hcoded⟩
  have hstop := hcoded.follow.stop_eq hi
  have hlength : (i.instruction.operands.map (l.operandPiece l.targets)).length =
      i.instruction.opcode.arity := by
    rw [List.length_map, hcomplete]
  have harity := arity_le i.instruction.opcode
  obtain ⟨s, hmnemonic, hoperands, hadd⟩ := Draft.addLine_statement hline hclosed
    (lower_mnemonic_ne _) (head?_mnemonic_ne _) (by omega) (by
      rw [hlength, hstop]
      exact hspace)
  refine ⟨_, hadd, hclosed, hd.congr rfl rfl rfl, ?_, ?_, hcoded.labels⟩
  · show List.Forall₂ (Restates l) (s :: d.statements).reverse (done ++ [i])
    rw [List.reverse_cons]
    exact List.rel_append hcoded.statements (.cons ⟨hmnemonic, hoperands⟩ .nil)
  · refine follow_append.mpr ⟨d.romLength, hcoded.follow, hstop.symm, ?_⟩
    show d.romLength + i.instruction.opcode.length = d.romLength + (1 + 2 * _)
    rw [hlength]
    rfl

/-- The lines of the instructions. -/
theorem lays_instructions (hplace : Placeable l layout) :
    Lays (fun d => d.position = none ∧ Declared l layout named d ∧ Coded l [] [] d)
      (l.instructions.flatMap (l.instructionPieces l.targets))
      (fun d => d.position = none ∧ Declared l layout named d ∧
        Coded l (l.instructions.map (·.offset)) l.instructions d) := by
  refine Draft.lays_flatMap (fun done d => d.position = none ∧
    Declared l layout named d ∧ Coded l (done.map (·.offset)) done d) ?_
  intro done i rest hxs
  have hfollow := hplace.follow
  rw [hxs] at hfollow
  obtain ⟨middle, hdone, hi, hrest⟩ := follow_append.mp hfollow
  rw [← hi] at hdone hrest
  have hnew : i.offset ∉ done.map (·.offset) := by
    intro hmem
    obtain ⟨j, hj, heq⟩ := List.mem_map.mp hmem
    have hlt := hdone.offset_lt hj
    rw [heq] at hlt
    exact Nat.lt_irrefl _ hlt
  have hcomplete := hplace.complete i (by simp [hxs])
  have hspace := Nat.le_trans hrest.le hplace.length
  rw [List.map_append]
  exact (lays_labelPieces hdone hnew).append (lays_statementPieces hdone hcomplete hspace)

end Code

/-- The lines of a listing. -/
theorem lays_sourcePieces {l : Listing} {layout : Layout}
    (hplace : Placeable l layout) :
    Lays (· = Draft.empty layout) l.sourcePieces
      (fun d => d.position = none ∧ Relaid l layout d) := by
  have hlength := hplace.length
  have hend : l.image.rom.length.toUInt16.toNat = l.image.rom.length :=
    Nat.toNat_toUInt16_of_le (by omega)
  have hnew : l.image.rom.length.toUInt16 ∉ l.instructions.map (·.offset) := by
    intro hmem
    obtain ⟨i, hi, heq⟩ := List.mem_map.mp hmem
    have hlt := hplace.follow.offset_lt hi
    rw [heq, hend] at hlt
    exact Nat.lt_irrefl _ hlt
  have hfollow := hplace.follow
  rw [← hend] at hfollow
  unfold sourcePieces
  have hdata : Lays (· = Draft.empty layout) l.dataPieces (fun d => d.position = none ∧
      Declared l layout l.declaredVariables d ∧ Coded l [] [] d) :=
    (lays_dataPieces hplace).imp fun d ⟨hclosed, hcode, hd⟩ => ⟨hclosed, hd, coded_of_code hcode⟩
  refine Lays.cons (Draft.lays_empty_line fun d hd => hd)
    (((hdata.append (lays_instructions hplace)).append (lays_labelPieces hfollow hnew)).imp ?_)
  intro d h
  rcases h with ⟨hclosed, hd, hcoded⟩
  exact ⟨hclosed, hd, hcoded⟩

theorem Relaid.dataEnd {l : Listing} {layout : Layout} {d : Draft} (h : Relaid l layout d) :
    d.dataEnd = l.dataEnd := h.declared.dataEnd.trans l.endOf_declaredVariables

/-- Where the memory of the image is zero, that of the draft is. -/
theorem Relaid.byteAt_eq_zero {l : Listing} {layout : Layout} {d : Draft} (h : Relaid l layout d)
    {k : Nat} (hk : l.image.memory.getD k 0 = 0) : d.memory.byteAt k = 0 := by
  by_contra hne
  obtain ⟨v, hv, hle, hlt⟩ := h.declared.covered k hne
  exact hne ((h.declared.written v hv k hle (Nat.le_of_lt hlt)).trans hk)

/-- Where no operand is a string literal, the draft has all of the memory of the image. -/
theorem Relaid.byteAt {l : Listing} {layout : Layout} {d : Draft}
    (h : Relaid l layout d) (hnone : ∀ a, a ∉ l.addresses .str) (k : Nat) :
    d.memory.byteAt k = l.image.memory.getD k 0 := by
  by_cases hk : l.image.memory.getD k 0 = 0
  · rw [hk, h.byteAt_eq_zero hk]
  · obtain ⟨v, hv, hle, hlt⟩ := exists_declared hnone hk
    exact h.declared.written v hv k hle (Nat.le_of_lt hlt)

/-- The source text of a listing is taken. -/
theorem exists_read_source {l : Listing} {config : Config} {layout : Layout}
    (hlayout : config.layout = .ok layout) (hplace : Placeable l layout) :
    ∃ d, Draft.read l.source config = .ok d ∧ Relaid l layout d := by
  obtain ⟨lines, hread, hlines⟩ := l.read_source
  obtain ⟨d, hrun, hclosed, hrelaid⟩ :=
    lays_sourcePieces hplace lines (Draft.empty layout) hlines rfl
  refine ⟨d, Draft.read_eq_ok_iff.mpr ⟨layout, lines, hlayout, hread, ?_⟩, hrelaid⟩
  exact Draft.addLines_eq_ok_iff.mpr ⟨hrun, hclosed⟩

end Listing

end TeachingCpu
