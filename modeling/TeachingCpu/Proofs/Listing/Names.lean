import TeachingCpu.Proofs.Listing.Coverage
import TeachingCpu.Proofs.Listing.Pieces

/-!
# The names of a listing

Labels at different code addresses have different names, as have variables at different memory
addresses, and no name is one of the words that an assembler reads as something else.
-/

namespace TeachingCpu.Listing

open Draft (dataWord endWord originWord)

/-! ## Labels -/

section Labels

variable {l : Listing} {targets : List Nat} {a b : UInt16} {name : String}

/-- A label names the entry, or a target of a label operand by its address. -/
theorem labelAt?_cases (h : l.labelAt? targets a = some name) :
    (a = l.image.entry ∧ name = entryLabel) ∨ name = "L_" ++ Text.hex 4 a.toNat := by
  unfold labelAt? at h
  split at h
  · next hentry =>
    cases h
    exact .inl ⟨hentry, rfl⟩
  · split at h
    · cases h
      exact .inr rfl
    · cases h

theorem labelAt?_entry : l.labelAt? targets l.image.entry = some entryLabel := if_pos rfl

theorem exists_labelAt? (h : a.toNat ∈ targets) : ∃ name, l.labelAt? targets a = some name := by
  unfold labelAt?
  rw [if_pos (c := targets.contains a.toNat = true) (by simpa using h)]
  split
  · exact ⟨_, rfl⟩
  · exact ⟨_, rfl⟩

theorem entryLabel_ne (n : Nat) : entryLabel ≠ "L_" ++ Text.hex 4 n := by
  intro h
  have hlist := congrArg (fun s => s.toList.head?) h
  simp [String.toList_append, entryLabel] at hlist

/-- Labels at different code addresses have different names. -/
theorem labelAt?_injective (ha : l.labelAt? targets a = some name)
    (hb : l.labelAt? targets b = some name) : a = b := by
  rcases labelAt?_cases ha with ⟨rfl, rfl⟩ | rfl
  · rcases labelAt?_cases hb with ⟨hentry, -⟩ | hname
    · exact hentry.symm
    · exact absurd hname (entryLabel_ne _)
  · rcases labelAt?_cases hb with ⟨-, hname⟩ | hname
    · exact absurd hname.symm (entryLabel_ne _)
    · have ha := Text.lt_integerBound (Nat.le_of_lt_succ a.toNat_lt)
      have hb := Text.lt_integerBound (Nat.le_of_lt_succ b.toNat_lt)
      exact UInt16.toNat_inj.mp (Text.hex_injective ha hb ((String.append_right_inj _).mp hname))

/-- The line of a label does not open a data block. -/
theorem lower_label_ne (h : l.labelAt? targets a = some name) :
    Text.lower ("." ++ name) ≠ dataWord := by
  intro hlower
  have hlist := congrArg (fun s => s.toList[1]?) hlower
  rcases labelAt?_cases h with ⟨-, rfl⟩ | rfl
  · exact absurd hlower (by decide)
  · simp [Text.lower, String.toList_append, dataWord] at hlist

end Labels

/-! ## Variables -/

section Variables

variable {l : Listing} {a b : Nat} {name : String}

theorem mem_addresses_iff {mode : Mode} :
    a ∈ l.addresses mode ↔ ∃ o ∈ l.operands, o.mode = mode ∧ o.value.toNat = a := by
  unfold addresses
  simp only [List.mem_filter, List.mem_range, List.contains_iff_mem, List.mem_map,
    decide_eq_true_eq]
  constructor
  · intro h
    rcases h with ⟨-, o, ⟨ho, hmode⟩, rfl⟩
    exact ⟨o, ho, hmode, rfl⟩
  · intro h
    rcases h with ⟨o, ho, hmode, rfl⟩
    exact ⟨o.value.toNat_lt, o, ⟨ho, hmode⟩, rfl⟩

theorem mem_declaredVariables_iff :
    (a, name) ∈ l.declaredVariables ↔
      (a ∈ l.addresses .data ∧ name = variableName a) ∨
        (a ∈ l.unreached ∧ name = "mem_" ++ Text.hex 4 a) := by
  unfold declaredVariables
  rw [List.mem_merge, List.mem_map, List.mem_map]
  constructor
  · intro h
    rcases h with ⟨address, haddress, heq⟩ | ⟨address, haddress, heq⟩
    · cases heq
      exact .inl ⟨haddress, rfl⟩
    · cases heq
      exact .inr ⟨haddress, rfl⟩
  · intro h
    rcases h with ⟨haddress, rfl⟩ | ⟨haddress, rfl⟩
    · exact .inl ⟨a, haddress, rfl⟩
    · exact .inr ⟨a, haddress, rfl⟩

theorem mem_unreached_iff :
    a ∈ l.unreached ↔ StartsRun l.image.memory a ∧ a ∉ l.addresses .data ∧
      a ∉ l.addresses .str := by
  unfold unreached
  rw [List.mem_filter, mem_runStarts_iff]
  simp

theorem perm_declaredVariables (l : Listing) : l.declaredVariables.Perm
    ((l.addresses .data).map (fun a => (a, variableName a)) ++
      l.unreached.map fun a => (a, "mem_" ++ Text.hex 4 a)) :=
  List.merge_perm_append _

/-- Memory is short enough for its addresses to have different names. -/
def MemoryBelow (l : Listing) : Prop := l.image.memory.length ≤ Text.integerBound

theorem nodup_map_snd_declaredVariables (h : l.MemoryBelow) :
    (l.declaredVariables.map Prod.snd).Nodup := by
  have hdata : ∀ {a}, a ∈ l.addresses .data → a < Text.integerBound := by
    intro a ha
    obtain ⟨o, -, -, rfl⟩ := mem_addresses_iff.mp ha
    exact Text.toNat_lt_integerBound o.value
  have hmemory : ∀ {a}, a ∈ l.unreached → a < Text.integerBound := by
    intro a ha
    exact Nat.lt_of_lt_of_le (mem_unreached_iff.mp ha).1.lt h
  rw [(l.perm_declaredVariables.map Prod.snd).nodup_iff, List.map_append, List.map_map,
    List.map_map, List.nodup_append]
  refine ⟨?_, ?_, ?_⟩
  · apply List.Nodup.map_on
    · intro a ha b hb heq
      exact Text.hex_injective (hdata ha) (hdata hb) ((String.append_right_inj _).mp heq)
    · exact List.nodup_range.filter _
  · apply List.Nodup.map_on
    · intro a ha b hb heq
      exact Text.hex_injective (hmemory ha) (hmemory hb) ((String.append_right_inj _).mp heq)
    · exact (nodup_runStarts _).filter _
  · intro x hx y hy heq
    obtain ⟨a, -, rfl⟩ := List.mem_map.mp hx
    obtain ⟨b, -, rfl⟩ := List.mem_map.mp hy
    have hhead := congrArg (fun s => s.toList.head?) heq
    simp [String.toList_append, variableName] at hhead

/-- Where no operand is a string literal, every byte that is not zero is declared. -/
theorem exists_declared (hnone : ∀ a, a ∉ l.addresses .str) {k : Nat}
    (hk : l.image.memory.getD k 0 ≠ 0) :
    ∃ v ∈ l.declaredVariables, v.1 ≤ k ∧ k < v.1 + (l.groupAt v.1).length := by
  obtain ⟨a, ha, hstart, hrun⟩ := exists_runStart hk
  have hlength : k - a + 1 ≤ (l.groupAt a).length := by
    apply le_length_groupAt
    intro j hj
    exact hrun (a + j) (Nat.le_add_right a j) (by omega)
  by_cases hdata : a ∈ l.addresses .data
  · refine ⟨(a, variableName a), mem_declaredVariables_iff.mpr (.inl ⟨hdata, rfl⟩), ha, ?_⟩
    show k < a + (l.groupAt a).length
    omega
  · have hunreached := mem_unreached_iff.mpr ⟨hstart, hdata, hnone a⟩
    refine ⟨(a, _), mem_declaredVariables_iff.mpr (.inr ⟨hunreached, rfl⟩), ha, ?_⟩
    show k < a + (l.groupAt a).length
    omega

/-- A variable of a listing is not one of the words of data blocks. -/
theorem name_ne_of_mem_declaredVariables (h : (a, name) ∈ l.declaredVariables) :
    name ≠ endWord ∧ name ≠ originWord := by
  have hhead : name.toList.head? = some 'd' ∨ name.toList.head? = some 'm' := by
    rcases mem_declaredVariables_iff.mp h with ⟨-, rfl⟩ | ⟨-, rfl⟩
    · simp [String.toList_append, variableName]
    · simp [String.toList_append]
  constructor
  · intro heq
    simp [heq, endWord] at hhead
  · intro heq
    simp [heq, originWord] at hhead

end Variables

end TeachingCpu.Listing
