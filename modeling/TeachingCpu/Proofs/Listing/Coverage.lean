import Mathlib
import TeachingCpu.Listing.Source

/-!
# What a listing declares

Memory falls into runs of bytes that are not zero. The group at an address goes on to the end of
its run, and `mem_runStarts_iff` says where runs start, so that every byte that is not zero belongs
to a run (`exists_runStart`).
-/

namespace TeachingCpu.Listing

/-! ## Groups -/

section Groups

variable (l : Listing) (address : Nat)

theorem getD_memory_drop (k : Nat) :
    (l.image.memory.drop address).getD k 0 = l.image.memory.getD (address + k) 0 := by
  rw [List.getD_eq_getElem?_getD, List.getD_eq_getElem?_getD, List.getElem?_drop]

/-- The bytes of a group are those of the memory, and they are not zero. -/
theorem getD_groupAt {k : Nat} (h : k < (l.groupAt address).length) :
    (l.groupAt address).getD k 0 = l.image.memory.getD (address + k) 0 ∧
      l.image.memory.getD (address + k) 0 ≠ 0 := by
  have hmem := List.mem_takeWhile_imp (List.getElem_mem (l := l.groupAt address) h)
  have hprefix := List.takeWhile_prefix (l := l.image.memory.drop address) (· != 0)
  have hget := hprefix.getElem h
  have hlength := hprefix.length_le
  have hsame : (l.groupAt address).getD k 0 = l.image.memory.getD (address + k) 0 := by
    rw [← getD_memory_drop, List.getD_eq_getElem _ _ h,
      List.getD_eq_getElem _ _ (Nat.lt_of_lt_of_le h hlength)]
    exact hget
  refine ⟨hsame, ?_⟩
  rw [← hsame, List.getD_eq_getElem _ _ h]
  simpa using hmem

theorem zero_notMem_groupAt : 0 ∉ l.groupAt address := by
  intro hzero
  have hmem := List.mem_takeWhile_imp hzero
  simp at hmem

/-- A zero follows a group, inside the memory or behind it. -/
theorem getD_behind_groupAt :
    l.image.memory.getD (address + (l.groupAt address).length) 0 = 0 := by
  rw [← getD_memory_drop]
  unfold groupAt
  generalize l.image.memory.drop address = bytes
  induction bytes with
  | nil => rfl
  | cons b rest ih =>
    by_cases hb : (b != 0) = true
    · rw [List.takeWhile_cons_of_pos (p := (· != 0)) hb, List.length_cons, List.getD_cons_succ]
      exact ih
    · rw [List.takeWhile_cons_of_neg (p := (· != 0)) hb]
      simpa using hb

theorem length_groupAt_le {n : Nat} (h : l.image.memory.getD (address + n) 0 = 0) :
    (l.groupAt address).length ≤ n := by
  by_contra hlt
  exact (l.getD_groupAt address (Nat.lt_of_not_le hlt)).2 h

theorem le_length_groupAt {n : Nat} (h : ∀ k < n, l.image.memory.getD (address + k) 0 ≠ 0) :
    n ≤ (l.groupAt address).length := by
  by_contra hlt
  exact h _ (Nat.lt_of_not_le hlt) (l.getD_behind_groupAt address)

/-- A string in memory is the group at its address. -/
theorem groupAt_eq {bytes : List UInt8} (hzero : 0 ∉ bytes)
    (h : ∀ k ≤ bytes.length, l.image.memory.getD (address + k) 0 = bytes.getD k 0) :
    l.groupAt address = bytes := by
  have hnonzero : ∀ k < bytes.length, l.image.memory.getD (address + k) 0 ≠ 0 := by
    intro k hk hbyte
    rw [h k (Nat.le_of_lt hk), List.getD_eq_getElem _ _ hk] at hbyte
    exact hzero (hbyte ▸ List.getElem_mem hk)
  have hend : l.image.memory.getD (address + bytes.length) 0 = 0 := by
    rw [h _ le_rfl, List.getD_eq_default _ _ le_rfl]
  have hlength : (l.groupAt address).length = bytes.length :=
    Nat.le_antisymm (l.length_groupAt_le address hend) (l.le_length_groupAt address hnonzero)
  apply List.ext_getElem hlength
  intro k hk hk'
  have hk₂ := (l.getD_groupAt address hk).1.trans (h k (Nat.le_of_lt hk'))
  rwa [List.getD_eq_getElem _ _ hk, List.getD_eq_getElem _ _ hk'] at hk₂

end Groups

/-! ## Runs -/

/-- Where a run of bytes that are not zero starts. -/
def StartsRun (bytes : List UInt8) (address : Nat) : Prop :=
  bytes.getD address 0 ≠ 0 ∧ (address = 0 ∨ bytes.getD (address - 1) 0 = 0)

/-- What a scan has seen of some bytes. -/
structure Scanned (bytes : List UInt8) (s : RunScan) : Prop where
  address : s.address = bytes.length
  inRun : s.inRun = true ↔ bytes ≠ [] ∧ bytes.getD (bytes.length - 1) 0 ≠ 0
  starts : ∀ a, a ∈ s.starts ↔ StartsRun bytes a
  nodup : s.starts.Nodup

theorem StartsRun.lt {bytes : List UInt8} {address : Nat} (h : StartsRun bytes address) :
    address < bytes.length := by
  by_contra hle
  exact h.1 (List.getD_eq_default _ _ (Nat.le_of_not_lt hle))

theorem startsRun_append_singleton {bytes : List UInt8} {b : UInt8} {a : Nat} :
    StartsRun (bytes ++ [b]) a ↔ StartsRun bytes a ∨
      (a = bytes.length ∧ b ≠ 0 ∧
        ¬ (bytes ≠ [] ∧ bytes.getD (bytes.length - 1) 0 ≠ 0)) := by
  have hfront : ∀ k < bytes.length, (bytes ++ [b]).getD k 0 = bytes.getD k 0 :=
    fun k hk => List.getD_append _ _ _ _ hk
  have hnew : (bytes ++ [b]).getD bytes.length 0 = b := by
    rw [List.getD_append_right _ _ _ _ le_rfl, Nat.sub_self]
    rfl
  unfold StartsRun
  rcases Nat.lt_trichotomy a bytes.length with hlt | rfl | hgt
  · rw [hfront a hlt, hfront (a - 1) (by omega)]
    simp [Nat.ne_of_lt hlt]
  · rw [hnew, List.getD_eq_default bytes _ le_rfl]
    cases bytes with
    | nil => simp
    | cons first rest =>
      rw [hfront _ (by simp)]
      simp
  · rw [List.getD_eq_default (bytes ++ [b]) _ (by simp; omega),
      List.getD_eq_default bytes _ (Nat.le_of_lt hgt)]
    simp [Nat.ne_of_gt hgt]

/-- Every byte is taken in. -/
theorem Scanned.add {bytes : List UInt8} {s : RunScan} (h : Scanned bytes s) (b : UInt8) :
    Scanned (bytes ++ [b]) (s.add b) := by
  have hlast : (bytes ++ [b]).getD ((bytes ++ [b]).length - 1) 0 = b := by
    rw [List.length_append, List.length_singleton, Nat.add_sub_cancel,
      List.getD_append_right _ _ _ _ le_rfl, Nat.sub_self]
    rfl
  have hlength : (bytes ++ [b]).length = s.address + 1 := by
    rw [List.length_append, List.length_singleton, h.address]
  unfold RunScan.add
  by_cases hb : b = 0
  · rw [if_pos hb]
    refine ⟨hlength.symm, ?_, fun a => ?_, h.nodup⟩
    · rw [hlast]
      simp [hb]
    · rw [startsRun_append_singleton, h.starts a]
      simp [hb]
  · rw [if_neg hb]
    by_cases hin : s.inRun = true
    · rw [if_pos hin]
      have hbefore := h.inRun.mp hin
      refine ⟨hlength.symm, ?_, fun a => ?_, h.nodup⟩
      · rw [hlast]
        simp [hin, hb]
      · rw [startsRun_append_singleton, h.starts a]
        tauto
    · rw [if_neg hin]
      have hbefore := mt h.inRun.mpr hin
      have hnew : s.address ∉ s.starts := fun hmem => by
        have := ((h.starts s.address).mp hmem).lt
        rw [h.address] at this
        exact Nat.lt_irrefl _ this
      refine ⟨hlength.symm, ?_, fun a => ?_, List.nodup_cons.mpr ⟨hnew, h.nodup⟩⟩
      · rw [hlast]
        simp [hb]
      · rw [startsRun_append_singleton, List.mem_cons, h.starts a, h.address]
        tauto

theorem scanned_foldl (bytes : List UInt8) : Scanned bytes (bytes.foldl RunScan.add {}) := by
  induction bytes using List.reverseRecOn with
  | nil => exact ⟨rfl, by simp, by simp [StartsRun], List.nodup_nil⟩
  | append_singleton bytes b ih =>
    rw [List.foldl_append]
    exact ih.add b

theorem mem_runStarts_iff {bytes : List UInt8} {address : Nat} :
    address ∈ runStarts bytes ↔ StartsRun bytes address := by
  rw [runStarts, List.mem_reverse]
  exact (scanned_foldl bytes).starts address

theorem nodup_runStarts (bytes : List UInt8) : (runStarts bytes).Nodup := by
  rw [runStarts, List.nodup_reverse]
  exact (scanned_foldl bytes).nodup

/-- A byte that is not zero belongs to a run. -/
theorem exists_runStart {bytes : List UInt8} {k : Nat} (h : bytes.getD k 0 ≠ 0) :
    ∃ a ≤ k, StartsRun bytes a ∧ ∀ j, a ≤ j → j ≤ k → bytes.getD j 0 ≠ 0 := by
  induction k with
  | zero =>
    refine ⟨0, le_rfl, ⟨h, .inl rfl⟩, fun j _ hj => ?_⟩
    rwa [Nat.le_zero.mp hj]
  | succ k ih =>
    by_cases hk : bytes.getD k 0 = 0
    · refine ⟨k + 1, le_rfl, ⟨h, .inr hk⟩, fun j hj hj' => ?_⟩
      rwa [Nat.le_antisymm hj' hj]
    · obtain ⟨a, ha, hstart, hall⟩ := ih hk
      refine ⟨a, Nat.le_succ_of_le ha, hstart, fun j hj hj' => ?_⟩
      rcases Nat.eq_or_lt_of_le hj' with rfl | hlt
      · exact h
      · exact hall j hj (Nat.le_of_lt_succ hlt)

end TeachingCpu.Listing
