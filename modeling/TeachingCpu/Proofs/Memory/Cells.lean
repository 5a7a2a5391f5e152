import TeachingCpu.Proofs.Memory.Strings

/-!
# Memory as a row of cells

The bytes of a memory, in order, are a row of cells. For a memory of at most 65535 bytes each access
is told here by this row: its addresses have to be places of the row, what is read stands in it, and
what is written takes the place of as many cells (`toList_replace`).
-/

namespace TeachingCpu

/-- A row of cells with other bytes from an address on. -/
def overlay (cells : List UInt8) (address : Nat) (bytes : List UInt8) : List UInt8 :=
  cells.take address ++ bytes ++ cells.drop (address + bytes.length)

section Overlay

variable {cells : List UInt8} {address : Nat}

theorem overlay_nil (cells : List UInt8) (address : Nat) : overlay cells address [] = cells := by
  rw [overlay, List.append_nil, List.length_nil, Nat.add_zero, List.take_append_drop]

theorem length_overlay {bytes : List UInt8} (h : address + bytes.length ≤ cells.length) :
    (overlay cells address bytes).length = cells.length := by
  simp only [overlay, List.length_append, List.length_take, List.length_drop]
  omega

theorem getElem?_overlay {bytes : List UInt8} (h : address + bytes.length ≤ cells.length)
    (k : Nat) :
    (overlay cells address bytes)[k]? =
      if address ≤ k ∧ k < address + bytes.length then bytes[k - address]? else cells[k]? := by
  have hfront : (cells.take address).length = address := by
    rw [List.length_take]
    omega
  rw [overlay, List.append_assoc]
  rcases Nat.lt_or_ge k address with hbefore | hfrom
  · rw [if_neg (by omega), List.getElem?_append_left (by omega), List.getElem?_take_of_lt hbefore]
  · rw [List.getElem?_append_right (by omega), hfront]
    rcases Nat.lt_or_ge (k - address) bytes.length with hin | hbehind
    · rw [if_pos (by omega), List.getElem?_append_left hin]
    · rw [if_neg (by omega), List.getElem?_append_right hbehind, List.getElem?_drop]
      congr 1
      omega

theorem overlay_singleton (h : address < cells.length) (value : UInt8) :
    overlay cells address [value] = cells.set address value := by
  apply List.ext_getElem?
  intro k
  rw [getElem?_overlay h, List.getElem?_set]
  grind

/-- Two cells next to each other. -/
theorem overlay_pair (h : address + 1 < cells.length) (low high : UInt8) :
    overlay cells address [low, high] = (cells.set address low).set (address + 1) high := by
  apply List.ext_getElem?
  intro k
  rw [getElem?_overlay h, List.getElem?_set, List.getElem?_set, List.length_set]
  grind

end Overlay

/-- A row with a zero in it falls apart at the first one. -/
theorem exists_split_of_zero_mem {cells : List UInt8} (h : 0 ∈ cells) :
    ∃ rest, cells = cells.takeWhile (· != 0) ++ 0 :: rest := by
  induction cells with
  | nil => cases h
  | cons b cells ih =>
    by_cases hb : b = 0
    · exact ⟨cells, by simp [hb]⟩
    · obtain ⟨rest, hrest⟩ := ih ((List.mem_cons.mp h).resolve_left (Ne.symm hb))
      refine ⟨rest, ?_⟩
      rw [List.takeWhile_cons_of_pos (by simpa using hb), List.cons_append, ← hrest]

namespace Memory

variable {m : Memory} {address : Nat}

/-! ## Bytes in order -/

/-- A row is that of a memory if it is as long and has the same bytes. -/
theorem toList_eq_of_getD {cells : List UInt8} (hlength : cells.length = m.layout.size)
    (h : ∀ k < m.layout.size, cells.getD k 0 = m.byteAt k) : m.toList = cells := by
  apply List.ext_getElem
  · rw [length_toList, hlength]
  · intro k hk hk'
    rw [← List.getD_eq_getElem _ 0, ← List.getD_eq_getElem _ 0, getD_toList]
    exact (h k (hlength ▸ hk')).symm

theorem toList_clear (m : Memory) : m.clear.toList = List.replicate m.toList.length 0 := by
  rw [length_toList]
  exact Array.toList_replicate

theorem bytesAt_eq_take {length : Nat} (h : address + length ≤ m.layout.size) :
    m.bytesAt address length = (m.toList.drop address).take length := by
  have hcells := m.length_toList
  apply List.ext_getElem
  · rw [length_bytesAt, List.length_take, List.length_drop]
    omega
  · intro k hk hk'
    rw [length_bytesAt] at hk
    rw [← List.getD_eq_getElem _ 0, getD_bytesAt hk, List.getElem_take, ← getD_drop_toList,
      List.getD_eq_getElem]

/-- The contents that the image of a memory is loaded with at the start of cleared memory are those
of the memory. -/
theorem replace_clear_image (m : Memory) : m.clear.replace 0 m.image = m := by
  refine eq_of_byteAt rfl fun k => ?_
  rw [byteAt_replace]
  split
  · rw [Nat.sub_zero, clear, byteAt_zeroed, getD_image]
  · next hk =>
    have hsize : m.layout.size ≤ k := Nat.le_of_not_lt fun h => hk ⟨Nat.zero_le k, h⟩
    rw [clear, byteAt_zeroed, byteAt_of_size_le hsize]

section Sized

variable (hmin : 0 < m.layout.size) (hmax : m.layout.size ≤ 65535)

include hmin hmax

/-- The last address is the last place. -/
theorem le_lastAddressable_iff :
    address ≤ m.layout.lastAddressable.toNat ↔ address < m.layout.size := by
  rw [Layout.lastAddressable_eq hmax]
  omega

theorem inRange_iff {length : Nat} :
    m.InRange address length ↔ length = 0 ∨ address + length ≤ m.layout.size := by
  cases length with
  | zero => exact iff_of_true (m.inRange_zero address) (.inl rfl)
  | succ length =>
    rw [inRange_succ_iff, le_lastAddressable_iff hmin hmax]
    omega

theorem toList_replace {bytes : List UInt8} (h : m.InRange address bytes.length) :
    (m.replace address bytes).toList = overlay m.toList address bytes := by
  rcases (inRange_iff hmin hmax).mp h with hempty | hfits
  · rw [List.length_eq_zero_iff.mp hempty, overlay_nil]
    rfl
  · rw [← length_toList] at hfits
    refine toList_eq_of_getD ((length_overlay hfits).trans m.length_toList) fun k hk => ?_
    rw [List.getD_eq_getElem?_getD, getElem?_overlay hfits]
    split
    · next hin =>
      obtain ⟨i, rfl⟩ := Nat.exists_eq_add_of_le hin.1
      rw [byteAt_replace_inside (by rwa [length_toList] at hfits) (by omega),
        Nat.add_sub_cancel_left, List.getD_eq_getElem?_getD]
    · next hout =>
      rw [byteAt_replace_outside (by omega), ← getD_toList, List.getD_eq_getElem?_getD]

/-! ## Accesses -/

theorem check_bind_eq_ok_iff {α : Type} {f : Unit → Except Error α} {a : α} :
    (m.check address >>= f) = .ok a ↔ address < m.layout.size ∧ f () = .ok a := by
  rw [Except.bind_eq_ok_iff, ← le_lastAddressable_iff hmin hmax, ← check_eq_ok_iff]
  exact ⟨fun ⟨_, h⟩ => h, fun h => ⟨(), h⟩⟩

theorem readByte_eq_ok_iff {value : UInt8} :
    m.readByte address = .ok value ↔ address < m.layout.size ∧ value = m.byteAt address := by
  unfold readByte
  rw [check_bind_eq_ok_iff hmin hmax]
  exact and_congr_right fun _ => ⟨fun h => (Except.ok.inj h).symm, fun h => congrArg _ h.symm⟩

theorem writeByte_eq_ok_iff {value : UInt8} {m' : Memory} :
    m.writeByte address value = .ok m' ↔
      address < m.layout.size ∧ m' = m.replace address [value] := by
  unfold writeByte
  rw [check_bind_eq_ok_iff hmin hmax]
  exact and_congr_right fun _ => ⟨fun h => (Except.ok.inj h).symm, fun h => congrArg _ h.symm⟩

theorem readWord_eq_ok_iff {value : UInt16} :
    m.readWord address = .ok value ↔
      address + 1 < m.layout.size ∧ value = m.wordAt address := by
  unfold readWord
  rw [check_bind_eq_ok_iff hmin hmax, check_bind_eq_ok_iff hmin hmax]
  constructor
  · rintro ⟨hhigh, -, h⟩
    exact ⟨hhigh, (Except.ok.inj h).symm⟩
  · rintro ⟨hhigh, rfl⟩
    exact ⟨hhigh, Nat.lt_of_succ_lt hhigh, rfl⟩

theorem writeWord_eq_ok_iff {value : UInt16} {m' : Memory} :
    m.writeWord address value = .ok m' ↔
      address + 1 < m.layout.size ∧ m' = m.replace address (wordBytes value) := by
  unfold writeWord
  rw [check_bind_eq_ok_iff hmin hmax, check_bind_eq_ok_iff hmin hmax]
  constructor
  · rintro ⟨-, hhigh, h⟩
    exact ⟨hhigh, (Except.ok.inj h).symm⟩
  · rintro ⟨hhigh, rfl⟩
    exact ⟨Nat.lt_of_succ_lt hhigh, hhigh, rfl⟩

/-- A string ends at the first zero behind its address. -/
theorem holdsString_iff {bytes : List UInt8} :
    m.HoldsString address bytes ↔
      0 ∈ m.toList.drop address ∧ bytes = (m.toList.drop address).takeWhile (· != 0) := by
  have hcells := m.length_toList
  constructor
  · intro h
    have hfits := (le_lastAddressable_iff hmin hmax).mp h.fits
    have hcontents := h.contents
    rw [bytesAt_eq_take (by omega)] at hcontents
    have hsplit := List.take_append_drop (bytes.length + 1) (m.toList.drop address)
    rw [hcontents, List.append_assoc] at hsplit
    rw [← hsplit]
    refine ⟨by simp, ?_⟩
    rw [List.takeWhile_append_of_pos]
    · simp
    · intro b hb
      exact bne_iff_ne.mpr fun hzero => h.nonzero (hzero ▸ hb)
  · rintro ⟨hzero, rfl⟩
    obtain ⟨rest, hsplit⟩ := exists_split_of_zero_mem hzero
    have hnonzero : 0 ∉ (m.toList.drop address).takeWhile (· != 0) := fun hmem =>
      absurd (List.mem_takeWhile_imp hmem) (by decide)
    generalize (m.toList.drop address).takeWhile (· != 0) = bytes at hsplit hnonzero ⊢
    have hlength : address + bytes.length < m.layout.size := by
      have hdrop := congrArg List.length hsplit
      simp only [List.length_append, List.length_cons, List.length_drop] at hdrop
      omega
    refine ⟨(le_lastAddressable_iff hmin hmax).mpr hlength, ?_, hnonzero⟩
    rw [bytesAt_eq_take (by omega), hsplit, List.take_append, List.take_of_length_le (by omega),
      Nat.add_sub_cancel_left]
    rfl

end Sized

end Memory

end TeachingCpu
