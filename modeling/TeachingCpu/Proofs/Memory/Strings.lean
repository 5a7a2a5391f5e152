import TeachingCpu.Proofs.Memory

/-!
# Strings and stretches of memory

A string in memory ends at its first zero byte (`HoldsString`), and reading finds exactly these
strings. The accesses to whole stretches succeed where all addresses of the stretch are in memory;
an empty stretch has none.
-/

namespace TeachingCpu.Memory

variable {m : Memory} {address : Nat}

/-- A string is in memory: its bytes, of which none is zero, and a zero behind them. -/
structure HoldsString (m : Memory) (address : Nat) (bytes : List UInt8) : Prop where
  fits : address + bytes.length ≤ m.layout.lastAddressable.toNat
  contents : m.bytesAt address (bytes.length + 1) = bytes ++ [0]
  nonzero : 0 ∉ bytes

theorem bytesAt_succ (m : Memory) (address length : Nat) :
    m.bytesAt address (length + 1) = m.byteAt address :: m.bytesAt (address + 1) length := by
  unfold bytesAt
  rw [List.range_succ_eq_map, List.map_cons, List.map_map]
  refine congrArg _ (List.map_congr_left fun k _ => ?_)
  exact congrArg m.byteAt (by simp; omega)

theorem holdsString_nil_iff :
    m.HoldsString address [] ↔
      address ≤ m.layout.lastAddressable.toNat ∧ m.byteAt address = 0 := by
  constructor
  · intro h
    exact ⟨h.fits, (List.cons.inj (bytesAt_succ m address 0 ▸ h.contents)).1⟩
  · rintro ⟨hfits, hzero⟩
    refine ⟨hfits, ?_, List.not_mem_nil⟩
    rw [List.length_nil, bytesAt_succ, hzero]
    rfl

theorem holdsString_cons_iff {b : UInt8} {bytes : List UInt8} :
    m.HoldsString address (b :: bytes) ↔
      m.byteAt address = b ∧ b ≠ 0 ∧ m.HoldsString (address + 1) bytes := by
  have hfits : address + 1 + bytes.length = address + (b :: bytes).length := by
    rw [List.length_cons]
    omega
  constructor
  · intro h
    have hcontents := h.contents
    rw [bytesAt_succ, List.cons_append, List.cons.injEq] at hcontents
    obtain ⟨hb, hbytes⟩ := not_or.mp (List.mem_cons.not.mp h.nonzero)
    exact ⟨hcontents.1, Ne.symm hb, hfits ▸ h.fits, hcontents.2, hbytes⟩
  · rintro ⟨hbyte, hb, h⟩
    refine ⟨hfits ▸ h.fits, ?_, List.mem_cons.not.mpr (not_or.mpr ⟨Ne.symm hb, h.nonzero⟩)⟩
    rw [bytesAt_succ, hbyte, List.length_cons, h.contents, List.cons_append]

theorem readStringFrom_eq_ok_iff {done result : List UInt8} :
    m.readStringFrom address done = .ok result ↔
      ∃ bytes, result = done.reverse ++ bytes ∧ m.HoldsString address bytes := by
  fun_induction readStringFrom m address done with
  | case1 address done hle hzero =>
    constructor
    · intro h
      cases h
      exact ⟨[], (List.append_nil _).symm, holdsString_nil_iff.mpr ⟨hle, hzero⟩⟩
    · rintro ⟨bytes, rfl, h⟩
      cases bytes with
      | nil => rw [List.append_nil]
      | cons b bytes =>
        obtain ⟨hbyte, hb, -⟩ := holdsString_cons_iff.mp h
        exact absurd (hbyte.symm.trans hzero) hb
  | case2 address done _ hbyte ih =>
    rw [ih]
    constructor
    · rintro ⟨bytes, rfl, h⟩
      refine ⟨m.byteAt address :: bytes, ?_, holdsString_cons_iff.mpr ⟨rfl, hbyte, h⟩⟩
      rw [List.reverse_cons, List.append_assoc]
      rfl
    · rintro ⟨bytes, rfl, h⟩
      cases bytes with
      | nil => exact absurd (holdsString_nil_iff.mp h).2 hbyte
      | cons b bytes =>
        obtain ⟨rfl, -, h⟩ := holdsString_cons_iff.mp h
        exact ⟨bytes, by simp, h⟩
  | case3 address done hbeyond =>
    constructor
    · exact nofun
    · rintro ⟨bytes, -, h⟩
      have hfits := h.fits
      omega

/-- The string that is read is the one that is in memory. -/
theorem readString_eq_ok_iff {bytes : List UInt8} :
    m.readString address = .ok bytes ↔ m.HoldsString address bytes := by
  unfold readString
  rw [readStringFrom_eq_ok_iff]
  simp

theorem refuses_readStringFrom {P : Cause → Prop} [Cause.CoversAddress P] (m : Memory)
    (address : Nat) (done : List UInt8) : Refuses P (m.readStringFrom address done) := by
  fun_induction readStringFrom m address done with
  | case1 => exact refuses_ok _
  | case2 _ _ _ _ ih => exact ih
  | case3 => exact refuses_of (Cause.CoversAddress.addressOutside _ _)

/-! ## Stretches -/

theorem length_bytesAt (m : Memory) (address length : Nat) :
    (m.bytesAt address length).length = length := by
  rw [bytesAt, List.length_map, List.length_range]

theorem getD_bytesAt {length k : Nat} (h : k < length) :
    (m.bytesAt address length).getD k 0 = m.byteAt (address + k) := by
  rw [List.getD_eq_getElem _ _ (by rwa [length_bytesAt])]
  simp [bytesAt]

/-- All addresses of a stretch are in memory. -/
def InRange (m : Memory) (address length : Nat) : Prop :=
  ∀ k < length, address + k ≤ m.layout.lastAddressable.toNat

theorem inRange_zero (m : Memory) (address : Nat) : m.InRange address 0 := nofun

/-- A stretch in memory is no longer than memory is. -/
theorem InRange.length_le {length : Nat} (h : m.InRange address length) :
    length ≤ m.layout.lastAddressable.toNat + 1 := by
  cases length with
  | zero => exact Nat.zero_le _
  | succ length =>
    have hlast := h length (Nat.lt_succ_self length)
    omega

theorem inRange_succ_iff {length : Nat} :
    m.InRange address (length + 1) ↔ address + length ≤ m.layout.lastAddressable.toNat := by
  constructor
  · exact fun h => h length (Nat.lt_succ_self length)
  · intro h k hk
    omega

theorem slice_eq_ok_iff {length : Nat} {bytes : List UInt8} :
    m.slice address length = .ok bytes ↔
      m.InRange address length ∧ bytes = m.bytesAt address length := by
  unfold slice
  cases length with
  | zero =>
    constructor
    · intro h
      cases h
      exact ⟨m.inRange_zero address, rfl⟩
    · rintro ⟨-, rfl⟩
      rfl
  | succ length =>
    rw [if_neg (Nat.succ_ne_zero length), Except.bind_eq_ok_iff, inRange_succ_iff]
    constructor
    · rintro ⟨_, -, h⟩
      obtain ⟨_, hend, h⟩ := Except.bind_eq_ok_iff.mp h
      cases h
      exact ⟨check_eq_ok_iff.mp hend, rfl⟩
    · rintro ⟨hend, rfl⟩
      refine ⟨(), check_eq_ok_iff.mpr (by omega), ?_⟩
      exact Except.bind_eq_ok_iff.mpr ⟨(), check_eq_ok_iff.mpr hend, rfl⟩

theorem load_eq_ok_iff {bytes : List UInt8} {m' : Memory} :
    m.load address bytes = .ok m' ↔
      m.InRange address bytes.length ∧ m' = m.replace address bytes := by
  cases bytes with
  | nil =>
    constructor
    · intro h
      exact ⟨m.inRange_zero address, eq_replace_of_load h⟩
    · rintro ⟨-, rfl⟩
      rfl
  | cons b rest =>
    rw [List.length_cons, inRange_succ_iff]
    constructor
    · intro h
      obtain ⟨_, hend, -⟩ := Except.bind_eq_ok_iff.mp h
      exact ⟨check_eq_ok_iff.mp hend, eq_replace_of_load h⟩
    · rintro ⟨hend, rfl⟩
      exact load_eq_replace (by rw [List.length_cons]; omega)

/-- A stretch that is replaced has the new bytes behind that. -/
theorem bytesAt_replace {bytes : List UInt8} (hrange : m.InRange address bytes.length)
    (hsize : m.layout.lastAddressable.toNat < m.layout.size) :
    (m.replace address bytes).bytesAt address bytes.length = bytes := by
  have hfits : bytes ≠ [] → address + bytes.length ≤ m.layout.size := by
    intro hne
    have hlast := hrange (bytes.length - 1) (Nat.sub_lt (List.length_pos_iff.mpr hne) one_pos)
    omega
  apply List.ext_getElem
  · exact length_bytesAt _ _ _
  · intro k hk hk'
    rw [← List.getD_eq_getElem _ 0, ← List.getD_eq_getElem _ 0, getD_bytesAt hk']
    exact byteAt_replace_inside (hfits (List.ne_nil_of_length_pos (Nat.zero_lt_of_lt hk'))) hk'

/-- A string that is stored is in memory behind that. -/
theorem holdsString_replace {bytes : List UInt8} (hnonzero : 0 ∉ bytes)
    (hfits : address + bytes.length ≤ m.layout.lastAddressable.toNat)
    (hsize : m.layout.lastAddressable.toNat < m.layout.size) :
    (m.replace address (bytes ++ [0])).HoldsString address bytes := by
  have hrange : m.InRange address (bytes ++ [0]).length := by
    rw [List.length_append]
    exact inRange_succ_iff.mpr hfits
  have hcontents := bytesAt_replace hrange hsize
  rw [List.length_append] at hcontents
  exact ⟨hfits, hcontents, hnonzero⟩

end TeachingCpu.Memory
