import TeachingCpu.Config
import TeachingCpu.Memory.Basic
import TeachingCpu.Proofs.Attempt.Raises

/-!
# Contents of a memory

The bytes of a memory are read through `Memory.byteAt`. Its image, in which the zero bytes at the
end are left out, is the one list of bytes that continues with zeros to the same contents and does
not end in a zero (`image_eq_iff`).
-/

namespace TeachingCpu

/-! ## Layouts -/

theorem Architecture.maxMemory_le {width : ArchWidth} {machine : Architecture}
    (h : ofWidth? width = some machine) : machine.maxMemory ≤ 65535 := by
  cases width <;> cases h
  decide

/-- A layout that a configuration gives holds as many bytes as it says, within sixteen bits. -/
theorem Config.size_of_layout {config : Config} {layout : Layout}
    (h : config.layout = .ok layout) :
    layout.size = config.memorySize ∧ 16 ≤ layout.size ∧ layout.size ≤ 65535 := by
  obtain ⟨machine, hmachine, hshares⟩ := Except.bind_eq_ok_iff.mp h
  have hmax : machine.maxMemory ≤ 65535 := by
    unfold architecture at hmachine
    cases hwidth : Architecture.ofWidth? config.width with
    | none =>
      rw [hwidth] at hmachine
      cases hmachine
    | some machine' =>
      rw [hwidth] at hmachine
      cases hmachine
      exact Architecture.maxMemory_le hwidth
  unfold Layout.ofShares at hshares
  dsimp only at hshares
  split at hshares
  · cases hshares
  · next hsize =>
    rw [Layout.minSize] at hsize
    split at hshares
    · cases hshares
    · split at hshares
      · cases hshares
      · cases hshares
        refine ⟨rfl, ?_, ?_⟩ <;> dsimp only <;> omega

namespace Layout

theorem lastAddressable_eq {layout : Layout} (h : layout.size ≤ 65535) :
    layout.lastAddressable.toNat = layout.size - 1 :=
  Nat.toNat_toUInt16_of_le (by omega)

theorem lastAddressable_lt {layout : Layout} (h : 0 < layout.size) :
    layout.lastAddressable.toNat < layout.size := by
  have hle : (layout.size - 1) % 65536 ≤ layout.size - 1 := Nat.mod_le _ _
  rw [lastAddressable, Nat.toUInt16_eq, UInt16.toNat_ofNat']
  omega

end Layout

namespace Memory

/-! ## Bytes in order -/

theorem length_toList (m : Memory) : m.toList.length = m.layout.size := by
  rw [← m.size_cells]
  rfl

theorem getD_toList (m : Memory) (k : Nat) : m.toList.getD k 0 = m.byteAt k := by
  unfold byteAt toList
  split
  · next h =>
    rw [List.getD_eq_getElem _ _ (by simpa using h)]
    rfl
  · next h => exact List.getD_eq_default _ _ (by simpa using h)

/-- Bytes from an address on, by their places. -/
theorem getD_drop_toList (m : Memory) (address k : Nat) :
    (m.toList.drop address).getD k 0 = m.byteAt (address + k) := by
  rw [← getD_toList, List.getD_eq_getElem?_getD, List.getD_eq_getElem?_getD, List.getElem?_drop]

/-- Memories of one layout with the same bytes are the same. -/
theorem eq_of_byteAt {m n : Memory} (hlayout : m.layout = n.layout)
    (h : ∀ k, m.byteAt k = n.byteAt k) : m = n := by
  have hlist : m.toList = n.toList := by
    apply List.ext_getElem
    · rw [length_toList, length_toList, hlayout]
    · intro k hk hk'
      rw [← List.getD_eq_getElem _ 0, ← List.getD_eq_getElem _ 0, getD_toList, getD_toList, h]
  have hcells : m.cells = n.cells := ByteArray.ext (Array.toList_inj.mp hlist)
  cases m
  cases n
  cases hlayout
  cases hcells
  rfl

/-! ## Images -/

theorem reverse_image (m : Memory) : m.image.reverse = m.toList.reverse.dropWhile (· == 0) :=
  List.reverse_reverse _

theorem length_image_le (m : Memory) : m.image.length ≤ m.layout.size := by
  have hsuffix := (List.dropWhile_suffix (l := m.toList.reverse) (· == 0)).length_le
  rwa [← reverse_image, List.length_reverse, List.length_reverse, length_toList] at hsuffix

theorem getLast?_image_ne_zero (m : Memory) : m.image.getLast? ≠ some 0 := by
  rw [← List.head?_reverse, reverse_image]
  intro h
  have hhead := List.head?_dropWhile_not (· == 0) m.toList.reverse
  rw [h] at hhead
  cases hhead

/-- The bytes behind the image are zero. -/
theorem exists_toList_eq (m : Memory) :
    ∃ n, m.toList = m.image ++ List.replicate n 0 := by
  have hsplit := List.takeWhile_append_dropWhile (p := (· == (0 : UInt8))) (l := m.toList.reverse)
  have hzeros : m.toList.reverse.takeWhile (· == 0) =
      List.replicate (m.toList.reverse.takeWhile (· == 0)).length 0 := by
    apply List.eq_replicate_of_mem
    intro b hb
    have hzero : (b == 0) = true := List.mem_takeWhile_imp (p := (· == 0)) hb
    exact beq_iff_eq.mp hzero
  refine ⟨(m.toList.reverse.takeWhile (· == 0)).length, ?_⟩
  rw [← List.reverse_inj, List.reverse_append, reverse_image, List.reverse_replicate, ← hzeros]
  exact hsplit.symm

theorem getD_append_zeros (bytes : List UInt8) (n k : Nat) :
    (bytes ++ List.replicate n 0).getD k 0 = bytes.getD k 0 := by
  rcases Nat.lt_or_ge k bytes.length with hk | hk
  · rw [List.getD_append _ _ _ _ hk]
  · rw [List.getD_append_right _ _ _ _ hk, List.getD_eq_default bytes _ hk,
      List.getD_eq_getElem?_getD, List.getElem?_replicate]
    split <;> rfl

theorem getD_image (m : Memory) (k : Nat) : m.image.getD k 0 = m.byteAt k := by
  obtain ⟨n, hn⟩ := m.exists_toList_eq
  rw [← getD_toList, hn, getD_append_zeros]

/-- A list that does not end in a zero is no longer than one that continues to the same bytes. -/
theorem length_le_of_getD_eq {as bs : List UInt8} (has : as.getLast? ≠ some 0)
    (h : ∀ k, as.getD k 0 = bs.getD k 0) : as.length ≤ bs.length := by
  by_contra hlt
  have hlast : as.getLast? = some (as.getD (as.length - 1) 0) := by
    rw [List.getLast?_eq_getElem?, List.getD_eq_getElem?_getD]
    rw [List.getElem?_eq_getElem (by omega)]
    rfl
  rw [h, List.getD_eq_default bs _ (by omega)] at hlast
  exact has hlast

/-- The image is the one list with the contents of the memory that does not end in a zero. -/
theorem image_eq_iff (m : Memory) (bytes : List UInt8) :
    m.image = bytes ↔ (∀ k, bytes.getD k 0 = m.byteAt k) ∧ bytes.getLast? ≠ some 0 := by
  constructor
  · intro heq
    subst heq
    exact ⟨m.getD_image, m.getLast?_image_ne_zero⟩
  · intro h
    rcases h with ⟨hbytes, hlast⟩
    have hsame : ∀ k, m.image.getD k 0 = bytes.getD k 0 := fun k => by
      rw [getD_image, hbytes]
    have hle := length_le_of_getD_eq m.getLast?_image_ne_zero hsame
    have hge := length_le_of_getD_eq hlast fun k => (hsame k).symm
    apply List.ext_getElem (Nat.le_antisymm hle hge)
    intro k hk hk'
    have hk₂ := hsame k
    rwa [List.getD_eq_getElem _ _ hk, List.getD_eq_getElem _ _ hk'] at hk₂

/-- Memories with the same contents have the same image. -/
theorem image_congr {m n : Memory} (h : ∀ k, m.byteAt k = n.byteAt k) : m.image = n.image := by
  rw [image_eq_iff]
  exact ⟨fun k => by rw [getD_image, h], n.getLast?_image_ne_zero⟩

/-! ## Writing -/

theorem check_eq_ok_iff {m : Memory} {address : Nat} :
    m.check address = .ok () ↔ address ≤ m.layout.lastAddressable.toNat := by
  unfold check
  split
  · next h => exact iff_of_true rfl h
  · next h => exact iff_of_false (fun hok => by cases hok) h

theorem storeString_eq_ok_iff {m : Memory} {address : Nat} {bytes : List UInt8}
    {stored : Nat × Memory} :
    m.storeString address bytes = .ok stored ↔
      address + bytes.length ≤ m.layout.lastAddressable.toNat ∧
        stored = (address + bytes.length, m.replace address (bytes ++ [0])) := by
  unfold storeString
  rw [Except.bind_eq_ok_iff]
  constructor
  · intro hparts
    rcases hparts with ⟨_, hcheck, h⟩
    cases h
    exact ⟨check_eq_ok_iff.mp hcheck, rfl⟩
  · intro hparts
    rcases hparts with ⟨hcheck, rfl⟩
    exact ⟨(), check_eq_ok_iff.mpr hcheck, rfl⟩

theorem writeString_eq_ok_iff {m m' : Memory} {address : Nat} {bytes : List UInt8} :
    m.writeString address bytes = .ok m' ↔
      address + bytes.length ≤ m.layout.lastAddressable.toNat ∧
        m' = m.replace address (bytes ++ [0]) := by
  unfold writeString
  rw [Except.bind_eq_ok_iff]
  constructor
  · intro hparts
    rcases hparts with ⟨_, hstored, h⟩
    obtain ⟨hfits, rfl⟩ := storeString_eq_ok_iff.mp hstored
    cases h
    exact ⟨hfits, rfl⟩
  · intro hparts
    rcases hparts with ⟨hfits, rfl⟩
    exact ⟨_, storeString_eq_ok_iff.mpr ⟨hfits, rfl⟩, rfl⟩

/-- The address that is given for the zero byte behind a string is the one behind its bytes. -/
theorem storeString_eq (m : Memory) (address : Nat) (bytes : List UInt8) :
    m.storeString address bytes =
      (m.writeString address bytes).map fun m' => (address + bytes.length, m') := by
  unfold writeString storeString
  dsimp only
  cases m.check (address + bytes.length) <;> rfl

/-- A byte behind a string that was stored: one of the string, or its zero, or the old one. -/
theorem byteAt_replace_string {m : Memory} {address : Nat} {bytes : List UInt8}
    (h : address + bytes.length < m.layout.size) (k : Nat) :
    (m.replace address (bytes ++ [0])).byteAt k =
      if address ≤ k ∧ k ≤ address + bytes.length then bytes.getD (k - address) 0
      else m.byteAt k := by
  rw [byteAt_replace]
  rcases Nat.lt_or_ge k address with hbefore | hfrom
  · rw [if_neg (by omega), if_neg (by omega)]
  · rcases Nat.lt_or_ge (k - address) bytes.length with hin | hend
    · rw [if_pos (by omega), if_pos (by omega), List.getD_append _ _ _ _ hin,
        List.getD_eq_getElem _ _ hin, List.getD_eq_getElem _ _ hin]
    · rcases Nat.eq_or_lt_of_le hend with heq | hbehind
      · rw [if_pos (by omega), if_pos (by omega), ← heq, List.getD_append_right _ _ _ _ le_rfl,
          List.getD_eq_default bytes _ le_rfl]
        simp
      · rw [if_neg (c := address ≤ k ∧ k ≤ address + bytes.length) (by omega)]
        split
        · rw [List.getD_eq_default _ _ (by simp; omega)]
        · rfl

/-- Bytes in front of a replacement and behind it stay. -/
theorem byteAt_replace_outside {m : Memory} {address k : Nat} {bytes : List UInt8}
    (h : k < address ∨ address + bytes.length ≤ k) :
    (m.replace address bytes).byteAt k = m.byteAt k := by
  rw [byteAt_replace]
  split
  · exact List.getD_eq_default _ _ (by omega)
  · rfl

/-- Where a replacement lies, its bytes are. -/
theorem byteAt_replace_inside {m : Memory} {address k : Nat} {bytes : List UInt8}
    (hfits : address + bytes.length ≤ m.layout.size) (hk : k < bytes.length) :
    (m.replace address bytes).byteAt (address + k) = bytes.getD k 0 := by
  rw [byteAt_replace, if_pos (by omega), Nat.add_sub_cancel_left,
    List.getD_eq_getElem _ _ hk, List.getD_eq_getElem _ _ hk]

theorem eq_replace_of_load {m m' : Memory} {address : Nat} {bytes : List UInt8}
    (h : m.load address bytes = .ok m') : m' = m.replace address bytes := by
  unfold load at h
  cases bytes with
  | nil =>
    cases h
    rfl
  | cons b rest =>
    obtain ⟨_, -, h⟩ := Except.bind_eq_ok_iff.mp h
    cases h
    rfl

theorem length_of_slice {m : Memory} {address length : Nat} {bytes : List UInt8}
    (h : m.slice address length = .ok bytes) : bytes.length = length := by
  unfold slice at h
  split at h
  · next hzero =>
    cases h
    exact hzero.symm
  · obtain ⟨_, -, h⟩ := Except.bind_eq_ok_iff.mp h
    obtain ⟨_, -, h⟩ := Except.bind_eq_ok_iff.mp h
    cases h
    unfold bytesAt
    rw [List.length_map, List.length_range]

theorem load_eq_replace {m : Memory} {address : Nat} {bytes : List UInt8}
    (h : address + bytes.length ≤ m.layout.lastAddressable.toNat + 1) :
    m.load address bytes = .ok (m.replace address bytes) := by
  unfold load
  cases bytes with
  | nil => rfl
  | cons b rest =>
    have hcheck : m.check (address + (b :: rest).length - 1) = .ok () :=
      check_eq_ok_iff.mpr (by omega)
    rw [hcheck]
    rfl

end Memory

/-! ## Accesses that fail -/

/-- A property of the cause for which an access to memory fails. -/
class Cause.CoversAddress (P : Cause → Prop) : Prop where
  addressOutside (address : Nat) (last : UInt16) : P (.addressOutside address last)

instance : Cause.CoversAddress (·.kind = .invalidMemoryAddress) := ⟨fun _ _ => rfl⟩

namespace Memory

variable {P : Cause → Prop} [Cause.CoversAddress P]

theorem refuses_check (m : Memory) (address : Nat) :
    Refuses P (m.check address) := by
  unfold check
  split
  · exact refuses_ok _
  · exact refuses_of (Cause.CoversAddress.addressOutside _ _)

theorem refuses_readByte (m : Memory) (address : Nat) :
    Refuses P (m.readByte address) :=
  refuses_bind (m.refuses_check _) fun _ => refuses_ok _

theorem refuses_writeByte (m : Memory) (address : Nat) (value : UInt8) :
    Refuses P (m.writeByte address value) :=
  refuses_bind (m.refuses_check _) fun _ => refuses_ok _

theorem refuses_readWord (m : Memory) (address : Nat) :
    Refuses P (m.readWord address) :=
  refuses_bind (m.refuses_check _) fun _ => refuses_bind (m.refuses_check _) fun _ => refuses_ok _

theorem refuses_writeWord (m : Memory) (address : Nat) (value : UInt16) :
    Refuses P (m.writeWord address value) :=
  refuses_bind (m.refuses_check _) fun _ => refuses_bind (m.refuses_check _) fun _ => refuses_ok _

theorem refuses_storeString (m : Memory) (address : Nat) (bytes : List UInt8) :
    Refuses P (m.storeString address bytes) :=
  refuses_bind (m.refuses_check _) fun _ => refuses_ok _

theorem refuses_writeString (m : Memory) (address : Nat) (bytes : List UInt8) :
    Refuses P (m.writeString address bytes) :=
  refuses_bind (m.refuses_storeString _ _) fun _ => refuses_ok _

theorem refuses_load (m : Memory) (address : Nat) (bytes : List UInt8) :
    Refuses P (m.load address bytes) := by
  unfold load
  split
  · exact refuses_ok _
  · exact refuses_bind (m.refuses_check _) fun _ => refuses_ok _

theorem refuses_slice (m : Memory) (address length : Nat) :
    Refuses P (m.slice address length) := by
  unfold slice
  split
  · exact refuses_ok _
  · exact refuses_bind (m.refuses_check _) fun _ =>
      refuses_bind (m.refuses_check _) fun _ => refuses_ok _

end Memory

end TeachingCpu
