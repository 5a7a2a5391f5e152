import TeachingCpu.Proofs.Cpu.Evolution

/-!
# Pairs and their halves

A pair and its two halves are kept in slots of their own. `Registers.Paired` says that they agree:
each pair is its high half times 256 plus its low half, and each half is a byte. Writing a register
keeps them in agreement, and so does every move of a processor (`Cpu.Evolves.paired`).
-/

namespace TeachingCpu

namespace Register

variable {r s pair pair' low high : Register} {isHigh isHigh' : Bool}

theorem owningPair?_of_halves? (h : pair.halves? = some (low, high)) :
    low.owningPair? = some (pair, false) ∧ high.owningPair? = some (pair, true) := by
  cases pair <;> cases h <;> exact ⟨rfl, rfl⟩

theorem exists_halves? (h : r.owningPair? = some (pair, isHigh)) :
    ∃ low high, pair.halves? = some (low, high) ∧ r = if isHigh then high else low := by
  cases r <;> cases h <;> exact ⟨_, _, rfl, rfl⟩

theorem owningPair?_eq_none (h : r.halves? = some (low, high)) : r.owningPair? = none := by
  cases r <;> cases h <;> rfl

theorem width_eq_byte_iff :
    r.width = .byte ↔ ∃ pair isHigh, r.owningPair? = some (pair, isHigh) := by
  cases r <;> simp [width, owningPair?]

theorem mem_dedicated_iff : r ∈ dedicated ↔ r.halves? = none ∧ r.owningPair? = none := by
  cases r <;> decide

theorem halves?_eq_none (h : r.owningPair? = some (pair, isHigh)) : r.halves? = none := by
  cases r <;> cases h <;> rfl

/-- A register and those that share its bits. -/
def overlapping (r : Register) : List Register :=
  match r.halves?, r.owningPair? with
  | some (low, high), _ => [r, low, high]
  | none, some (pair, _) => [r, pair]
  | none, none => [r]

theorem mem_overlapping_self (r : Register) : r ∈ r.overlapping := by
  cases r <;> decide

/-- A half is no pair. -/
theorem ne_of_owningPair? (hr : r.owningPair? = some (pair, isHigh))
    (hs : s.owningPair? = some (pair', isHigh')) : r ≠ pair' := by
  obtain ⟨low, high, hhalves, -⟩ := exists_halves? hs
  rintro rfl
  rw [owningPair?_eq_none hhalves] at hr
  cases hr

/-- Each half belongs to one pair. -/
theorem ne_of_pair_ne (hr : r.owningPair? = some (pair, isHigh))
    (hs : s.owningPair? = some (pair', isHigh')) (h : pair ≠ pair' ∨ isHigh ≠ isHigh') :
    r ≠ s := by
  rintro rfl
  rw [hr] at hs
  cases hs
  rcases h with h | h <;> exact h rfl

/-- A pair has one low and one high half. -/
theorem eq_of_owningPair? (hr : r.owningPair? = some (pair, isHigh))
    (hs : s.owningPair? = some (pair, isHigh)) : r = s := by
  obtain ⟨low, high, hhalves, rfl⟩ := exists_halves? hr
  obtain ⟨low', high', hhalves', rfl⟩ := exists_halves? hs
  rw [hhalves] at hhalves'
  cases hhalves'
  rfl

end Register

namespace Registers

variable {rs : Registers} {r : Register} {value : UInt16}

/-! ## Agreement -/

/-- Pairs agree with their halves, and halves are bytes. -/
structure Paired (rs : Registers) : Prop where
  pair : ∀ {pair low high : Register}, pair.halves? = some (low, high) →
    (rs.get pair).toNat = (rs.get high).toNat * 256 + (rs.get low).toNat
  byte : ∀ {r : Register}, r.width = .byte → (rs.get r).toNat ≤ 255

/-- A half of a word. -/
def half (isHigh : Bool) (word : UInt16) : UInt16 := if isHigh then word / 256 else word % 256

/-- A word with one half replaced. -/
def withHalf (isHigh : Bool) (word value : UInt16) : UInt16 :=
  if isHigh then word % 256 + 256 * value else 256 * (word / 256) + value

theorem toNat_half (isHigh : Bool) (word : UInt16) :
    (half isHigh word).toNat = if isHigh then word.toNat / 256 else word.toNat % 256 := by
  cases isHigh <;> rfl

theorem toNat_withHalf (isHigh : Bool) (word : UInt16) (h : value.toNat ≤ 255) :
    (withHalf isHigh word value).toNat =
      if isHigh then word.toNat % 256 + 256 * value.toNat
      else 256 * (word.toNat / 256) + value.toNat := by
  have hlt := word.toNat_lt
  have h256 : UInt16.toNat 256 = 256 := rfl
  cases isHigh <;>
    simp only [withHalf, Bool.false_eq_true, if_false, if_true, UInt16.toNat_add, UInt16.toNat_mul,
      UInt16.toNat_div, UInt16.toNat_mod, h256] <;> omega

theorem half_withHalf_self (isHigh : Bool) (word : UInt16) (h : value.toNat ≤ 255) :
    half isHigh (withHalf isHigh word value) = value := by
  apply UInt16.toNat_inj.mp
  rw [toNat_half, toNat_withHalf isHigh word h]
  cases isHigh <;> simp only [Bool.false_eq_true, if_false, if_true] <;> omega

theorem half_withHalf_of_ne {isHigh isHigh' : Bool} (hne : isHigh' ≠ isHigh) (word : UInt16)
    (h : value.toNat ≤ 255) : half isHigh' (withHalf isHigh word value) = half isHigh' word := by
  apply UInt16.toNat_inj.mp
  rw [toNat_half, toNat_half, toNat_withHalf isHigh word h]
  cases isHigh <;> cases isHigh' <;> simp only [Bool.false_eq_true, if_false, if_true] <;>
    first | exact absurd rfl hne | omega

/-- Agreement, seen from the halves. -/
theorem paired_iff : rs.Paired ↔ ∀ {r pair : Register} {isHigh : Bool},
    r.owningPair? = some (pair, isHigh) → rs.get r = half isHigh (rs.get pair) := by
  constructor
  · intro h r pair isHigh hr
    obtain ⟨low, high, hhalves, rfl⟩ := Register.exists_halves? hr
    obtain ⟨hlow, hhigh⟩ := Register.owningPair?_of_halves? hhalves
    have hpair := h.pair hhalves
    have hbyte := h.byte (Register.width_eq_byte_iff.mpr ⟨pair, false, hlow⟩)
    have hbyte' := h.byte (Register.width_eq_byte_iff.mpr ⟨pair, true, hhigh⟩)
    apply UInt16.toNat_inj.mp
    rw [toNat_half, hpair]
    cases isHigh <;> simp only [Bool.false_eq_true, if_false, if_true] <;> omega
  · intro h
    constructor
    · intro pair low high hhalves
      obtain ⟨hlow, hhigh⟩ := Register.owningPair?_of_halves? hhalves
      rw [h hlow, h hhigh, toNat_half, toNat_half]
      simp only [Bool.false_eq_true, if_false, if_true]
      omega
    · intro r hr
      obtain ⟨pair, isHigh, howner⟩ := Register.width_eq_byte_iff.mp hr
      have hlt := (rs.get pair).toNat_lt
      rw [h howner, toNat_half]
      cases isHigh <;> simp only [Bool.false_eq_true, if_false, if_true] <;> omega

theorem paired_zeroed : zeroed.Paired := by
  rw [paired_iff]
  intro r pair isHigh _
  rw [get_zeroed, get_zeroed]
  cases isHigh <;> rfl

/-! ## Writing -/

theorem write_of_halves? {low high : Register} (h : r.halves? = some (low, high)) :
    rs.write r value = ((rs.setSlot r value).setSlot low (half false value)).setSlot high
      (half true value) := by
  simp only [write, h]
  rfl

theorem write_of_owningPair? {pair : Register} {isHigh : Bool}
    (h : r.owningPair? = some (pair, isHigh)) :
    rs.write r value =
      (rs.setSlot r value).setSlot pair (withHalf isHigh (rs.get pair) value) := by
  have hhalves : r.halves? = none := by
    cases hr : r.halves? with
    | none => rfl
    | some halves =>
      obtain ⟨low, high⟩ := halves
      rw [Register.owningPair?_eq_none hr] at h
      cases h
  cases isHigh <;> simp only [write, hhalves, h] <;> rfl

theorem write_of_none (h : r.halves? = none) (h' : r.owningPair? = none) :
    rs.write r value = rs.setSlot r value := by
  simp only [write, h, h']

theorem get_write_self (rs : Registers) (r : Register) (value : UInt16) :
    (rs.write r value).get r = value := by
  cases hhalves : r.halves? with
  | some halves =>
    obtain ⟨low, high⟩ := halves
    obtain ⟨hlow, hhigh⟩ := Register.owningPair?_of_halves? hhalves
    rw [write_of_halves? hhalves, get_setSlot_of_ne _ (Register.ne_of_owningPair? hhigh hhigh),
      get_setSlot_of_ne _ (Register.ne_of_owningPair? hlow hlow), get_setSlot_self]
  | none =>
    cases howner : r.owningPair? with
    | none => rw [write_of_none hhalves howner, get_setSlot_self]
    | some owner =>
      obtain ⟨pair, isHigh⟩ := owner
      rw [write_of_owningPair? howner,
        get_setSlot_of_ne _ (Register.ne_of_owningPair? howner howner).symm, get_setSlot_self]

/-- A write reaches no register but the one that is written and those that share its bits. -/
theorem get_write_of_ne {s : Register} (hs : s ≠ r)
    (hhalves : ∀ low high, r.halves? = some (low, high) → s ≠ low ∧ s ≠ high)
    (hpair : ∀ pair isHigh, r.owningPair? = some (pair, isHigh) → s ≠ pair) :
    (rs.write r value).get s = rs.get s := by
  cases hr : r.halves? with
  | some halves =>
    obtain ⟨low, high⟩ := halves
    obtain ⟨hlow, hhigh⟩ := hhalves low high hr
    rw [write_of_halves? hr, get_setSlot_of_ne _ hhigh.symm, get_setSlot_of_ne _ hlow.symm,
      get_setSlot_of_ne _ hs.symm]
  | none =>
    cases howner : r.owningPair? with
    | none => rw [write_of_none hr howner, get_setSlot_of_ne _ hs.symm]
    | some owner =>
      obtain ⟨pair, isHigh⟩ := owner
      rw [write_of_owningPair? howner, get_setSlot_of_ne _ (hpair pair isHigh howner).symm,
        get_setSlot_of_ne _ hs.symm]

/-- The same, with the registers that share bits in a list. -/
theorem get_write_of_notMem {s : Register} (hs : s ∉ r.overlapping) :
    (rs.write r value).get s = rs.get s := by
  refine get_write_of_ne ?_ ?_ ?_
  · rintro rfl
    exact hs (Register.mem_overlapping_self s)
  · intro low high hhalves
    simp only [Register.overlapping, hhalves, List.mem_cons, not_or] at hs
    exact ⟨hs.2.1, hs.2.2.1⟩
  · intro pair isHigh howner
    have hhalves := Register.halves?_eq_none howner
    simp only [Register.overlapping, hhalves, howner, List.mem_cons, not_or] at hs
    exact hs.2.1

/-- Setting a slot that belongs to no pair. -/
theorem Paired.setSlot (h : rs.Paired) (hr : r ∈ Register.dedicated) (value : UInt16) :
    (rs.setSlot r value).Paired := by
  obtain ⟨hhalves, howner⟩ := Register.mem_dedicated_iff.mp hr
  rw [paired_iff] at h ⊢
  intro s pair isHigh hs
  have hsr : r ≠ s := by
    rintro rfl
    rw [howner] at hs
    cases hs
  have hpair : r ≠ pair := by
    rintro rfl
    obtain ⟨low, high, hpair, -⟩ := Register.exists_halves? hs
    rw [hhalves] at hpair
    cases hpair
  rw [get_setSlot_of_ne _ hsr, get_setSlot_of_ne _ hpair]
  exact h hs

theorem Paired.write_pair {low high : Register} (h : rs.Paired)
    (hr : r.halves? = some (low, high)) (value : UInt16) : (rs.write r value).Paired := by
  obtain ⟨hlow, hhigh⟩ := Register.owningPair?_of_halves? hr
  rw [paired_iff] at h ⊢
  intro s pair isHigh hs
  by_cases hpair : pair = r
  · subst hpair
    rw [get_write_self, write_of_halves? hr]
    cases isHigh with
    | true =>
      obtain rfl := Register.eq_of_owningPair? hs hhigh
      rw [get_setSlot_self]
    | false =>
      obtain rfl := Register.eq_of_owningPair? hs hlow
      have hne : high ≠ s := Register.ne_of_pair_ne hhigh hlow (.inr (by decide))
      rw [get_setSlot_of_ne _ hne, get_setSlot_self]
  · have hs' : (rs.write r value).get s = rs.get s := by
      rw [write_of_halves? hr,
        get_setSlot_of_ne _ (Register.ne_of_pair_ne hhigh hs (.inl (Ne.symm hpair))),
        get_setSlot_of_ne _ (Register.ne_of_pair_ne hlow hs (.inl (Ne.symm hpair))),
        get_setSlot_of_ne _ (Register.ne_of_owningPair? hs hlow).symm]
    have hpair' : (rs.write r value).get pair = rs.get pair := by
      rw [write_of_halves? hr, get_setSlot_of_ne _ (Register.ne_of_owningPair? hhigh hs),
        get_setSlot_of_ne _ (Register.ne_of_owningPair? hlow hs),
        get_setSlot_of_ne _ (Ne.symm hpair)]
    rw [hs', hpair']
    exact h hs

theorem Paired.write_half {owner : Register} {isHigh : Bool} (h : rs.Paired)
    (hr : r.owningPair? = some (owner, isHigh)) (hvalue : value.toNat ≤ 255) :
    (rs.write r value).Paired := by
  rw [paired_iff] at h ⊢
  intro s pair isHigh' hs
  by_cases hpair : pair = owner
  · subst hpair
    have hjoined : (rs.write r value).get pair = withHalf isHigh (rs.get pair) value := by
      rw [write_of_owningPair? hr, get_setSlot_self]
    rw [hjoined]
    by_cases hside : isHigh' = isHigh
    · subst hside
      obtain rfl := Register.eq_of_owningPair? hs hr
      rw [get_write_self, half_withHalf_self _ _ hvalue]
    · rw [half_withHalf_of_ne hside _ hvalue, write_of_owningPair? hr,
        get_setSlot_of_ne _ (Register.ne_of_owningPair? hs hr).symm,
        get_setSlot_of_ne _ (Register.ne_of_pair_ne hr hs (.inr (Ne.symm hside)))]
      exact h hs
  · rw [write_of_owningPair? hr, get_setSlot_of_ne _ (Register.ne_of_owningPair? hs hr).symm,
      get_setSlot_of_ne _ (Register.ne_of_pair_ne hr hs (.inl (Ne.symm hpair))),
      get_setSlot_of_ne _ (Ne.symm hpair),
      get_setSlot_of_ne _ (Register.ne_of_owningPair? hr hs)]
    exact h hs

/-- Writing a register keeps pairs and halves in agreement. -/
theorem Paired.write (h : rs.Paired) (hvalue : value.toNat ≤ r.width.max) :
    (rs.write r value).Paired := by
  cases hhalves : r.halves? with
  | some halves =>
    obtain ⟨low, high⟩ := halves
    exact h.write_pair hhalves value
  | none =>
    cases howner : r.owningPair? with
    | some owner =>
      obtain ⟨pair, isHigh⟩ := owner
      have hbyte : r.width = .byte := Register.width_eq_byte_iff.mpr ⟨pair, isHigh, howner⟩
      rw [hbyte] at hvalue
      exact h.write_half howner hvalue
    | none =>
      rw [write_of_none hhalves howner]
      exact h.setSlot (Register.mem_dedicated_iff.mpr ⟨hhalves, howner⟩) value

end Registers

namespace Cpu

theorem Move.paired {s t : Cpu} (h : Move s t) (hs : s.registers.Paired) :
    t.registers.Paired := by
  cases h with
  | write r value hvalue => exact hs.write hvalue
  | setSlot hr value => exact hs.setSlot hr value
  | reset => exact Registers.paired_zeroed
  | _ => exact hs

/-- Whatever happens to a processor, its pairs agree with their halves. -/
theorem Evolves.paired {s t : Cpu} (h : Evolves s t) (hs : s.registers.Paired) :
    t.registers.Paired := by
  induction h with
  | refl => exact hs
  | tail _ hmove ih => exact hmove.paired ih

end Cpu

end TeachingCpu
