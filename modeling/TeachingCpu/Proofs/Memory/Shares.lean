import TeachingCpu.Proofs.Memory

/-!
# Dividing a memory by shares

Two shares in percent give a layout exactly if their segments fit into the memory side by side, and
then the boundaries lie where the segments end, within sixteen bits (`ofShares_divides`). Shares of
at most a hundred percent always fit: only one of two segments can be smaller than the byte that it
gets, and then the other leaves this byte.
-/

namespace TeachingCpu.Layout

/-- A number, or the bound that it lies beyond. -/
def clamp (n low high : Nat) : Nat :=
  if n < low then low else if high < n then high else n

/-- The bytes of a share in percent, rounded down, at least one and at most all but one. -/
def share (size percent : Nat) : Nat := clamp (size * percent / 100) 1 (size - 1)

variable {size stackPercent dataPercent max : Nat}

theorem segmentSize_eq_share (h : 2 ≤ size) (percent : Nat) :
    segmentSize size percent = share size percent := by
  unfold segmentSize share clamp
  generalize size * percent / 100 = bytes
  split
  · omega
  · split <;> omega

theorem one_le_share (h : 2 ≤ size) (percent : Nat) : 1 ≤ share size percent := by
  unfold share clamp
  split
  · omega
  · split <;> omega

theorem share_lt (h : 2 ≤ size) (percent : Nat) : share size percent < size := by
  unfold share clamp
  split
  · omega
  · split <;> omega

/-- A share gets what it is worth at most, unless it is worth less than the byte that it gets. -/
theorem share_eq_one_or_le (size percent : Nat) :
    share size percent = 1 ∨ share size percent ≤ size * percent / 100 := by
  unfold share clamp
  split
  · exact .inl rfl
  · split <;> omega

/-- Rounded down, two shares of at most a hundred percent take no more than everything. -/
theorem floors_le (size : Nat) (h : stackPercent + dataPercent ≤ 100) :
    size * stackPercent / 100 + size * dataPercent / 100 ≤ size := by
  calc size * stackPercent / 100 + size * dataPercent / 100
      ≤ (size * stackPercent + size * dataPercent) / 100 := Nat.div_add_div_le_add_div
    _ = size * (stackPercent + dataPercent) / 100 := by rw [Nat.mul_add]
    _ ≤ size * 100 / 100 := Nat.div_le_div_right (Nat.mul_le_mul_left size h)
    _ = size := Nat.mul_div_cancel size (by decide)

/-- So they fit, whichever of them gets a byte that it is not worth. -/
theorem shares_le (hsize : 2 ≤ size) (h : stackPercent + dataPercent ≤ 100) :
    share size stackPercent + share size dataPercent ≤ size := by
  have hfloors := floors_le size h
  have hstack := share_lt hsize stackPercent
  have hdata := share_lt hsize dataPercent
  -- next to a segment of one byte there is room for every other, which leaves one byte at least
  rcases share_eq_one_or_le size stackPercent with hone | hworth
  · omega
  · rcases share_eq_one_or_le size dataPercent with hone | hworth'
    · omega
    · omega

/-- The memory has a size that is allowed, and two shares of it fit in side by side. -/
structure Fits (size stackPercent dataPercent max : Nat) : Prop where
  least : 16 ≤ size
  most : size ≤ max
  stackShare : stackPercent ≤ 100
  dataShare : dataPercent ≤ 100
  room : share size stackPercent + share size dataPercent ≤ size

/-- The boundaries of a layout, as numbers, are where two shares end. -/
structure Divides (l : Layout) (size stackPercent dataPercent : Nat) : Prop where
  size_eq : l.size = size
  data_lt_stack : l.dataStart < l.stackStart
  stack_lt_size : l.stackStart.toNat < l.size
  stack : l.stackStart.toNat + share size stackPercent = size
  data : l.dataStart.toNat + share size dataPercent = l.stackStart.toNat
  last : l.lastAddressable.toNat + 1 = size

theorem ofShares_of_fits (h : Fits size stackPercent dataPercent max) :
    ofShares size stackPercent dataPercent max =
      .ok ⟨size, (size - share size stackPercent - share size dataPercent).toUInt16,
        (size - share size stackPercent).toUInt16⟩ := by
  obtain ⟨hleast, hmost, hstack, hdata, hroom⟩ := h
  have htwo : 2 ≤ size := by omega
  unfold ofShares
  simp only [segmentSize_eq_share htwo, minSize]
  rw [if_neg (by omega), if_neg (by omega), if_neg (by omega)]

/-- A layout is refused for one of three causes, all of one kind. -/
theorem ofShares_of_not_fits (h : ¬ Fits size stackPercent dataPercent max) :
    ∃ e, ofShares size stackPercent dataPercent max = .error e ∧
      e.kind = .invalidMemoryLayout := by
  unfold ofShares
  dsimp only
  split
  · exact ⟨.of (.memorySize size max), rfl, rfl⟩
  · next hsize =>
    rw [minSize] at hsize
    split
    · exact ⟨.of (.segmentShares stackPercent dataPercent), rfl, rfl⟩
    · next hpercent =>
      split
      · exact ⟨.of (.segmentsOverlap stackPercent dataPercent size), rfl, rfl⟩
      · next hroom =>
        have htwo : 2 ≤ size := by omega
        rw [segmentSize_eq_share htwo, segmentSize_eq_share htwo] at hroom
        exact absurd ⟨by omega, by omega, by omega, by omega, by omega⟩ h

theorem divides_of_fits (hmax : max ≤ 65535) (h : Fits size stackPercent dataPercent max) :
    Divides ⟨size, (size - share size stackPercent - share size dataPercent).toUInt16,
      (size - share size stackPercent).toUInt16⟩ size stackPercent dataPercent := by
  obtain ⟨hleast, hmost, -, -, hroom⟩ := h
  have hstack := one_le_share (show 2 ≤ size by omega) stackPercent
  have hdata := one_le_share (show 2 ≤ size by omega) dataPercent
  have hstackStart : (size - share size stackPercent).toUInt16.toNat =
      size - share size stackPercent := Nat.toNat_toUInt16_of_le (by omega)
  have hdataStart : (size - share size stackPercent - share size dataPercent).toUInt16.toNat =
      size - share size stackPercent - share size dataPercent :=
    Nat.toNat_toUInt16_of_le (by omega)
  refine ⟨rfl, ?_, ?_, ?_, ?_, ?_⟩
  · rw [UInt16.lt_iff_toNat_lt, hstackStart, hdataStart]
    omega
  · dsimp only
    omega
  · dsimp only
    omega
  · dsimp only
    omega
  · rw [lastAddressable_eq (by dsimp only; omega)]
    dsimp only
    omega

/-- Shares give a layout if and only if they fit. It is refused otherwise, and the boundaries of
one that is given are those of the shares, none of them cut off by its sixteen bits. Shares of at
most a hundred percent of a memory that is allowed always fit. -/
theorem ofShares_divides (hmax : max ≤ 65535) (size stackPercent dataPercent : Nat) :
    ((∃ l, ofShares size stackPercent dataPercent max = .ok l) ↔
        Fits size stackPercent dataPercent max) ∧
      (¬ Fits size stackPercent dataPercent max →
        ∃ e, ofShares size stackPercent dataPercent max = .error e ∧
          e.kind = .invalidMemoryLayout) ∧
      (∀ l, ofShares size stackPercent dataPercent max = .ok l →
        Divides l size stackPercent dataPercent) ∧
      (16 ≤ size → size ≤ max → stackPercent + dataPercent ≤ 100 →
        ∃ l, ofShares size stackPercent dataPercent max = .ok l) := by
  have hfits : ∀ l, ofShares size stackPercent dataPercent max = .ok l →
      Fits size stackPercent dataPercent max := by
    intro l hl
    by_contra hnot
    obtain ⟨e, he, -⟩ := ofShares_of_not_fits hnot
    rw [hl] at he
    cases he
  refine ⟨⟨?_, fun h => ⟨_, ofShares_of_fits h⟩⟩, ofShares_of_not_fits, ?_, ?_⟩
  · rintro ⟨l, hl⟩
    exact hfits l hl
  · intro l hl
    have hdivided := hfits l hl
    rw [ofShares_of_fits hdivided] at hl
    cases hl
    exact divides_of_fits hmax hdivided
  · intro hleast hmost hsum
    have htwo : 2 ≤ size := by omega
    exact ⟨_, ofShares_of_fits ⟨hleast, hmost, by omega, by omega, shares_le htwo hsum⟩⟩

/-- The largest memory in two halves, and the smallest one in shares of more than a hundred percent
that fit because they are rounded down, but not with one percent more. -/
theorem ofShares_divides_extremes :
    (∃ l, ofShares 65535 50 50 65535 = .ok l) ∧
      Divides ⟨16, 0, 1⟩ 16 94 12 ∧ ∃ e, ofShares 16 94 13 65535 = .error e ∧
        e.kind = .invalidMemoryLayout := by
  have hmax : 65535 ≤ 65535 := Nat.le_refl _
  refine ⟨(ofShares_divides hmax 65535 50 50).2.2.2 (by decide) (by decide) (by decide), ?_, ?_⟩
  · exact (ofShares_divides hmax 16 94 12).2.2.1 _ rfl
  · refine (ofShares_divides hmax 16 94 13).2.1 fun hfits => ?_
    exact absurd hfits.room (by decide)

end TeachingCpu.Layout
