import TeachingCpu.Proofs.Attempt
import TeachingCpu.Text.Integer

/-!
# The grammar of integers

`IsInteger` says which texts denote an integer, and which one, without the reader: digits are
numbers in positional notation. `readInteger?_eq_some_iff` compares the two: below the bound, the
reader accepts these texts and, beside them, hexadecimal digits that have a plus sign in front.
-/

namespace TeachingCpu.Text

/-- A character is the digit for a number in a base. A letter is a digit in either case. -/
def IsDigit (base : Nat) (c : Char) (d : Nat) : Prop := d < base ∧ c.toLower = d.digitChar

/-- One or more digits denote a number. The last digit counts once, each other one `base` times as
much as the one behind it. -/
def Denote (base : Nat) (digits : List Char) (n : Nat) : Prop :=
  digits ≠ [] ∧
    ∃ ds, List.Forall₂ (IsDigit base) digits.reverse ds ∧ n = Nat.ofDigits base ds

/-- The integers of source text: decimal digits, or hexadecimal ones behind `0x` or `0X`. -/
inductive IsInteger : List Char → Nat → Prop where
  | decimal {digits : List Char} {n : Nat} (h : Denote 10 digits n) : IsInteger digits n
  | hexadecimal {x : Char} {digits : List Char} {n : Nat} (hx : x = 'x' ∨ x = 'X')
    (h : Denote 16 digits n) : IsInteger ('0' :: x :: digits) n

/-- Hexadecimal digits with a plus sign between them and `0x` or `0X`. -/
inductive IsSigned : List Char → Nat → Prop where
  | hexadecimal {x : Char} {digits : List Char} {n : Nat} (hx : x = 'x' ∨ x = 'X')
    (h : Denote 16 digits n) : IsSigned ('0' :: x :: '+' :: digits) n

/-! ## Digits -/

theorem toNat_digitChar {d : Nat} (h : d < 16) :
    d.digitChar.toNat = if d < 10 then 48 + d else 87 + d := by
  interval_cases d <;> rfl

theorem toNat_toLower (c : Char) :
    c.toLower.toNat = if 65 ≤ c.toNat ∧ c.toNat ≤ 90 then c.toNat + 32 else c.toNat := by
  have hcapital : c.val ≥ 'A'.val ∧ c.val ≤ 'Z'.val ↔ 65 ≤ c.toNat ∧ c.toNat ≤ 90 := Iff.rfl
  unfold Char.toLower
  split
  · next h =>
    rw [if_pos (hcapital.mp h)]
    change (c.val + 32).toNat = c.val.toNat + 32
    have hsmall : c.val.toNat ≤ 90 := (hcapital.mp h).2
    rw [UInt32.toNat_add, Nat.mod_eq_of_lt]
    · rfl
    · change c.val.toNat + 32 < _
      omega
  · next h => rw [if_neg fun hc => h (hcapital.mpr hc)]

/-- The reader knows the digits of a base. -/
theorem digit?_eq_some_iff {base d : Nat} (hbase : base ≤ 16) {c : Char} :
    digit? base c = some d ↔ IsDigit base c d := by
  have hrange : ∀ lo hi : Char, (lo ≤ c ∧ c ≤ hi) ↔ lo.toNat ≤ c.toNat ∧ c.toNat ≤ hi.toNat :=
    fun lo hi => Iff.rfl
  have hreader : digit? base c = some d ↔ d < base ∧
      (c.toNat = 48 + d ∧ d < 10 ∨ c.toNat = 87 + d ∧ 10 ≤ d ∧ d < 16 ∨
        c.toNat = 55 + d ∧ 10 ≤ d ∧ d < 16) := by
    unfold digit?
    simp only [hrange, Option.filter_eq_some_iff, decide_eq_true_eq, Char.reduceToNat]
    split_ifs <;> simp <;> omega
  rw [hreader, IsDigit, and_congr_right_iff]
  intro hd
  rw [← Char.toNat_inj, toNat_toLower, toNat_digitChar (Nat.lt_of_lt_of_le hd hbase)]
  split_ifs <;> omega

theorem appendDigit?_eq_some_iff {base m n : Nat} (hbase : base ≤ 16) {c : Char} :
    appendDigit? base m c = some n ↔
      ∃ d, IsDigit base c d ∧ n = base * m + d ∧ n < integerBound := by
  unfold appendDigit?
  cases hdigit : digit? base c with
  | none =>
    simp [← digit?_eq_some_iff hbase, hdigit]
  | some d =>
    simp only [← digit?_eq_some_iff hbase, hdigit, Option.some.injEq, Option.ite_none_right_eq_some]
    grind

/-! ## Numbers -/

section Numbers

variable {base : Nat} (hone : 0 < base) (hbase : base ≤ 16)

include hone hbase

/-- A number is read digit by digit. It is within the bound exactly if it is so at every digit, as
it grows on the way. -/
theorem foldlM_eq_some_iff {digits : List Char} {n : Nat} :
    digits.foldlM (appendDigit? base) 0 = some n ↔
      (∃ ds, List.Forall₂ (IsDigit base) digits.reverse ds ∧ n = Nat.ofDigits base ds) ∧
        n < integerBound := by
  induction digits using List.reverseRecOn generalizing n with
  | nil =>
    simp only [List.foldlM_nil, List.reverse_nil, List.forall₂_nil_left_iff, exists_eq_left,
      Nat.ofDigits_nil, Option.pure_def, Option.some.injEq]
    constructor
    · rintro rfl
      exact ⟨rfl, by decide⟩
    · exact fun h => h.1.symm
  | append_singleton digits c ih =>
    have hlast : (digits ++ [c]).foldlM (appendDigit? base) 0 = some n ↔
        ∃ m, digits.foldlM (appendDigit? base) 0 = some m ∧ appendDigit? base m c = some n := by
      simp [List.foldlM_append, Option.bind_eq_some_iff]
    rw [hlast, List.reverse_append, List.reverse_singleton, List.singleton_append]
    simp only [ih, appendDigit?_eq_some_iff hbase]
    constructor
    · rintro ⟨m, ⟨⟨ds, hds, rfl⟩, -⟩, d, hd, rfl, hbound⟩
      refine ⟨⟨d :: ds, .cons hd hds, ?_⟩, hbound⟩
      rw [Nat.ofDigits_cons]
      omega
    · rintro ⟨⟨_, _ | @⟨_, d, _, ds, hd, hds⟩, rfl⟩, hbound⟩
      rw [Nat.ofDigits_cons] at hbound ⊢
      have hgrows : Nat.ofDigits base ds ≤ base * Nat.ofDigits base ds :=
        Nat.le_mul_of_pos_left _ hone
      exact ⟨_, ⟨⟨ds, hds, rfl⟩, by omega⟩, d, hd, by omega, hbound⟩

theorem readDigits?_eq_some_iff {digits : List Char} {n : Nat} :
    readDigits? base digits = some n ↔ Denote base digits n ∧ n < integerBound := by
  unfold readDigits? Denote
  rw [Option.ite_none_left_eq_some, foldlM_eq_some_iff hone hbase, List.isEmpty_iff, and_assoc]

end Numbers

/-- Only digits denote a number. -/
theorem not_denote_of_mem {base : Nat} {c : Char} {digits : List Char} {n : Nat} (hc : c ∈ digits)
    (hother : ∀ d < base, c.toLower ≠ d.digitChar) : ¬ Denote base digits n := by
  rintro ⟨-, ds, hds, -⟩
  obtain ⟨d, -, hd, hdigit⟩ := hds.exists_right (List.mem_reverse.mpr hc)
  exact hother d hd hdigit

/-! ## Texts -/

theorem startsHex_iff {cs : List Char} :
    startsHex cs ↔ ∃ x rest, (x = 'x' ∨ x = 'X') ∧ cs = '0' :: x :: rest := by
  unfold startsHex
  split
  · simp
  · simp
  · next hx hX =>
    simp only [Bool.false_eq_true, false_iff]
    rintro ⟨x, rest, rfl | rfl, rfl⟩
    · exact hx rest rfl
    · exact hX rest rfl

theorem readHex?_eq_some_iff {digits : List Char} {n : Nat} :
    readHex? digits = some n ↔
      (Denote 16 digits n ∨ ∃ rest, digits = '+' :: rest ∧ Denote 16 rest n) ∧
        n < integerBound := by
  unfold readHex?
  split
  · next rest =>
    have hplus : ¬ Denote 16 ('+' :: rest) n := not_denote_of_mem List.mem_cons_self (by decide)
    rw [readDigits?_eq_some_iff (by decide) le_rfl]
    simp [hplus]
  · next hplus =>
    have hnone : ¬ ∃ rest, digits = '+' :: rest ∧ Denote 16 rest n :=
      fun ⟨rest, hrest, _⟩ => hplus rest hrest
    rw [readDigits?_eq_some_iff (by decide) le_rfl, or_iff_left hnone]

/-- The reader accepts the integers below the bound, and hexadecimal digits behind a plus sign. -/
theorem readInteger?_eq_some_iff (s : String) (n : Nat) :
    readInteger? s = some n ↔ (IsInteger s.toList n ∨ IsSigned s.toList n) ∧ n < 2 ^ 32 := by
  have hbound : integerBound = 2 ^ 32 := rfl
  unfold readInteger? readIntegerChars?
  generalize s.toList = cs
  rw [← hbound]
  split
  · next hhex =>
    obtain ⟨x, rest, hx, rfl⟩ := startsHex_iff.mp hhex
    have hdecimal : ¬ Denote 10 ('0' :: x :: rest) n := by
      refine not_denote_of_mem (List.mem_cons_of_mem _ List.mem_cons_self) ?_
      obtain rfl | rfl := hx <;> decide
    rw [List.drop_succ_cons, List.drop_succ_cons, List.drop_zero, readHex?_eq_some_iff]
    refine and_congr_left fun _ => or_congr ⟨.hexadecimal hx, ?_⟩ ⟨?_, ?_⟩
    · rintro (h | ⟨-, h⟩)
      · exact absurd h hdecimal
      · exact h
    · rintro ⟨digits, rfl, h⟩
      exact .hexadecimal hx h
    · rintro ⟨-, h⟩
      exact ⟨_, rfl, h⟩
  · next hhex =>
    rw [readDigits?_eq_some_iff (by decide) (by decide)]
    refine and_congr_left fun _ => ⟨fun h => .inl (.decimal h), ?_⟩
    rintro ((h | ⟨hx, -⟩) | ⟨hx, -⟩)
    · exact h
    · exact absurd (startsHex_iff.mpr ⟨_, _, hx, rfl⟩) hhex
    · exact absurd (startsHex_iff.mpr ⟨_, _, hx, rfl⟩) hhex

/-- A number with a plus sign in it is read, and is no integer. -/
theorem readInteger?_plusFive :
    readInteger? "0x+5" = some 5 ∧ ∀ n, ¬ IsInteger "0x+5".toList n := by
  refine ⟨rfl, fun n h => ?_⟩
  cases h with
  | decimal h => exact not_denote_of_mem (c := '+') (by decide) (by decide) h
  | hexadecimal _ h => exact not_denote_of_mem (c := '+') (by decide) (by decide) h

end TeachingCpu.Text
