import Mathlib
import TeachingCpu.Text.Integer
import TeachingCpu.Text.Number

/-!
# Reading written numbers

Decimal and padded hexadecimal numbers read back as what was written, so different numbers are
written differently.
-/

namespace TeachingCpu.Text

/-- Addresses are small enough to be written and read back. -/
theorem lt_integerBound {n : Nat} (h : n ≤ 65535) : n < integerBound := by
  unfold integerBound
  omega

theorem toNat_lt_integerBound (b : UInt8) : b.toNat < integerBound := by
  have hb := b.toNat_lt
  exact lt_integerBound (by omega)

theorem digit?_digitChar {base d : Nat} (hd : d < base) (hbase : base ≤ 16) :
    digit? base d.digitChar = some d := by
  have hlt : d < 16 := Nat.lt_of_lt_of_le hd hbase
  unfold digit?
  interval_cases d <;> simp [Nat.digitChar, Option.filter, hd]

theorem appendDigit?_digitChar {base n d : Nat} (hd : d < base) (hbase : base ≤ 16)
    (h : base * n + d < integerBound) :
    appendDigit? base n d.digitChar = some (base * n + d) := by
  unfold appendDigit?
  rw [digit?_digitChar hd hbase]
  exact if_pos h

/-- The digits of a number, read one after the other. -/
theorem foldlM_toDigits {base : Nat} (hone : 1 < base) (hbase : base ≤ 16) {n : Nat}
    (h : n < integerBound) : (Nat.toDigits base n).foldlM (appendDigit? base) 0 = some n := by
  induction n using Nat.strong_induction_on with
  | _ n ih =>
    rcases Nat.lt_or_ge n base with hlt | hge
    · have hread : appendDigit? base 0 n.digitChar = some (base * 0 + n) :=
        appendDigit?_digitChar hlt hbase (by simpa using h)
      rw [Nat.toDigits_of_lt_base hlt, List.foldlM_cons, hread, Nat.mul_zero, Nat.zero_add]
      rfl
    · have hsmaller : n / base < n := Nat.div_lt_self (by omega) hone
      have hrest := ih (n / base) hsmaller (Nat.lt_trans hsmaller h)
      have hsplit : base * (n / base) + n % base = n := Nat.div_add_mod n base
      have hread : appendDigit? base (n / base) (n % base).digitChar =
          some (base * (n / base) + n % base) := by
        apply appendDigit?_digitChar (Nat.mod_lt n (by omega)) hbase
        rwa [hsplit]
      rw [Nat.toDigits_of_base_le hone hge, List.foldlM_append, hrest]
      change List.foldlM (appendDigit? base) (n / base) [(n % base).digitChar] = some n
      rw [List.foldlM_cons, hread, hsplit]
      rfl

theorem readDigits?_toDigits {base : Nat} (hone : 1 < base) (hbase : base ≤ 16) {n : Nat}
    (h : n < integerBound) : readDigits? base (Nat.toDigits base n) = some n := by
  unfold readDigits?
  rw [if_neg (by simp [Nat.toDigits_ne_nil]), foldlM_toDigits hone hbase h]

theorem isDigit_of_mem_toString {n : Nat} {c : Char} (h : c ∈ (toString n).toList) :
    c.isDigit := by
  rw [Nat.toString_eq_ofList_toDigits, String.toList_ofList] at h
  exact Nat.isDigit_of_mem_toDigits (by decide) le_rfl h

theorem startsHex_of_isDigit {cs : List Char} (h : ∀ c ∈ cs, c.isDigit) : startsHex cs = false := by
  unfold startsHex
  split
  · exact absurd (h 'x' (by simp)) (by decide)
  · exact absurd (h 'X' (by simp)) (by decide)
  · rfl

/-- A decimal number reads back. -/
theorem readIntegerChars?_toString {n : Nat} (h : n < integerBound) :
    readIntegerChars? (toString n).toList = some n := by
  unfold readIntegerChars?
  rw [startsHex_of_isDigit fun c hc => isDigit_of_mem_toString hc, if_neg Bool.false_ne_true,
    Nat.toString_eq_ofList_toDigits, String.toList_ofList]
  exact readDigits?_toDigits (by decide) (by decide) h

theorem toList_toString_ne_nil (n : Nat) : (toString n).toList ≠ [] := by
  rw [Nat.toString_eq_ofList_toDigits, String.toList_ofList]
  exact Nat.toDigits_ne_nil

/-! ## Padded hexadecimal numbers -/

theorem exists_digit_of_mem_toDigits {base : Nat} (hone : 1 < base) {n : Nat} {c : Char}
    (h : c ∈ Nat.toDigits base n) : ∃ d < base, c = d.digitChar := by
  induction n using Nat.strong_induction_on with
  | _ n ih =>
    rcases Nat.lt_or_ge n base with hlt | hge
    · rw [Nat.toDigits_of_lt_base hlt, List.mem_singleton] at h
      exact ⟨n, hlt, h⟩
    · rw [Nat.toDigits_of_base_le hone hge, List.mem_append, List.mem_singleton] at h
      rcases h with hfront | hlast
      · exact ih (n / base) (Nat.div_lt_self (by omega) hone) hfront
      · exact ⟨n % base, Nat.mod_lt n (by omega), hlast⟩

theorem toList_hex (width n : Nat) : (hex width n).toList =
    List.replicate (width - (Nat.toDigits 16 n).length) '0' ++ Nat.toDigits 16 n := by
  rw [hex, String.toList_ofList, List.leftpad]

theorem isAlphanum_of_mem_hex {width n : Nat} {c : Char} (h : c ∈ (hex width n).toList) :
    c.isAlphanum := by
  have hdigits : ∀ d : Fin 16, d.val.digitChar.isAlphanum = true := by decide
  rw [toList_hex, List.mem_append] at h
  rcases h with hzero | hdigit
  · rw [List.eq_of_mem_replicate hzero]
    decide
  · obtain ⟨d, hd, rfl⟩ := exists_digit_of_mem_toDigits (by decide) hdigit
    exact hdigits ⟨d, hd⟩

theorem foldlM_zeros (base k : Nat) (hbase : 0 < base) :
    (List.replicate k '0').foldlM (appendDigit? base) 0 = some 0 := by
  have hzero : appendDigit? base 0 '0' = some 0 := by
    simp [appendDigit?, digit?, Option.filter, hbase, integerBound]
  induction k with
  | zero => rfl
  | succ k ih =>
    rw [List.replicate_succ, List.foldlM_cons, hzero]
    exact ih

/-- A padded hexadecimal number reads back. -/
theorem readDigits?_hex (width : Nat) {n : Nat} (h : n < integerBound) :
    readDigits? 16 (hex width n).toList = some n := by
  unfold readDigits?
  rw [toList_hex, if_neg (by simp [Nat.toDigits_ne_nil]), List.foldlM_append,
    foldlM_zeros 16 _ (by decide)]
  exact foldlM_toDigits (by decide) le_rfl h

theorem hex_injective {width m n : Nat} (hm : m < integerBound) (hn : n < integerBound)
    (h : hex width m = hex width n) : m = n := by
  have hread := readDigits?_hex width hm
  rw [h, readDigits?_hex width hn] at hread
  exact (Option.some.inj hread).symm

end TeachingCpu.Text
