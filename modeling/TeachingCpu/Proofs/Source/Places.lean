import TeachingCpu.Proofs.Attempt.Raises
import TeachingCpu.Proofs.Source.Scan

/-!
# Places in a source

A span counts the bytes of a source in UTF-8. `OnLine` says of the bytes that a span lies inside the
source and on a line with some number. The scanner works on characters: what it marks is a stretch
of characters without a newline (`Marks`), and such a stretch lies on its line as long as the source
is short enough for its offsets (`onLine_of_marks`). Lengths have sixteen bits, so the span of a
longer token is a beginning of it.
-/

namespace TeachingCpu

/-- An error that has no place yet. -/
def Error.Bare (e : Error) : Prop := e.line = none ∧ e.span = none

theorem bare_of (cause : Cause) : (Error.of cause).Bare := ⟨rfl, rfl⟩

namespace Source

/-- The bytes of a source. -/
def bytes (source : String) : List UInt8 := source.toUTF8.data.toList

/-- The byte of a newline. -/
def newline : UInt8 := 10

/-- A span lies inside a source and on the line with a number. -/
structure OnLine (source : String) (span : Span) (line : Nat) : Prop where
  start : span.offset.toNat < (bytes source).length
  stop : span.offset.toNat + span.length.toNat ≤ (bytes source).length
  oneLine : newline ∉ ((bytes source).drop span.offset.toNat).take span.length.toNat
  line : ((bytes source).take span.offset.toNat).count newline + 1 = line

/-! ## Bytes of characters -/

/-- The bytes of characters. -/
def encoded (cs : List Char) : List UInt8 := cs.flatMap String.utf8EncodeChar

theorem bytes_eq (source : String) : bytes source = encoded source.toList := by
  have hbytes : source.toUTF8 = source.toList.utf8Encode := String.utf8Encode_toList.symm
  rw [bytes, hbytes, List.utf8Encode, List.data_toByteArray]
  rfl

theorem encoded_append (front back : List Char) :
    encoded (front ++ back) = encoded front ++ encoded back :=
  List.flatMap_append

theorem byteLength_cons (c : Char) (cs : List Char) :
    byteLength (c :: cs) = c.utf8Size + byteLength cs := by
  have hfold : ∀ (cs : List Char) (n : Nat),
      cs.foldl (fun n c => n + c.utf8Size) n = n + byteLength cs := by
    intro cs
    induction cs with
    | nil => exact fun n => rfl
    | cons c cs ih =>
      intro n
      rw [byteLength, List.foldl_cons, List.foldl_cons, ih, ih]
      omega
  rw [byteLength, List.foldl_cons, hfold]
  omega

theorem byteLength_singleton (c : Char) : byteLength [c] = c.utf8Size := byteLength_cons c []

theorem length_encoded (cs : List Char) : (encoded cs).length = byteLength cs := by
  induction cs with
  | nil => rfl
  | cons c cs ih =>
    rw [byteLength_cons, ← ih, encoded, List.flatMap_cons, List.length_append,
      String.length_utf8EncodeChar]
    rfl

theorem byteLength_append (front back : List Char) :
    byteLength (front ++ back) = byteLength front + byteLength back := by
  rw [← length_encoded, ← length_encoded, ← length_encoded, encoded_append, List.length_append]

theorem byteLength_pos {cs : List Char} (h : cs ≠ []) : 0 < byteLength cs := by
  cases cs with
  | nil => exact absurd rfl h
  | cons c cs =>
    rw [byteLength_cons]
    have := c.utf8Size_pos
    omega

/-- The byte of a newline occurs in the bytes of no other character: those that take several bytes
have none below 128. -/
theorem count_newline_char (c : Char) :
    (String.utf8EncodeChar c).count newline = if c = '\n' then 1 else 0 := by
  have hchar : c = '\n' ↔ c.val.toNat = 10 := by
    rw [← Char.val_inj, ← UInt32.toNat_inj]
    rfl
  have hbyte : ∀ n < 256, UInt8.ofNat n = newline ↔ n = 10 := by
    intro n hn
    rw [← UInt8.toNat_inj, UInt8.toNat_ofNat_of_lt' hn]
    rfl
  have hhigh : ∀ ns : List Nat, (∀ n ∈ ns, 128 ≤ n ∧ n < 256) →
      (ns.map UInt8.ofNat).count newline = 0 := by
    intro ns hns
    rw [List.count_eq_zero]
    intro hmem
    obtain ⟨n, hn, heq⟩ := List.mem_map.mp hmem
    obtain ⟨hlow, hlt⟩ := hns n hn
    have hten := (hbyte n hlt).mp heq
    omega
  unfold String.utf8EncodeChar
  simp only [hchar]
  generalize c.val.toNat = v
  by_cases hone : v ≤ 127
  · rw [if_pos hone, List.count_singleton]
    simp only [beq_iff_eq, hbyte v (by omega)]
  · have hv : ¬ v = 10 := by omega
    rw [if_neg hone, if_neg hv]
    by_cases htwo : v ≤ 2047
    · rw [if_pos htwo]
      refine hhigh [v / 64 % 32 + 192, v % 64 + 128] ?_
      simp only [List.mem_cons, List.not_mem_nil, or_false, forall_eq_or_imp, forall_eq]
      omega
    · rw [if_neg htwo]
      by_cases hthree : v ≤ 65535
      · rw [if_pos hthree]
        refine hhigh [v / 4096 % 16 + 224, v / 64 % 64 + 128, v % 64 + 128] ?_
        simp only [List.mem_cons, List.not_mem_nil, or_false, forall_eq_or_imp, forall_eq]
        omega
      · rw [if_neg hthree]
        refine hhigh [v / 262144 % 8 + 240, v / 4096 % 64 + 128, v / 64 % 64 + 128,
          v % 64 + 128] ?_
        simp only [List.mem_cons, List.not_mem_nil, or_false, forall_eq_or_imp, forall_eq]
        omega

theorem count_newline_encoded (cs : List Char) : (encoded cs).count newline = cs.count '\n' := by
  induction cs with
  | nil => rfl
  | cons c cs ih =>
    rw [encoded, List.flatMap_cons, List.count_append, count_newline_char, List.count_cons]
    rw [encoded] at ih
    rw [ih, Nat.add_comm]
    simp only [beq_iff_eq]

/-! ## Stretches of characters -/

/-- A span marks characters of a text on the line with a number. -/
def Marks (text : List Char) (line : Nat) (span : Span) : Prop :=
  ∃ front marked back, text = front ++ marked ++ back ∧ marked ≠ [] ∧ '\n' ∉ marked ∧
    front.count '\n' + 1 = line ∧ span = .of (byteLength front) (byteLength marked)

/-- What is marked in a source that is short enough for its offsets lies on its line. -/
theorem onLine_of_marks {source : String} {line : Nat} {span : Span}
    (hsize : source.utf8ByteSize < 2 ^ 32) (h : Marks source.toList line span) :
    OnLine source span line := by
  obtain ⟨front, marked, back, htext, hne, hline, hnumber, rfl⟩ := h
  have hbytes : bytes source = encoded front ++ (encoded marked ++ encoded back) := by
    rw [bytes_eq, htext, List.append_assoc, encoded_append, encoded_append]
  have hlength : (bytes source).length =
      byteLength front + (byteLength marked + byteLength back) := by
    rw [hbytes, List.length_append, List.length_append, length_encoded, length_encoded,
      length_encoded]
  have hpos := byteLength_pos hne
  have hoffset : (Span.of (byteLength front) (byteLength marked)).offset.toNat =
      byteLength front := by
    have hsource : (bytes source).length < 2 ^ 32 := hsize
    change (UInt32.ofNat (byteLength front)).toNat = _
    rw [UInt32.toNat_ofNat', Nat.mod_eq_of_lt (by omega)]
  have hstretch : (Span.of (byteLength front) (byteLength marked)).length.toNat ≤
      byteLength marked := by
    change (UInt16.ofNat (byteLength marked)).toNat ≤ _
    rw [UInt16.toNat_ofNat']
    exact Nat.mod_le _ _
  have hfront : byteLength front = (encoded front).length := (length_encoded front).symm
  constructor
  · omega
  · omega
  · rw [← length_encoded marked] at hstretch
    rw [hoffset, hbytes, hfront, List.drop_left,
      List.take_append_of_le_length (by rwa [← length_encoded])]
    intro hmem
    have hmarked := List.mem_of_mem_take hmem
    rw [← List.count_pos_iff, count_newline_encoded, List.count_pos_iff] at hmarked
    exact hline hmarked
  · rw [hoffset, hbytes, hfront, List.take_left, count_newline_encoded]
    exact hnumber

end Source

end TeachingCpu
