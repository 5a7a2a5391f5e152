import TeachingCpu.Image.Decode
import TeachingCpu.Proofs.Attempt

/-!
# Reading and writing images

`Image.ofBytes` accepts exactly the rows of bytes that `Image.toBytes` writes for well-formed
images. The walk over the code decides where the code ends: it stays on instruction boundaries, so
the end markers may stand inside operands, memory and metadata.
-/

namespace TeachingCpu

/-- Some bytes are the bytes of instructions one after the other. What stands in the operands is
arbitrary. -/
inductive IsCode : List UInt8 → Prop
  | nil : IsCode []
  | cons (op : Opcode) (operands rest : List UInt8) :
      operands.length = 2 * op.arity → IsCode rest → IsCode (op.code :: (operands ++ rest))

namespace Opcode

/-- No instruction starts with the byte that stands behind the code. -/
theorem code_ne_romEnd (op : Opcode) : op.code ≠ Image.romEnd := by
  cases op <;> decide

theorem code_of_ofCode? {code : UInt8} {op : Opcode} (h : ofCode? code = some op) :
    code = op.code :=
  Architecture.code_of_ofCode? ((Architecture.sixteen_ofCode? code).trans h)

end Opcode

theorem Mode.tag_of_ofTag? {tag : UInt8} {mode : Mode} (h : ofTag? tag = some mode) :
    tag = mode.tag := by
  have htag := List.find?_some h
  exact (beq_iff_eq.mp htag).symm

namespace ArchWidth

theorem ofMarker?_marker (w : ArchWidth) : ofMarker? w.marker = some w := by
  cases w <;> rfl

theorem ofMarker?_eq_some_iff {marker : UInt8} {w : ArchWidth} :
    ofMarker? marker = some w ↔ marker = w.marker := by
  constructor
  · intro h
    have := List.find?_some h
    exact (beq_iff_eq.mp this).symm
  · intro heq
    subst heq
    exact ofMarker?_marker w

/-- Only the sixteen-bit machine exists. -/
theorem ofWidth?_eq_some_iff {w : ArchWidth} {machine : Architecture} :
    Architecture.ofWidth? w = some machine ↔ w = .bits16 ∧ machine = .sixteen := by
  cases w <;> simp [Architecture.ofWidth?, eq_comm]

end ArchWidth

namespace Image

/-- What every image has that an image file can stand for. Its memory is arbitrary. -/
structure WellFormed (image : Image) : Prop where
  width : image.width = .bits16
  code : IsCode image.rom
  entry : image.entry.toNat < image.rom.length

/-! ## The walk over the code -/

theorem splitRom_romEnd (machine : Architecture) (memory done : List UInt8) :
    splitRom machine (romEnd :: memory) done = .ok (done.reverse, memory) := by
  rw [splitRom]
  simp

/-- The walk takes a whole instruction off the front. -/
theorem splitRom_instruction (op : Opcode) (operands rest done : List UInt8)
    (h : operands.length = 2 * op.arity) :
    splitRom .sixteen (op.code :: (operands ++ rest)) done =
      splitRom .sixteen rest (operands.reverse ++ op.code :: done) := by
  rw [splitRom, if_neg op.code_ne_romEnd]
  simp [Architecture.sixteen_ofCode?, Opcode.ofCode?_code, ← h]

/-- The walk takes the code off the front, whatever follows its end marker. -/
theorem splitRom_of_isCode {rom : List UInt8} (h : IsCode rom) (memory done : List UInt8) :
    splitRom .sixteen (rom ++ romEnd :: memory) done = .ok (done.reverse ++ rom, memory) := by
  induction h generalizing done with
  | nil => simpa using splitRom_romEnd .sixteen memory done
  | cons op operands rest hlen _ ih =>
    rw [List.cons_append, List.append_assoc, splitRom_instruction op operands _ done hlen, ih]
    simp

/-- What the walk accepts is code, its end marker and something behind it. -/
theorem isCode_of_splitRom {machine : Architecture} {body done rom memory : List UInt8}
    (h : splitRom machine body done = .ok (rom, memory)) :
    ∃ code, IsCode code ∧ rom = done.reverse ++ code ∧ body = code ++ romEnd :: memory := by
  fun_induction splitRom machine body done with
  | case1 => simp at h
  | case2 done rest =>
    simp only [Except.ok.injEq, Prod.mk.injEq] at h
    obtain ⟨rfl, rfl⟩ := h
    exact ⟨[], .nil, by simp, by simp⟩
  | case3 => simp at h
  | case4 => simp at h
  | case5 done code rest hcode op hop operands hlen ih =>
    obtain ⟨tail, htail, hrom, hrest⟩ := ih h
    have hlength : operands.length = 2 * op.arity :=
      Nat.le_antisymm (List.length_take_le ..) (Nat.le_of_not_lt hlen)
    refine ⟨op.code :: (operands ++ tail), .cons op operands tail hlength htail, ?_, ?_⟩
    · rw [hrom, Architecture.code_of_ofCode? hop]
      simp
    · rw [Architecture.code_of_ofCode? hop, List.cons_append, List.append_assoc, ← hrest]
      simp [operands]

/-! ## The metadata -/

theorem word_halves (entry : UInt16) : word entry.toUInt8 (entry >>> 8).toUInt8 = entry := by
  apply UInt16.toNat_inj.mp
  have := entry.toNat_lt
  simp only [word, UInt16.toNat_add, UInt16.toNat_mul, UInt8.toNat_toUInt16, UInt16.toNat_toUInt8,
    UInt16.toNat_shiftRight, UInt16.reduceToNat, Nat.shiftRight_eq_div_pow, Nat.reduceMod,
    Nat.reducePow]
  omega

theorem toUInt8_word (low high : UInt8) : (word low high).toUInt8 = low := by
  apply UInt8.toNat_inj.mp
  have := low.toNat_lt
  simp only [word, UInt16.toNat_add, UInt16.toNat_mul, UInt8.toNat_toUInt16, UInt16.toNat_toUInt8,
    UInt16.reduceToNat]
  omega

theorem shiftRight_word (low high : UInt8) : (word low high >>> 8).toUInt8 = high := by
  apply UInt8.toNat_inj.mp
  have := low.toNat_lt
  have := high.toNat_lt
  simp only [word, UInt16.toNat_add, UInt16.toNat_mul, UInt8.toNat_toUInt16, UInt16.toNat_toUInt8,
    UInt16.toNat_shiftRight, UInt16.reduceToNat, Nat.shiftRight_eq_div_pow, Nat.reduceMod,
    Nat.reducePow]
  omega

/-- The metadata come off the back exactly where the end marker of the memory stands in front of
them and something stands in front of it. -/
theorem splitMetadata_eq_ok_iff {bytes body : List UInt8} {marker : UInt8} {entry : UInt16} :
    splitMetadata bytes = .ok (body, marker, entry) ↔
      body ≠ [] ∧
        bytes = body ++ memoryEnd :: [marker, entry.toUInt8, (entry >>> 8).toUInt8] := by
  constructor
  · intro h
    unfold splitMetadata at h
    split at h
    · next high low marker' last front x xs hrev =>
      split at h
      · next hlast =>
        simp only [Except.ok.injEq, Prod.mk.injEq] at h
        obtain ⟨rfl, rfl, rfl⟩ := h
        refine ⟨by simp, ?_⟩
        rw [toUInt8_word, shiftRight_word, ← List.reverse_reverse bytes, hrev, hlast]
        simp
      · simp at h
    · simp at h
  · intro hparts
    rcases hparts with ⟨hbody, rfl⟩
    have hrev : body.reverse ≠ [] := by simpa using hbody
    obtain ⟨x, xs, hx⟩ := List.exists_cons_of_ne_nil hrev
    have hbody' : body = (x :: xs).reverse := by rw [← hx, List.reverse_reverse]
    unfold splitMetadata
    simp [hbody', word_halves]

/-! ## Images and rows of bytes -/

/-- Reading succeeds where each of its parts does. -/
theorem ofBytes_eq_ok_iff_parts {bytes : List UInt8} {image : Image} :
    ofBytes bytes = .ok image ↔
      ∃ body machine, splitMetadata bytes = .ok (body, image.width.marker, image.entry) ∧
        Architecture.ofWidth? image.width = some machine ∧
        splitRom machine body [] = .ok (image.rom, image.memory) ∧
        image.entry.toNat < image.rom.length := by
  constructor
  · intro h
    unfold ofBytes at h
    obtain ⟨⟨body, marker, entry⟩, hmeta, h⟩ := Except.bind_eq_ok_iff.mp h
    cases hmarker : ArchWidth.ofMarker? marker with
    | none =>
      simp only [hmarker] at h
      cases h
    | some width =>
      simp only [hmarker] at h
      rw [ArchWidth.ofMarker?_eq_some_iff] at hmarker
      subst hmarker
      cases hmachine : Architecture.ofWidth? width with
      | none =>
        simp only [hmachine] at h
        cases h
      | some machine =>
        simp only [hmachine] at h
        obtain ⟨⟨rom, memory⟩, hrom, h⟩ := Except.bind_eq_ok_iff.mp h
        simp only at h
        split at h
        · cases h
        · next hentry =>
          cases h
          exact ⟨body, machine, hmeta, hmachine, hrom, Nat.lt_of_not_le hentry⟩
  · intro hparts
    rcases hparts with ⟨body, machine, hmeta, hmachine, hrom, hentry⟩
    unfold ofBytes
    rw [hmeta]
    simp [bind, Except.bind, pure, Except.pure, ArchWidth.ofMarker?_marker, hmachine, hrom,
      Nat.not_le_of_lt hentry]

theorem wellFormed_of_ofBytes {bytes : List UInt8} {image : Image}
    (h : ofBytes bytes = .ok image) : image.toBytes = bytes ∧ image.WellFormed := by
  obtain ⟨body, machine, hmeta, hmachine, hrom, hentry⟩ := ofBytes_eq_ok_iff_parts.mp h
  obtain ⟨-, hbytes⟩ := splitMetadata_eq_ok_iff.mp hmeta
  obtain ⟨code, hcode, hcode', hbody⟩ := isCode_of_splitRom hrom
  rw [List.reverse_nil, List.nil_append] at hcode'
  subst hcode'
  refine ⟨?_, (ArchWidth.ofWidth?_eq_some_iff.mp hmachine).1, hcode, hentry⟩
  rw [hbytes, hbody]
  simp [toBytes, metadata]

theorem ofBytes_toBytes_of_wellFormed {image : Image} (h : image.WellFormed) :
    ofBytes image.toBytes = .ok image := by
  rw [ofBytes_eq_ok_iff_parts]
  refine ⟨image.rom ++ romEnd :: image.memory, .sixteen, ?_, ?_, ?_, h.entry⟩
  · rw [splitMetadata_eq_ok_iff]
    exact ⟨by simp, by simp [toBytes, metadata]⟩
  · exact ArchWidth.ofWidth?_eq_some_iff.mpr ⟨h.width, rfl⟩
  · simpa using splitRom_of_isCode h.code image.memory []

/-- Reading undoes writing on the well-formed images, writing undoes reading on the rows of bytes
that are accepted, and every other row of bytes is refused. -/
theorem ofBytes_eq_ok_iff (bytes : List UInt8) :
    (∀ image : Image, ofBytes bytes = .ok image ↔ image.toBytes = bytes ∧ image.WellFormed) ∧
      ((∀ image : Image, image.WellFormed → image.toBytes ≠ bytes) →
        ∃ e, ofBytes bytes = .error e) := by
  have hiff (image : Image) :
      ofBytes bytes = .ok image ↔ image.toBytes = bytes ∧ image.WellFormed := by
    constructor
    · exact wellFormed_of_ofBytes
    · intro hparts
      rcases hparts with ⟨rfl, h⟩
      exact ofBytes_toBytes_of_wellFormed h
  refine ⟨hiff, fun hnone => ?_⟩
  cases h : ofBytes bytes with
  | error e => exact ⟨e, rfl⟩
  | ok image =>
    obtain ⟨hbytes, hformed⟩ := (hiff image).mp h
    exact absurd hbytes (hnone image hformed)

end Image

end TeachingCpu
