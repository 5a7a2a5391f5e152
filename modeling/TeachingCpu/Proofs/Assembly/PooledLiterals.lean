import TeachingCpu.Proofs.Assembly.DataLayout
import TeachingCpu.Proofs.Text.Latin1

/-!
# String literals in memory

The second pass puts every string literal into memory once, behind the data that the first pass
wrote. In the image that comes out, each literal stands complete at the address of its operands,
and no literal lies on another one or on the data (`literalsPooled_of_assemble`).
-/

namespace TeachingCpu

namespace StringPool

/-- Different literals of a pool stand apart from each other, with their zero bytes. -/
def Apart (p : StringPool) : Prop :=
  ∀ text text' address address', p.interned.find? text = some address →
    p.interned.find? text' = some address' → text ≠ text' →
      address + text.length < address' ∨ address' + text'.length < address

section Put

variable {d : Draft} {p : StringPool}

/-- The literals of a pool lie in front of the next one. -/
theorem Sound.lt_next (h : p.Sound d) {text : String} {address : Nat}
    (hfind : p.interned.find? text = some address) : address + text.length < p.next := by
  obtain ⟨bytes, hbytes, -, hlt, -⟩ := h.literals text address hfind
  rwa [← Text.length_of_toBytes hbytes]

/-- A literal that is put behind all others stands apart from them. -/
theorem Apart.put (h : p.Apart) (hsound : p.Sound d) (text : String) (bytes : List UInt8) :
    (p.put text bytes).Apart := by
  intro left right address address' hleft hright hne
  by_cases hnewLeft : left = text
  · subst hnewLeft
    rw [find?_put_self] at hleft
    rw [find?_put_of_ne (Ne.symm hne)] at hright
    obtain rfl := Option.some.inj hleft
    exact .inr (hsound.lt_next hright)
  · rw [find?_put_of_ne hnewLeft] at hleft
    by_cases hnewRight : right = text
    · subst hnewRight
      rw [find?_put_self] at hright
      obtain rfl := Option.some.inj hright
      exact .inl (hsound.lt_next hleft)
    · rw [find?_put_of_ne hnewRight] at hright
      exact h left right address address' hleft hright hne

theorem Apart.of_intern (h : p.Apart) (hsound : p.Sound d) {text : String} {address : Nat}
    {p' : StringPool} (hintern : intern text p = .ok address p') : p'.Apart := by
  rcases intern_eq_ok_iff.mp hintern with ⟨-, rfl⟩ | ⟨-, bytes, -, -, -, rfl⟩
  · exact h
  · exact h.put hsound text bytes

end Put

end StringPool

namespace Draft

section Pass

variable {d : Draft} {p p' : StringPool} (hpos : 0 < d.memory.layout.size)
  (hsize : d.memory.layout.size ≤ 65535)

include hpos hsize

/-- The second pass keeps literals apart from each other. -/
theorem apart_of_mapM (hsound : p.Sound d) (h : p.Apart) {statements : List Statement}
    {instructions : List Instruction}
    (hencode : statements.mapM d.encodeStatement p = .ok instructions p') : p'.Apart := by
  have hpool : p'.Sound d ∧ p'.Apart := by
    refine Attempt.invariant_of_mapM (fun q => q.Sound d ∧ q.Apart) ?_ ⟨hsound, h⟩ hencode
    intro s _ q i q' hq hstatement
    obtain ⟨-, -, hoperands⟩ := encodeStatement_eq_ok_iff.mp hstatement
    refine Attempt.invariant_of_mapM (fun q => q.Sound d ∧ q.Apart) ?_ hq hoperands
    intro t _ r o r' hr hoperand
    refine ⟨(encodes_of_encodeOperand hpos hsize hr.1 hoperand).1, ?_⟩
    rcases encodeOperand_eq_ok_iff.mp hoperand with ⟨-, -, hintern⟩ | ⟨-, -, rfl⟩
    · exact hr.2.of_intern hr.1 hintern
    · exact hr.2
  exact hpool.2

end Pass

/-! ## Tokens and operands -/

theorem Encodes.mode_eq_str_iff {d : Draft} {p : StringPool} {t : Token} {o : Operand}
    (h : d.Encodes p t o) : o.mode = .str ↔ t.kind = .str := by
  cases h with
  | literal hkind _ => exact iff_of_true rfl hkind
  | @word mode value hkind hword =>
    refine iff_of_false (fun hmode => ?_) hkind
    obtain rfl : mode = .str := hmode
    exact denotes_of_wordOperand hword

end Draft

/-- The contents of memory that an image starts with hold some bytes at an address, and a zero byte
behind them. Behind the bytes of the image, memory is zero. -/
def Image.HoldsString (image : Image) (address : Nat) (bytes : List UInt8) : Prop :=
  ∀ k ≤ bytes.length, image.memory.getD (address + k) 0 = bytes.getD k 0

open Draft (StandsFor statementsOf outline writesOf declarations?)

/-- Where the string literals of a program are in the memory of its image, which has a size and in
which data end at an address. -/
structure LiteralsPooled (statements : List (Nat × Token × List Token))
    (listed : List ListedInstruction) (image : Image) (size dataEnd : Nat) : Prop where
  /-- Every statement is an instruction, and its operands are the string operands where they are
  literals. -/
  operands : List.Forall₂ (fun s l => List.Forall₂ (fun t o => o.mode = .str ↔ t.kind = .str)
    s.2.2 l.instruction.operands) statements listed
  /-- A literal stands at its address, behind the data and inside memory. -/
  stored : ∀ t o, StandsFor statements listed t o → t.kind = .str →
    ∃ bytes, Text.toBytes t.text = .ok bytes ∧ image.HoldsString o.value.toNat bytes ∧
      dataEnd ≤ o.value.toNat ∧ o.value.toNat + bytes.length < size
  /-- Literals have one address exactly if they are equal. -/
  same_iff : ∀ t o t' o', StandsFor statements listed t o → StandsFor statements listed t' o' →
    t.kind = .str → t'.kind = .str → (o.value = o'.value ↔ t.text = t'.text)
  /-- Different literals stand apart from each other, with their zero bytes. -/
  apart : ∀ t o t' o', StandsFor statements listed t o → StandsFor statements listed t' o' →
    t.kind = .str → t'.kind = .str → t.text ≠ t'.text →
      o.value.toNat + t.text.length < o'.value.toNat ∨
        o'.value.toNat + t'.text.length < o.value.toNat

namespace Assembled

variable {source : String} {config : Config} {image : Image} {layout : Layout} {d : Draft}
  {p : StringPool} {instructions : List Instruction}
  (h : Assembled source config image layout d p instructions)

include h

theorem apart_pool : p.Apart := by
  obtain ⟨-, hmin, hmax⟩ := Config.size_of_layout h.layout_eq
  have hsize : d.memory.layout.size = layout.size := by rw [h.draft.layout]
  refine Draft.apart_of_mapM (by omega) (by omega) (StringPool.sound_emptyPool h.draft) ?_ h.pass
  intro text text' address address' hfind
  cases hfind

section Outline

variable {lines : List Line} (hplaced : (Draft.empty layout).Placed (outline lines) d)

include hplaced

/-- The operand of a literal is its address in the pool. -/
theorem find?_of_standsFor {t : Token} {o : Operand}
    (hstands : StandsFor (statementsOf (outline lines)) (Listing.listFrom 0 instructions) t o)
    (hkind : t.kind = .str) : p.interned.find? t.text = some o.value.toNat := by
  cases hstands.rel (h.forall₂_encodes hplaced) with
  | literal _ hfind => exact hfind
  | word hne _ => exact absurd hkind hne

theorem literalsPooled :
    LiteralsPooled (statementsOf (outline lines)) (Listing.listFrom 0 instructions) image
      config.memorySize d.dataEnd where
  operands := (h.forall₂_encodes hplaced).imp fun _ _ hoperands =>
    hoperands.imp fun _ _ => Draft.Encodes.mode_eq_str_iff
  stored t o hstands hkind := by
    obtain ⟨hsize, hmin, hmax⟩ := Config.size_of_layout h.layout_eq
    obtain ⟨bytes, hbytes, hstart, hend, hholds⟩ :=
      h.pool.literals _ _ (h.find?_of_standsFor hplaced hstands hkind)
    have hbound := h.pool.bound
    rw [h.pool.layout, h.draft.layout, Layout.lastAddressable_eq hmax] at hbound
    refine ⟨bytes, hbytes, fun k hk => ?_, hstart, by omega⟩
    rw [h.getD_memory]
    exact hholds k hk
  same_iff t o t' o' hstands hstands' hkind hkind' := by
    have hfind := h.find?_of_standsFor hplaced hstands hkind
    have hfind' := h.find?_of_standsFor hplaced hstands' hkind'
    constructor
    · intro hsame
      by_contra hne
      rw [hsame] at hfind
      rcases h.apart_pool _ _ _ _ hfind hfind' hne with hlt | hlt <;> omega
    · intro hsame
      rw [hsame, hfind'] at hfind
      exact UInt8.toNat_inj.mp (Option.some.inj hfind).symm
  apart t o t' o' hstands hstands' hkind hkind' hne :=
    h.apart_pool _ _ _ _ (h.find?_of_standsFor hplaced hstands hkind)
      (h.find?_of_standsFor hplaced hstands' hkind') hne

end Outline

end Assembled

/-- In the image of a source that is accepted, string literals lie in memory behind the data, and
the data are as the first pass wrote them. -/
theorem literalsPooled_of_assemble {source : String} {config : Config} {image : Image}
    (h : assemble source config = .ok image) :
    ∃ lines d listed declared, Source.read source = .ok lines ∧
      Draft.read source config = .ok d ∧ Listing.decodeRom image.rom = .ok listed ∧
      LiteralsPooled (statementsOf (outline lines)) listed image config.memorySize d.dataEnd ∧
      declarations? source = some declared ∧
      ∀ w ∈ writesOf declared, w.stop ≤ d.dataEnd ∧
        ∀ k, w.address ≤ k → k < w.stop → image.memory.getD k 0 = d.memory.byteAt k := by
  obtain ⟨layout, d, p, instructions, hA⟩ := exists_assembled h
  obtain ⟨lines, hlines, hplaced⟩ := hA.exists_outline
  obtain ⟨_, declared, -, hdeclared, hdeclares⟩ := Draft.declares_of_read hA.read
  refine ⟨lines, d, _, declared, hlines, hA.read, hA.decodeRom_eq, hA.literalsPooled hplaced,
    hdeclared, fun w hw => ?_⟩
  have hstop := hdeclares.stores.stop_le_dataEnd hw
  refine ⟨hstop, fun k _ hk => ?_⟩
  rw [hA.getD_memory]
  exact hA.pool.data k (Nat.lt_of_lt_of_le hk hstop)

/-- A literal with a zero in it that is used twice, its beginning, an empty one, and data in front
of them that do not start at zero. -/
def literalsBehindData : String :=
  ".DATA\norg 2 x 7 \"é\"\nend\n.MAIN\nlea %bx \"a\\0b\"\nlea %cx \"\"\nlea %di \"a\\0b\"\n" ++
    "lea %dp \"a\"\nhalt"

theorem literalsPooled_literalsBehindData :
    ∃ image lines d listed, assemble literalsBehindData { memorySize := 32 } = .ok image ∧
      image.memory = [0, 0, 7, 0, 233, 0, 97, 0, 98, 0, 0, 97] ∧
      image.rom = [35, 1, 13, 6, 6, 35, 1, 14, 6, 10, 35, 1, 22, 6, 6, 35, 1, 23, 6, 11, 1] ∧
      Source.read literalsBehindData = .ok lines ∧
      Draft.read literalsBehindData { memorySize := 32 } = .ok d ∧
      Listing.decodeRom image.rom = .ok listed ∧
      LiteralsPooled (statementsOf (outline lines)) listed image 32 d.dataEnd := by
  have hassemble : assemble literalsBehindData { memorySize := 32 } =
      .ok ⟨[35, 1, 13, 6, 6, 35, 1, 14, 6, 10, 35, 1, 22, 6, 6, 35, 1, 23, 6, 11, 1],
        [0, 0, 7, 0, 233, 0, 97, 0, 98, 0, 0, 97], .bits16, 0⟩ := by
    decide +kernel
  obtain ⟨lines, d, listed, _, hlines, hread, hdecode, hpooled, -⟩ :=
    literalsPooled_of_assemble hassemble
  exact ⟨_, lines, d, listed, hassemble, rfl, rfl, hlines, hread, hdecode, hpooled⟩

end TeachingCpu
