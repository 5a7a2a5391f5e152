import TeachingCpu.Proofs.Assembly.Relisted

/-!
# Room for string literals

The second pass puts the literals of a program into memory one behind the other, each text once.
Over the source text of a listing that is all that can fail, so that whether the text assembles is
a matter of sizes alone (`Listing.LiteralsFit`, `Assembled.exists_pass_iff`).
-/

namespace TeachingCpu

namespace Listing

/-- The string literal that an operand is written as, if it is one. -/
def literalOf (l : Listing) (o : Operand) : List (List UInt8) :=
  if o.mode = .str then [l.groupAt o.value.toNat] else []

/-- The string literals in the source text of a listing, in order. -/
def literals (l : Listing) : List (List UInt8) := l.operands.flatMap l.literalOf

/-- Strings that stand one behind the other from an address on, with their zero bytes in front of
the end of memory. Each starts at an address that fits in a byte. -/
def Stacked (size : Nat) : Nat → List (List UInt8) → Prop
  | _, [] => True
  | start, bytes :: rest =>
    start ≤ 255 ∧ start + bytes.length < size ∧ Stacked size (start + bytes.length + 1) rest

instance decidableStacked (size : Nat) :
    ∀ (start : Nat) (strings : List (List UInt8)), Decidable (Stacked size start strings)
  | _, [] => isTrue trivial
  | start, bytes :: rest =>
    have := decidableStacked size (start + bytes.length + 1) rest
    inferInstanceAs (Decidable (_ ∧ _ ∧ _))

/-- The different literals of a listing have room behind what it declares. -/
def LiteralsFit (l : Listing) (size : Nat) : Prop :=
  Stacked size l.dataEnd l.literals.eraseDups

instance (l : Listing) (size : Nat) : Decidable (l.LiteralsFit size) :=
  decidableStacked size l.dataEnd l.literals.eraseDups

end Listing

open Listing (ofInstructions Stacked)

namespace StringPool

/-- Texts are put into a pool one after the other, each at an address that fits in a byte. -/
def Interns : StringPool → List String → StringPool → Prop
  | p, [], q => q = p
  | p, text :: rest, q =>
    ∃ (address : UInt8) (p' : StringPool), intern text p = .ok address.toNat p' ∧ Interns p' rest q

theorem interns_append {p q : StringPool} {front back : List String} :
    Interns p (front ++ back) q ↔ ∃ p', Interns p front p' ∧ Interns p' back q := by
  induction front generalizing p with
  | nil => simp [Interns]
  | cons text front ih =>
    simp only [List.cons_append, Interns, ih]
    constructor
    · rintro ⟨address, p₁, hintern, p₂, hfront, hback⟩
      exact ⟨p₂, ⟨address, p₁, hintern, hfront⟩, hback⟩
    · rintro ⟨p₂, ⟨address, p₁, hintern, hfront⟩, hback⟩
      exact ⟨address, p₁, hintern, p₂, hfront, hback⟩

theorem interns_singleton {p q : StringPool} {text : String} :
    Interns p [text] q ↔ ∃ address : UInt8, intern text p = .ok address.toNat q := by
  simp [Interns, eq_comm]

/-- An action over a list does nothing but put texts into a pool where it does so for each
element. -/
theorem exists_mapM_iff {α β γ : Type} {f : α → Attempt StringPool β} {R : α → γ → Prop}
    {texts : γ → List String}
    (hstep : ∀ {a c p q}, R a c → ((∃ b, f a p = .ok b q) ↔ Interns p (texts c) q)) {as : List α}
    {cs : List γ} (hR : List.Forall₂ R as cs) {p q : StringPool} :
    (∃ bs, as.mapM f p = .ok bs q) ↔ Interns p (cs.flatMap texts) q := by
  induction hR generalizing p with
  | nil =>
    constructor
    · rintro ⟨bs, h⟩
      cases h
      rfl
    · intro h
      cases h
      exact ⟨[], rfl⟩
  | @cons a c as cs ha _ ih =>
    rw [List.flatMap_cons, interns_append, List.mapM_cons]
    constructor
    · rintro ⟨bs, h⟩
      obtain ⟨b, p₁, hfirst, h⟩ := Attempt.bind_eq_ok.mp h
      obtain ⟨bs', p₂, hrest, h⟩ := Attempt.bind_eq_ok.mp h
      cases h
      exact ⟨p₁, (hstep ha).mp ⟨b, hfirst⟩, ih.mp ⟨bs', hrest⟩⟩
    · rintro ⟨p₁, hfirst, hrest⟩
      obtain ⟨b, hfirst⟩ := (hstep ha).mpr hfirst
      obtain ⟨bs, hrest⟩ := ih.mpr hrest
      refine ⟨b :: bs, ?_⟩
      rw [Attempt.bind_of_ok hfirst, Attempt.bind_of_ok hrest]
      rfl

/-! ## Sizes -/

/-- Whether no literal of a pool has some bytes. -/
def isNew (p : StringPool) (bytes : List UInt8) : Bool :=
  (p.interned.find? (Text.ofBytes bytes)).isNone

theorem isNew_put (p : StringPool) (bytes other : List UInt8) :
    (p.put (Text.ofBytes bytes) bytes).isNew other = (!other == bytes && p.isNew other) := by
  unfold isNew
  by_cases hother : other = bytes
  · subst hother
    rw [find?_put_self]
    simp
  · rw [find?_put_of_ne (Text.ofBytes_injective.ne hother)]
    simp [hother]

theorem filter_isNew_put (p : StringPool) (bytes : List UInt8) (strings : List (List UInt8)) :
    strings.filter (p.put (Text.ofBytes bytes) bytes).isNew =
      (strings.filter p.isNew).filter (!· == bytes) := by
  rw [List.filter_filter]
  exact List.filter_congr fun other _ => isNew_put p bytes other

/-- The first use of a literal puts it into the pool, if it has room there. -/
theorem interns_cons_of_isNew {p q : StringPool} {bytes : List UInt8} (hnew : p.isNew bytes)
    {rest : List String} :
    Interns p (Text.ofBytes bytes :: rest) q ↔
      p.next ≤ 255 ∧ p.next + bytes.length ≤ p.memory.layout.lastAddressable.toNat ∧
        Interns (p.put (Text.ofBytes bytes) bytes) rest q := by
  have hfind : p.interned.find? (Text.ofBytes bytes) = none := Option.isNone_iff_eq_none.mp hnew
  have hintern : ∀ {address p'}, intern (Text.ofBytes bytes) p = .ok address p' ↔
      p.next + bytes.length ≤ p.memory.layout.lastAddressable.toNat ∧ address = p.next ∧
        p' = p.put (Text.ofBytes bytes) bytes := by
    intro address p'
    rw [intern_eq_ok_iff, hfind, Text.toBytes_ofBytes]
    simp
  constructor
  · rintro ⟨address, p', hput, hrest⟩
    obtain ⟨hfits, haddress, rfl⟩ := hintern.mp hput
    have hlt := address.toNat_lt
    exact ⟨by omega, hfits, hrest⟩
  · rintro ⟨hstart, hfits, hrest⟩
    have haddress : (UInt8.ofNat p.next).toNat = p.next :=
      UInt8.toNat_ofNat_of_lt' (Nat.lt_succ_of_le hstart)
    exact ⟨UInt8.ofNat p.next, _, hintern.mpr ⟨hfits, haddress, rfl⟩, hrest⟩

/-- Later uses do not change the pool. -/
theorem interns_cons_of_known {p q : StringPool} {text : String} {address : Nat}
    (hfind : p.interned.find? text = some address) (hle : address ≤ 255) {rest : List String} :
    Interns p (text :: rest) q ↔ Interns p rest q := by
  have hintern : ∀ {n p'}, intern text p = .ok n p' ↔ address = n ∧ p' = p := by
    intro n p'
    rw [intern_eq_ok_iff, hfind]
    simp
  constructor
  · rintro ⟨n, p', hknown, hrest⟩
    obtain ⟨-, rfl⟩ := hintern.mp hknown
    exact hrest
  · intro hrest
    have haddress : (UInt8.ofNat address).toNat = address :=
      UInt8.toNat_ofNat_of_lt' (Nat.lt_succ_of_le hle)
    exact ⟨UInt8.ofNat address, p, hintern.mpr ⟨haddress.symm, rfl⟩, hrest⟩

/-- Every literal of a pool has an address that fits in a byte. -/
def InByte (p : StringPool) : Prop :=
  ∀ text address, p.interned.find? text = some address → address ≤ 255

theorem InByte.put {p : StringPool} (h : p.InByte) (hstart : p.next ≤ 255) (text : String)
    (bytes : List UInt8) : (p.put text bytes).InByte := by
  intro other address hfind
  by_cases hother : other = text
  · rw [hother, find?_put_self] at hfind
    exact Option.some.inj hfind ▸ hstart
  · rw [find?_put_of_ne hother] at hfind
    exact h other address hfind

/-- Strings can be put into a pool exactly if those that are not in it have room, each once. -/
theorem exists_interns_iff {p : StringPool} (strings : List (List UInt8))
    (hpos : 0 < p.memory.layout.size) (hsize : p.memory.layout.size ≤ 65535) (hbyte : p.InByte) :
    (∃ q, Interns p (strings.map Text.ofBytes) q) ↔
      Stacked p.memory.layout.size p.next (strings.filter p.isNew).eraseDups := by
  induction strings generalizing p with
  | nil => simp [Interns, Stacked]
  | cons bytes strings ih =>
    rw [List.map_cons]
    cases hfind : p.interned.find? (Text.ofBytes bytes) with
    | some address =>
      have hknown : ¬ p.isNew bytes := by simp [isNew, hfind]
      rw [List.filter_cons_of_neg hknown, ← ih hpos hsize hbyte]
      exact exists_congr fun q => interns_cons_of_known hfind (hbyte _ _ hfind)
    | none =>
      have hnew : p.isNew bytes := by simp [isNew, hfind]
      have hlast := Layout.lastAddressable_eq hsize
      rw [List.filter_cons_of_pos hnew, List.eraseDups_cons, ← filter_isNew_put]
      simp only [interns_cons_of_isNew hnew, exists_and_left, Stacked]
      refine and_congr_right fun hstart => and_congr (by omega) ?_
      exact ih (p := p.put (Text.ofBytes bytes) bytes) hpos hsize (hbyte.put hstart _ bytes)

end StringPool

/-! ## Listings -/

namespace Assembled

variable {source : String} {config : Config} {image : Image} {layout : Layout} {d d' : Draft}
  {p : StringPool} {instructions : List Instruction}
  (h : Assembled source config image layout d p instructions)
  (hd' : Listing.Relaid (ofInstructions image instructions) layout d')

include h hd'

/-- An operand of the listing puts its string literal into the pool, if it is one. -/
theorem exists_encodeOperand_iff {t : Token} {o : Operand}
    (ho : o ∈ (ofInstructions image instructions).operands)
    (ht : (ofInstructions image instructions).Writes t o) {q q' : StringPool} :
    (∃ o', d'.encodeOperand t q = .ok o' q') ↔
      q.Interns (((ofInstructions image instructions).literalOf o).map Text.ofBytes) q' := by
  unfold Listing.literalOf
  by_cases hmode : o.mode = .str
  · obtain ⟨hkind, htext⟩ := ht.literal hmode
    rw [if_pos hmode, List.map_singleton, StringPool.interns_singleton, ← htext]
    constructor
    · rintro ⟨o', hencode⟩
      rcases Draft.encodeOperand_eq_ok_iff.mp hencode with ⟨-, -, hintern⟩ | ⟨hne, -⟩
      · exact ⟨o'.value, hintern⟩
      · exact absurd hkind hne
    · rintro ⟨address, hintern⟩
      exact ⟨⟨.str, address⟩, Draft.encodeOperand_eq_ok_iff.mpr (.inl ⟨hkind, rfl, hintern⟩)⟩
  · obtain ⟨hkind, htext⟩ := ht.word hmode
    have hword := h.wordOperand_operandSource hd' ho hmode
    rw [← htext] at hword
    rw [if_neg hmode]
    constructor
    · rintro ⟨o', hencode⟩
      rcases Draft.encodeOperand_eq_ok_iff.mp hencode with ⟨hstr, -⟩ | ⟨-, -, rfl⟩
      · exact absurd hstr hkind
      · rfl
    · intro hsame
      cases hsame
      exact ⟨o, Draft.encodeOperand_eq_ok_iff.mpr (.inr ⟨hkind, hword, rfl⟩)⟩

/-- The statement of an instruction puts its string literals into the pool. -/
theorem exists_encodeStatement_iff {s : Statement} {i : ListedInstruction}
    (hi : i ∈ (ofInstructions image instructions).instructions)
    (hs : Listing.Restates (ofInstructions image instructions) s i) {q q' : StringPool} :
    (∃ i', d'.encodeStatement s q = .ok i' q') ↔
      q.Interns ((i.instruction.operands.flatMap
        (ofInstructions image instructions).literalOf).map Text.ofBytes) q' := by
  have harity : s.operands.length = i.instruction.opcode.arity :=
    hs.writes.length_eq.trans (h.placeable.complete i hi)
  rw [List.map_flatMap, ← StringPool.exists_mapM_iff (f := d'.encodeOperand) (fun hparts =>
    h.exists_encodeOperand_iff hd' (List.mem_flatMap.mpr ⟨i, hi, hparts.1⟩) hparts.2)
    hs.writes.mem_right]
  constructor
  · rintro ⟨i', hencode⟩
    exact ⟨_, (Draft.encodeStatement_eq_ok_iff.mp hencode).2.2⟩
  · rintro ⟨operands, hmapM⟩
    exact ⟨⟨_, operands⟩, Draft.encodeStatement_eq_ok_iff.mpr ⟨hs.opcode, harity, hmapM⟩⟩

/-- The second pass over the source text of a listing succeeds exactly if the literals have room. -/
theorem exists_pass_iff :
    (∃ instructions' p',
        d'.statementList.mapM d'.encodeStatement d'.emptyPool = .ok instructions' p') ↔
      (ofInstructions image instructions).LiteralsFit config.memorySize := by
  obtain ⟨hsize, hmin, hmax⟩ := Config.size_of_layout h.layout_eq
  have hmemory : d'.memory.layout.size = layout.size := by rw [hd'.declared.layout]
  have hpass : ∀ p', (∃ instructions', d'.statementList.mapM d'.encodeStatement d'.emptyPool =
      .ok instructions' p') ↔ d'.emptyPool.Interns
        ((ofInstructions image instructions).literals.map Text.ofBytes) p' := by
    intro p'
    rw [StringPool.exists_mapM_iff (fun hparts =>
      h.exists_encodeStatement_iff hd' hparts.1 hparts.2) hd'.coded.statements.mem_right,
      Listing.literals, Listing.operands, List.flatMap_assoc, List.map_flatMap]
  have hnone : ∀ strings : List (List UInt8), strings.filter d'.emptyPool.isNew = strings :=
    fun strings => List.filter_eq_self.mpr fun _ _ => rfl
  have hinterns := StringPool.exists_interns_iff (p := d'.emptyPool)
    (ofInstructions image instructions).literals
    (show 0 < d'.memory.layout.size by omega) (show d'.memory.layout.size ≤ 65535 by omega)
    (fun text address hfind => by cases hfind)
  rw [exists_comm, exists_congr hpass, hinterns, hnone, Listing.LiteralsFit, ← hsize, ← hmemory,
    ← hd'.dataEnd]
  rfl

end Assembled

end TeachingCpu
