import TeachingCpu.Proofs.Assembly.Draft

/-!
# Invariants of the second pass

The pool of string literals lies behind the data and is filled from its start on. What a pool
holds it keeps, and `Draft.encodes_of_mapM` says what the instructions of a draft stand for in
terms of the pool that the pass ends with.
-/

namespace TeachingCpu

namespace Attempt

variable {σ τ α α' β γ : Type}

/-- Along the elements of a list, an action keeps an invariant and what is known of the results so
far. -/
theorem forall₂_of_mapM {f : α → Attempt σ β} (I : σ → Prop) (R : σ → α → β → Prop)
    (hstep : ∀ {a s b t}, I s → f a s = .ok b t → I t ∧ R t a b)
    (hkeep : ∀ {a s b t}, I s → f a s = .ok b t → ∀ {a' b'}, R s a' b' → R t a' b') :
    ∀ {as : List α} {bs : List β} {s t : σ}, I s → as.mapM f s = .ok bs t →
      I t ∧ List.Forall₂ (R t) as bs ∧ ∀ {a b}, R s a b → R t a b := by
  intro as
  induction as with
  | nil =>
    intro bs s t hs h
    cases h
    exact ⟨hs, .nil, id⟩
  | cons a as ih =>
    intro bs s u hs h
    rw [List.mapM_cons] at h
    obtain ⟨b, t, hfirst, h⟩ := bind_eq_ok.mp h
    obtain ⟨rest, u', hrest, h⟩ := bind_eq_ok.mp h
    cases h
    obtain ⟨ht, hb⟩ := hstep hs hfirst
    obtain ⟨hu, hall, hlater⟩ := ih ht hrest
    exact ⟨hu, .cons (hlater hb) hall, fun h => hlater (hkeep hs hfirst h)⟩

/-- Along the elements of a list, an action keeps what it keeps at each of them. -/
theorem invariant_of_mapM {f : α → Attempt σ β} (I : σ → Prop) {as : List α}
    (hstep : ∀ a ∈ as, ∀ {s b t}, I s → f a s = .ok b t → I t) :
    ∀ {bs : List β} {s t : σ}, I s → as.mapM f s = .ok bs t → I t := by
  induction as with
  | nil =>
    intro bs s t hs h
    cases h
    exact hs
  | cons a as ih =>
    intro bs s u hs h
    rw [List.mapM_cons] at h
    obtain ⟨b, t, hfirst, h⟩ := bind_eq_ok.mp h
    obtain ⟨rest, u', hrest, h⟩ := bind_eq_ok.mp h
    cases h
    have ht := hstep a List.mem_cons_self hs hfirst
    exact ih (fun a' ha' => hstep a' (List.mem_cons_of_mem a ha')) ht hrest

/-- Two actions that go hand in hand do so along lists. -/
theorem mapM_simulation {f : α → Attempt σ β} {g : α' → Attempt τ γ} (S : σ → τ → Prop)
    (R : α → α' → Prop) (Q : β → γ → Prop)
    (hstep : ∀ {a a' s t b s'}, R a a' → S s t → f a s = .ok b s' →
      ∃ c t', g a' t = .ok c t' ∧ S s' t' ∧ Q b c) :
    ∀ {as : List α} {as' : List α'} {bs : List β} {s s' : σ} {t : τ}, List.Forall₂ R as as' →
      S s t → as.mapM f s = .ok bs s' →
        ∃ cs t', as'.mapM g t = .ok cs t' ∧ S s' t' ∧ List.Forall₂ Q bs cs := by
  intro as as' bs s s' t hR
  induction hR generalizing bs s s' t with
  | nil =>
    intro hS h
    cases h
    exact ⟨[], t, rfl, hS, .nil⟩
  | cons hfirst hrest ih =>
    intro hS h
    rw [List.mapM_cons] at h
    obtain ⟨b, s₁, hb, h⟩ := bind_eq_ok.mp h
    obtain ⟨bs', s₂, hbs, h⟩ := bind_eq_ok.mp h
    cases h
    obtain ⟨c, t₁, hc, hS₁, hQ⟩ := hstep hfirst hS hb
    obtain ⟨cs, t₂, hcs, hS₂, hQs⟩ := ih hS₁ hbs
    refine ⟨c :: cs, t₂, ?_, hS₂, .cons hQ hQs⟩
    rw [List.mapM_cons, bind_of_ok hc, bind_of_ok hcs]
    rfl

end Attempt

namespace StringPool

/-- The pool with one more literal. -/
def put (p : StringPool) (text : String) (bytes : List UInt8) : StringPool where
  memory := p.memory.replace p.next (bytes ++ [0])
  next := p.next + bytes.length + 1
  interned := p.interned.define text p.next

/-- A literal is in the pool already, or it is put there. -/
theorem intern_eq_ok_iff {text : String} {p p' : StringPool} {address : Nat} :
    intern text p = .ok address p' ↔
      (p.interned.find? text = some address ∧ p' = p) ∨
        (p.interned.find? text = none ∧ ∃ bytes, Text.toBytes text = .ok bytes ∧
          p.next + bytes.length ≤ p.memory.layout.lastAddressable.toNat ∧
          address = p.next ∧ p' = p.put text bytes) := by
  unfold intern
  rw [Attempt.get_bind_apply]
  cases hfind : p.interned.find? text with
  | some known =>
    constructor
    · intro h
      cases h
      exact .inl ⟨rfl, rfl⟩
    · intro hcase
      rcases hcase with ⟨hknown, rfl⟩ | ⟨hnone, -⟩
      · cases hknown
        rfl
      · cases hnone
  | none =>
    cases hbytes : Text.toBytes text with
    | error c =>
      apply iff_of_false
      · intro h
        cases h
      · intro hcase
        rcases hcase with ⟨hknown, -⟩ | ⟨-, bytes, hok, -⟩
        · cases hknown
        · cases hok
    | ok bytes =>
      dsimp only
      constructor
      · intro h
        obtain ⟨stored, p₁, hintern, h⟩ := Attempt.bind_eq_ok.mp h
        obtain ⟨hwrite, rfl⟩ := Attempt.ofExcept_eq_ok.mp hintern
        obtain ⟨hfits, rfl⟩ := Memory.storeString_eq_ok_iff.mp hwrite
        cases h
        exact .inr ⟨rfl, bytes, rfl, hfits, rfl, rfl⟩
      · intro hcase
        rcases hcase with ⟨hknown, -⟩ | ⟨-, bytes', hok, hfits, rfl, rfl⟩
        · cases hknown
        · cases hok
          have hwrite : p.memory.storeString p.next bytes =
              .ok (p.next + bytes.length, p.memory.replace p.next (bytes ++ [0])) :=
            Memory.storeString_eq_ok_iff.mpr ⟨hfits, rfl⟩
          rw [hwrite]
          rfl

/-- A literal stands in a memory, with a zero byte behind it. -/
def Holds (m : Memory) (address : Nat) (bytes : List UInt8) : Prop :=
  ∀ k ≤ bytes.length, m.byteAt (address + k) = bytes.getD k 0

/-- A pool lies behind the data of a draft and ends with a zero byte. Its literals stand in memory,
and memory holds nothing else there. -/
structure Sound (d : Draft) (p : StringPool) : Prop where
  layout : p.memory.layout = d.memory.layout
  start : d.dataEnd ≤ p.next
  bound : p.next ≤ p.memory.layout.lastAddressable.toNat + 1
  data : ∀ k < d.dataEnd, p.memory.byteAt k = d.memory.byteAt k
  zero : ∀ k, p.next ≤ k + 1 → p.memory.byteAt k = 0
  literals : ∀ text address, p.interned.find? text = some address →
    ∃ bytes, Text.toBytes text = .ok bytes ∧ d.dataEnd ≤ address ∧
      address + bytes.length < p.next ∧ Holds p.memory address bytes
  covered : ∀ k, d.dataEnd ≤ k → p.memory.byteAt k ≠ 0 →
    ∃ text address bytes, p.interned.find? text = some address ∧
      Text.toBytes text = .ok bytes ∧ address ≤ k ∧ k < address + bytes.length

theorem sound_emptyPool {layout : Layout} {d : Draft} (h : d.Sound layout) :
    Sound d d.emptyPool := by
  refine ⟨rfl, le_rfl, h.data.bound, fun _ _ => rfl, h.data.zero, ?_, ?_⟩
  · intro text address hfind
    cases hfind
  · intro k hk hbyte
    exact absurd (h.data.zero k (Nat.le_succ_of_le hk)) hbyte

section Put

variable {d : Draft} {p : StringPool} {text : String} {bytes : List UInt8}

/-- A byte behind a literal that was put. -/
theorem Sound.byteAt_put (h : Sound d p) (text : String) (hpos : 0 < d.memory.layout.size)
    (hsize : d.memory.layout.size ≤ 65535)
    (hfits : p.next + bytes.length ≤ p.memory.layout.lastAddressable.toNat) (k : Nat) :
    (p.put text bytes).memory.byteAt k =
      if p.next ≤ k ∧ k ≤ p.next + bytes.length then bytes.getD (k - p.next) 0
      else p.memory.byteAt k := by
  have hlast := Layout.lastAddressable_eq (h.layout ▸ hsize)
  rw [← h.layout] at hpos
  exact Memory.byteAt_replace_string (by omega) k

theorem find?_put_self (p : StringPool) (text : String) (bytes : List UInt8) :
    (p.put text bytes).interned.find? text = some p.next :=
  SymbolTable.find?_define_self _ _ _

theorem find?_put_of_ne {other : String} (h : other ≠ text) :
    (p.put text bytes).interned.find? other = p.interned.find? other :=
  SymbolTable.find?_define_of_ne p.interned h p.next

/-- The literals of a pool, with one more. -/
theorem Sound.literals_put (h : Sound d p)
    (hbyte : ∀ k, (p.put text bytes).memory.byteAt k =
      if p.next ≤ k ∧ k ≤ p.next + bytes.length then bytes.getD (k - p.next) 0
      else p.memory.byteAt k)
    (hbytes : Text.toBytes text = .ok bytes) {other : String} {address : Nat}
    (hfind : (p.put text bytes).interned.find? other = some address) :
    ∃ bytes', Text.toBytes other = .ok bytes' ∧ d.dataEnd ≤ address ∧
      address + bytes'.length < p.next + bytes.length + 1 ∧
      Holds (p.put text bytes).memory address bytes' := by
  by_cases hother : other = text
  · subst hother
    have haddress : p.next = address := by
      rw [find?_put_self] at hfind
      exact Option.some.inj hfind
    subst haddress
    refine ⟨bytes, hbytes, h.start, Nat.lt_succ_self _, ?_⟩
    intro k hk
    rw [hbyte, if_pos (by omega), Nat.add_sub_cancel_left]
  · rw [find?_put_of_ne hother] at hfind
    obtain ⟨bytes', hbytes', hbehind, hend, hholds⟩ := h.literals other address hfind
    refine ⟨bytes', hbytes', hbehind, by omega, ?_⟩
    intro k hk
    rw [hbyte, if_neg (by omega)]
    exact hholds k hk

/-- Behind the data, bytes that are not zero belong to literals. -/
theorem Sound.covered_put (h : Sound d p)
    (hbyte : ∀ k, (p.put text bytes).memory.byteAt k =
      if p.next ≤ k ∧ k ≤ p.next + bytes.length then bytes.getD (k - p.next) 0
      else p.memory.byteAt k)
    (hbytes : Text.toBytes text = .ok bytes) (hnew : p.interned.find? text = none) {k : Nat}
    (hk : d.dataEnd ≤ k) (hnonzero : (p.put text bytes).memory.byteAt k ≠ 0) :
    ∃ other address bytes', (p.put text bytes).interned.find? other = some address ∧
      Text.toBytes other = .ok bytes' ∧ address ≤ k ∧ k < address + bytes'.length := by
  rw [hbyte] at hnonzero
  by_cases hin : p.next ≤ k ∧ k ≤ p.next + bytes.length
  · rw [if_pos hin] at hnonzero
    have hlt : k - p.next < bytes.length := by
      by_contra hge
      exact hnonzero (List.getD_eq_default _ _ (Nat.le_of_not_lt hge))
    exact ⟨text, p.next, bytes, find?_put_self p text bytes, hbytes, hin.1, by omega⟩
  · rw [if_neg hin] at hnonzero
    obtain ⟨other, address, bytes', hfind, hbytes', hle, hlt⟩ := h.covered k hk hnonzero
    have hother : other ≠ text := by
      intro heq
      rw [heq, hnew] at hfind
      cases hfind
    rw [← find?_put_of_ne hother] at hfind
    exact ⟨other, address, bytes', hfind, hbytes', hle, hlt⟩

theorem Sound.put (h : Sound d p) (hpos : 0 < d.memory.layout.size)
    (hsize : d.memory.layout.size ≤ 65535) (hbytes : Text.toBytes text = .ok bytes)
    (hfits : p.next + bytes.length ≤ p.memory.layout.lastAddressable.toNat)
    (hnew : p.interned.find? text = none) : Sound d (p.put text bytes) := by
  have hstart := h.start
  have hbyte := h.byteAt_put text hpos hsize hfits
  refine ⟨h.layout, ?_, ?_, ?_, ?_, ?_, ?_⟩
  · show d.dataEnd ≤ p.next + bytes.length + 1
    omega
  · show p.next + bytes.length + 1 ≤ p.memory.layout.lastAddressable.toNat + 1
    omega
  · intro k hk
    rw [hbyte, if_neg (by omega), h.data k hk]
  · intro k hk
    have hk' : p.next + bytes.length + 1 ≤ k + 1 := hk
    rw [hbyte]
    split
    · exact List.getD_eq_default _ _ (by omega)
    · exact h.zero k (by omega)
  · intro other address hfind
    exact h.literals_put hbyte hbytes hfind
  · intro k hk hnonzero
    exact h.covered_put hbyte hbytes hnew hk hnonzero

end Put

/-- What is in a pool stays there. -/
def Extends (p p' : StringPool) : Prop :=
  ∀ text address, p.interned.find? text = some address → p'.interned.find? text = some address

theorem extends_put {p : StringPool} {text : String} (bytes : List UInt8)
    (hnew : p.interned.find? text = none) : Extends p (p.put text bytes) := by
  intro other address hfind
  have hother : other ≠ text := by
    intro heq
    rw [heq, hnew] at hfind
    cases hfind
  rw [find?_put_of_ne hother, hfind]

theorem Sound.of_intern {d : Draft} {p p' : StringPool} (h : Sound d p)
    (hpos : 0 < d.memory.layout.size) (hsize : d.memory.layout.size ≤ 65535) {text : String}
    {address : Nat} (hintern : intern text p = .ok address p') :
    Sound d p' ∧ Extends p p' ∧ p'.interned.find? text = some address := by
  rcases intern_eq_ok_iff.mp hintern with ⟨hknown, rfl⟩ | ⟨hnew, bytes, hbytes, hfits, rfl, rfl⟩
  · exact ⟨h, fun _ _ => id, hknown⟩
  · exact ⟨h.put hpos hsize hbytes hfits hnew, extends_put bytes hnew,
      SymbolTable.find?_define_self _ _ _⟩

end StringPool

namespace Draft

open StringPool (Extends)

theorem operandByte_eq_ok_iff {text : String} {n : Nat} {v : UInt8} :
    operandByte text n = .ok v ↔ n = v.toNat := by
  unfold operandByte
  constructor
  · intro h
    split at h
    · next hle =>
      cases h
      rw [Nat.toUInt8_eq, UInt8.toNat_ofNat']
      omega
    · cases h
  · intro heq
    subst heq
    have hlt := v.toNat_lt
    rw [if_pos (by omega)]
    simp

/-- What an operand stands for in a token, given the literals of a pool. -/
inductive Encodes (d : Draft) (p : StringPool) (t : Token) : Operand → Prop where
  | literal {value : UInt8} (hkind : t.kind = .str)
    (hfind : p.interned.find? t.text = some value.toNat) : Encodes d p t ⟨.str, value⟩
  | word {mode : Mode} {value : UInt8} (hkind : t.kind ≠ .str)
    (hword : d.wordOperand t.text = .ok (mode, value.toNat)) : Encodes d p t ⟨mode, value⟩

theorem Encodes.extend {d : Draft} {p p' : StringPool} (hextends : Extends p p') {t : Token}
    {o : Operand} (h : Encodes d p t o) : Encodes d p' t o := by
  cases h with
  | literal hkind hfind => exact .literal hkind (hextends _ _ hfind)
  | word hkind hword => exact .word hkind hword

/-- An instruction stands for a statement. -/
structure EncodesStatement (d : Draft) (p : StringPool) (s : Statement) (i : Instruction) :
    Prop where
  opcode : opcode? s.mnemonic = some i.opcode
  arity : s.operands.length = i.opcode.arity
  operands : List.Forall₂ (Encodes d p) s.operands i.operands

theorem EncodesStatement.extend {d : Draft} {p p' : StringPool} (hextends : Extends p p')
    {s : Statement} {i : Instruction} (h : EncodesStatement d p s i) :
    EncodesStatement d p' s i :=
  ⟨h.opcode, h.arity, h.operands.imp fun _ _ => Encodes.extend hextends⟩

section Pass

variable {d : Draft} {p p' : StringPool}

theorem encodeOperand_eq_ok_iff {t : Token} {o : Operand} :
    d.encodeOperand t p = .ok o p' ↔
      (t.kind = .str ∧ o.mode = .str ∧ StringPool.intern t.text p = .ok o.value.toNat p') ∨
        (t.kind ≠ .str ∧ d.wordOperand t.text = .ok (o.mode, o.value.toNat) ∧ p' = p) := by
  rw [encodeOperand, Attempt.mapError_eq_ok]
  by_cases hkind : t.kind = .str
  · rw [if_pos hkind]
    constructor
    · intro h
      obtain ⟨address, p₁, hintern, h⟩ := Attempt.bind_eq_ok.mp h
      obtain ⟨value, p₂, hvalue, h⟩ := Attempt.bind_eq_ok.mp h
      obtain ⟨hbyte, rfl⟩ := Attempt.ofExcept_eq_ok.mp hvalue
      cases h
      rw [operandByte_eq_ok_iff.mp hbyte] at hintern
      exact .inl ⟨hkind, rfl, hintern⟩
    · intro hcase
      rcases hcase with ⟨-, hmode, hintern⟩ | ⟨hword, -⟩
      · rw [Attempt.bind_of_ok hintern, operandByte_eq_ok_iff.mpr rfl]
        cases o
        cases hmode
        rfl
      · exact absurd hkind hword
  · rw [if_neg hkind]
    constructor
    · intro h
      obtain ⟨⟨mode, n⟩, p₁, hread, h⟩ := Attempt.bind_eq_ok.mp h
      obtain ⟨hword, rfl⟩ := Attempt.ofExcept_eq_ok.mp hread
      obtain ⟨value, p₂, hvalue, h⟩ := Attempt.bind_eq_ok.mp h
      obtain ⟨hbyte, rfl⟩ := Attempt.ofExcept_eq_ok.mp hvalue
      cases h
      rw [operandByte_eq_ok_iff.mp hbyte] at hword
      exact .inr ⟨hkind, hword, rfl⟩
    · intro hcase
      rcases hcase with ⟨hstr, -⟩ | ⟨-, hword, rfl⟩
      · exact absurd hstr hkind
      · rw [hword]
        simp only [Attempt.ofExcept_ok_bind_apply]
        rw [operandByte_eq_ok_iff.mpr rfl]
        rfl

theorem encodeStatement_eq_ok_iff {s : Statement} {i : Instruction} :
    d.encodeStatement s p = .ok i p' ↔
      opcode? s.mnemonic = some i.opcode ∧ s.operands.length = i.opcode.arity ∧
        s.operands.mapM d.encodeOperand p = .ok i.operands p' := by
  rw [encodeStatement, Attempt.mapError_eq_ok]
  cases hopcode : opcode? s.mnemonic with
  | none =>
    apply iff_of_false
    · intro h
      cases h
    · intro hparts
      rcases hparts with ⟨hsome, -⟩
      cases hsome
  | some opcode =>
    dsimp only
    by_cases harity : s.operands.length = opcode.arity
    · rw [if_neg (not_not.mpr harity)]
      constructor
      · intro h
        obtain ⟨operands, p₁, hoperands, h⟩ := Attempt.bind_eq_ok.mp h
        cases h
        exact ⟨rfl, harity, hoperands⟩
      · intro hparts
        rcases hparts with ⟨hsome, -, hoperands⟩
        rw [Attempt.bind_of_ok hoperands]
        cases i
        cases hsome
        rfl
    · rw [if_pos harity]
      apply iff_of_false
      · intro h
        cases h
      · intro hparts
        rcases hparts with ⟨hsome, hlength, -⟩
        cases hsome
        exact harity hlength

variable (hpos : 0 < d.memory.layout.size) (hsize : d.memory.layout.size ≤ 65535)

include hpos hsize

theorem encodes_of_encodeOperand (h : p.Sound d) {t : Token} {o : Operand}
    (hencode : d.encodeOperand t p = .ok o p') :
    p'.Sound d ∧ Extends p p' ∧ Encodes d p' t o := by
  rcases encodeOperand_eq_ok_iff.mp hencode with ⟨hkind, hmode, hintern⟩ | ⟨hkind, hword, rfl⟩
  · obtain ⟨hsound, hextends, hfind⟩ := h.of_intern hpos hsize hintern
    refine ⟨hsound, hextends, ?_⟩
    cases o
    cases hmode
    exact .literal hkind hfind
  · exact ⟨h, fun _ _ => id, .word hkind hword⟩

theorem encodes_of_encodeStatement (h : p.Sound d) {s : Statement} {i : Instruction}
    (hencode : d.encodeStatement s p = .ok i p') :
    p'.Sound d ∧ Extends p p' ∧ EncodesStatement d p' s i := by
  obtain ⟨hopcode, harity, hoperands⟩ := encodeStatement_eq_ok_iff.mp hencode
  have hrun := Attempt.forall₂_of_mapM (fun q => StringPool.Sound d q ∧ Extends p q) (Encodes d)
    (fun {t q o q'} hq hencode => by
      obtain ⟨hsound, hextends, hencodes⟩ := encodes_of_encodeOperand hpos hsize hq.1 hencode
      exact ⟨⟨hsound, fun text address hfind => hextends _ _ (hq.2 _ _ hfind)⟩, hencodes⟩)
    (fun {t q o q'} hq hencode {t' o'} hencodes =>
      hencodes.extend (encodes_of_encodeOperand hpos hsize hq.1 hencode).2.1)
    ⟨h, fun _ _ => id⟩ hoperands
  exact ⟨hrun.1.1, hrun.1.2, hopcode, harity, hrun.2.1⟩

/-- The second pass ends with a sound pool, in terms of which the instructions stand for the
statements. -/
theorem encodes_of_mapM (h : p.Sound d) {statements : List Statement}
    {instructions : List Instruction}
    (hencode : statements.mapM d.encodeStatement p = .ok instructions p') :
    p'.Sound d ∧ List.Forall₂ (EncodesStatement d p') statements instructions := by
  have hrun := Attempt.forall₂_of_mapM (StringPool.Sound d) (EncodesStatement d)
    (fun {s q i q'} hq hencode => by
      obtain ⟨hsound, -, hencodes⟩ := encodes_of_encodeStatement hpos hsize hq hencode
      exact ⟨hsound, hencodes⟩)
    (fun {s q i q'} hq hencode {s' i'} hencodes =>
      hencodes.extend (encodes_of_encodeStatement hpos hsize hq hencode).2.1)
    h hencode
  exact ⟨hrun.1, hrun.2.1⟩

end Pass

/-! ## Where literals come from -/

/-- Every literal of a pool is an operand of a statement. -/
def FromOperands (statements : List Statement) (p : StringPool) : Prop :=
  ∀ text address, p.interned.find? text = some address →
    ∃ s ∈ statements, ∃ t ∈ s.operands, t.kind = .str ∧ t.text = text

theorem FromOperands.of_encodeOperand {d : Draft} {statements : List Statement}
    {p p' : StringPool} (h : FromOperands statements p) {s : Statement} (hs : s ∈ statements)
    {t : Token} (ht : t ∈ s.operands) {o : Operand} (hencode : d.encodeOperand t p = .ok o p') :
    FromOperands statements p' := by
  rcases encodeOperand_eq_ok_iff.mp hencode with ⟨hkind, -, hintern⟩ | ⟨-, -, rfl⟩
  · rcases StringPool.intern_eq_ok_iff.mp hintern with ⟨-, rfl⟩ | ⟨-, bytes, -, -, -, rfl⟩
    · exact h
    · intro text address hfind
      by_cases htext : text = t.text
      · exact ⟨s, hs, t, ht, hkind, htext.symm⟩
      · apply h text address
        rwa [← SymbolTable.find?_define_of_ne p.interned htext p.next]
  · exact h

theorem fromOperands_of_mapM {d : Draft} {statements : List Statement} {p : StringPool}
    {instructions : List Instruction}
    (hencode : statements.mapM d.encodeStatement d.emptyPool = .ok instructions p) :
    FromOperands statements p := by
  refine Attempt.invariant_of_mapM (FromOperands statements) ?_ ?_ hencode
  · intro s hs q i q' hq hstatement
    obtain ⟨-, -, hoperands⟩ := encodeStatement_eq_ok_iff.mp hstatement
    refine Attempt.invariant_of_mapM (FromOperands statements) ?_ hq hoperands
    intro t ht r o r' hr hoperand
    exact hr.of_encodeOperand hs ht hoperand
  · intro text address hfind
    cases hfind

end Draft

end TeachingCpu
