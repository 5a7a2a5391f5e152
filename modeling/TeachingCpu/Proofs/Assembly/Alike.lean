import TeachingCpu.Proofs.Assembly.Pool

/-!
# Drafts that encode alike

Two drafts can hold the same program. Where their statements agree token by token, the second pass
over one follows the second pass over the other as long as literals are put into their pools in
step (`exists_pass_of_inStep`). They are if one pool lies some bytes in front of the other, or if
the pools are the same.
-/

namespace TeachingCpu

namespace StringPool

/-- A pool some bytes in front of another that holds the same literals. -/
structure Shifted (distance : Nat) (p p' : StringPool) : Prop where
  layout : p'.memory.layout = p.memory.layout
  next : p.next = p'.next + distance
  interned : ∀ text, p.interned.find? text = (p'.interned.find? text).map (· + distance)

section Shifted

variable {distance : Nat} {p p' : StringPool}

theorem Shifted.put (h : Shifted distance p p') (text : String) (bytes : List UInt8) :
    Shifted distance (p.put text bytes) (p'.put text bytes) := by
  have hnext := h.next
  refine ⟨h.layout, ?_, ?_⟩
  · show p.next + bytes.length + 1 = p'.next + bytes.length + 1 + distance
    omega
  · intro other
    show (p.interned.define text p.next).find? other =
      ((p'.interned.define text p'.next).find? other).map (· + distance)
    by_cases hother : other = text
    · subst hother
      simp [hnext]
    · rw [SymbolTable.find?_define_of_ne _ hother, SymbolTable.find?_define_of_ne _ hother]
      exact h.interned other

theorem Shifted.exists_intern (h : Shifted distance p p') {text : String} {address : Nat}
    {q : StringPool} (hintern : intern text p = .ok address q) :
    ∃ address' q', intern text p' = .ok address' q' ∧ address = address' + distance ∧
      Shifted distance q q' := by
  have hfind := h.interned text
  rcases intern_eq_ok_iff.mp hintern with ⟨hknown, rfl⟩ | ⟨hnew, bytes, hbytes, hfits, rfl, rfl⟩
  · cases hknown' : p'.interned.find? text with
    | none => simp [hknown, hknown'] at hfind
    | some address' =>
      have haddress : address = address' + distance := by simpa [hknown, hknown'] using hfind
      exact ⟨address', p', intern_eq_ok_iff.mpr (.inl ⟨hknown', rfl⟩), haddress, h⟩
  · have hnew' : p'.interned.find? text = none := by
      rw [hnew] at hfind
      exact Option.map_eq_none_iff.mp hfind.symm
    have hfits' : p'.next + bytes.length ≤ p'.memory.layout.lastAddressable.toNat := by
      have hnext := h.next
      rw [h.layout]
      omega
    refine ⟨p'.next, p'.put text bytes, ?_, h.next, h.put text bytes⟩
    exact intern_eq_ok_iff.mpr (.inr ⟨hnew', bytes, hbytes, hfits', rfl, rfl⟩)

end Shifted

/-- Literals that are put into related pools leave them related, and have related addresses. -/
def InStep (S : StringPool → StringPool → Prop) (A : UInt8 → UInt8 → Prop) : Prop :=
  ∀ {text : String} {p p' q : StringPool} {address : UInt8}, S p p' →
    intern text p = .ok address.toNat q →
      ∃ (address' : UInt8) (q' : StringPool), intern text p' = .ok address'.toNat q' ∧ S q q' ∧
        A address address'

theorem inStep_shifted (distance : Nat) : InStep (Shifted distance) fun _ _ => True := by
  intro text p p' q address h hintern
  obtain ⟨n, q', hintern', hn, hq⟩ := h.exists_intern hintern
  have hlt := address.toNat_lt
  have hbyte : (UInt8.ofNat n).toNat = n :=
    UInt8.toNat_ofNat_of_lt' (show n < 256 by omega)
  exact ⟨UInt8.ofNat n, q', hbyte.symm ▸ hintern', hq, trivial⟩

theorem inStep_eq : InStep Eq Eq := by
  rintro text p _ q address rfl hintern
  exact ⟨address, q, hintern, rfl, rfl⟩

end StringPool

namespace Draft

open StringPool (Shifted InStep)

/-- Tokens that stand for the same operand in two drafts: the same string literal, or words of the
same mode and value. -/
inductive SameToken (d d' : Draft) (t t' : Token) : Prop where
  | literal (hkind : t.kind = .str) (hkind' : t'.kind = .str) (htext : t'.text = t.text)
  | word (hkind : t.kind ≠ .str) (hkind' : t'.kind ≠ .str)
    (hword : d'.wordOperand t'.text = d.wordOperand t.text)

/-- Statements of the same instruction with the same operands. -/
structure SameStatement (d d' : Draft) (s s' : Statement) : Prop where
  opcode : opcode? s'.mnemonic = opcode? s.mnemonic
  operands : List.Forall₂ (SameToken d d') s.operands s'.operands

/-- Operands that are the same, or strings at related addresses. -/
inductive AlikeOperand (A : UInt8 → UInt8 → Prop) : Operand → Operand → Prop where
  | literal {address address' : UInt8} (h : A address address') :
    AlikeOperand A ⟨.str, address⟩ ⟨.str, address'⟩
  | word (o : Operand) : AlikeOperand A o o

/-- Instructions of the same opcode whose operands are alike. -/
structure AlikeInstruction (A : UInt8 → UInt8 → Prop) (i i' : Instruction) : Prop where
  opcode : i'.opcode = i.opcode
  operands : List.Forall₂ (AlikeOperand A) i.operands i'.operands

theorem AlikeInstruction.eq {i i' : Instruction} (h : AlikeInstruction Eq i i') : i = i' := by
  obtain ⟨opcode, operands⟩ := i
  obtain ⟨opcode', operands'⟩ := i'
  have hopcode : opcode' = opcode := h.opcode
  have hoperands : List.Forall₂ Eq operands operands' := by
    refine h.operands.imp fun o o' ho => ?_
    cases ho with
    | literal haddress => rw [haddress]
    | word => rfl
  rw [List.forall₂_eq_eq_eq] at hoperands
  rw [hopcode, hoperands]

section Pass

variable {d d' : Draft} {S : StringPool → StringPool → Prop} {A : UInt8 → UInt8 → Prop}
  {p p' q : StringPool} (hstep : InStep S A)

include hstep

theorem exists_encodeOperand_of_inStep {t t' : Token} {o : Operand} (ht : SameToken d d' t t')
    (h : S p p') (hencode : d.encodeOperand t p = .ok o q) :
    ∃ o' q', d'.encodeOperand t' p' = .ok o' q' ∧ S q q' ∧ AlikeOperand A o o' := by
  rcases encodeOperand_eq_ok_iff.mp hencode with ⟨hkind, hmode, hintern⟩ | ⟨hkind, hword, rfl⟩
  · cases ht with
    | word hne => exact absurd hkind hne
    | literal _ hkind' htext =>
      obtain ⟨address', q', hintern', hq, haddress⟩ := hstep h hintern
      rw [← htext] at hintern'
      obtain ⟨mode, address⟩ := o
      obtain rfl : mode = .str := hmode
      exact ⟨⟨.str, address'⟩, q',
        encodeOperand_eq_ok_iff.mpr (.inl ⟨hkind', rfl, hintern'⟩), hq, .literal haddress⟩
  · cases ht with
    | literal hstr => exact absurd hstr hkind
    | word _ hkind' hsame =>
      rw [← hsame] at hword
      exact ⟨o, p', encodeOperand_eq_ok_iff.mpr (.inr ⟨hkind', hword, rfl⟩), h, .word o⟩

theorem exists_encodeStatement_of_inStep {s s' : Statement} {i : Instruction}
    (hs : SameStatement d d' s s') (h : S p p') (hencode : d.encodeStatement s p = .ok i q) :
    ∃ i' q', d'.encodeStatement s' p' = .ok i' q' ∧ S q q' ∧ AlikeInstruction A i i' := by
  obtain ⟨hopcode, harity, hoperands⟩ := encodeStatement_eq_ok_iff.mp hencode
  obtain ⟨operands', q', hoperands', hq, halike⟩ := Attempt.mapM_simulation S (SameToken d d')
    (AlikeOperand A) (fun ht hr hoperand => exists_encodeOperand_of_inStep hstep ht hr hoperand)
    hs.operands h hoperands
  refine ⟨⟨i.opcode, operands'⟩, q', encodeStatement_eq_ok_iff.mpr ⟨?_, ?_, hoperands'⟩, hq,
    ⟨rfl, halike⟩⟩
  · rw [hs.opcode, hopcode]
  · rw [← hs.operands.length_eq, harity]

/-- The second pass over a draft with the same statements follows. -/
theorem exists_pass_of_inStep {instructions : List Instruction}
    (hsame : List.Forall₂ (SameStatement d d') d.statementList d'.statementList) (h : S p p')
    (hpass : d.statementList.mapM d.encodeStatement p = .ok instructions q) :
    ∃ instructions' q', d'.statementList.mapM d'.encodeStatement p' = .ok instructions' q' ∧
      S q q' ∧ List.Forall₂ (AlikeInstruction A) instructions instructions' :=
  Attempt.mapM_simulation S (SameStatement d d') (AlikeInstruction A)
    (fun hs hr hstatement => exists_encodeStatement_of_inStep hstep hs hr hstatement) hsame h hpass

end Pass

section Drafts

variable {d d' : Draft} {q : StringPool} {instructions : List Instruction}
  (hsame : List.Forall₂ (SameStatement d d') d.statementList d'.statementList)

include hsame

/-- Where the second pass over one draft succeeds, so does the second pass over another that has
the same statements and less data. -/
theorem exists_pass_of_same (hlayout : d'.memory.layout = d.memory.layout)
    (hend : d'.dataEnd ≤ d.dataEnd)
    (hpass : d.statementList.mapM d.encodeStatement d.emptyPool = .ok instructions q) :
    ∃ instructions' q',
      d'.statementList.mapM d'.encodeStatement d'.emptyPool = .ok instructions' q' := by
  have hshifted : Shifted (d.dataEnd - d'.dataEnd) d.emptyPool d'.emptyPool := by
    refine ⟨hlayout, ?_, fun _ => rfl⟩
    show d.dataEnd = d'.dataEnd + (d.dataEnd - d'.dataEnd)
    omega
  obtain ⟨instructions', q', hpass', -, -⟩ :=
    exists_pass_of_inStep (StringPool.inStep_shifted _) hsame hshifted hpass
  exact ⟨instructions', q', hpass'⟩

/-- The second passes over drafts that have the same statements and the same data do the same. -/
theorem pass_of_same {p : StringPool}
    (hpass : d.statementList.mapM d.encodeStatement p = .ok instructions q) :
    d'.statementList.mapM d'.encodeStatement p = .ok instructions q := by
  obtain ⟨instructions', q', hpass', rfl, halike⟩ :=
    exists_pass_of_inStep StringPool.inStep_eq hsame rfl hpass
  have heq : List.Forall₂ Eq instructions instructions' := halike.imp fun _ _ => AlikeInstruction.eq
  rw [List.forall₂_eq_eq_eq] at heq
  rw [heq]
  exact hpass'

end Drafts

end Draft

end TeachingCpu
