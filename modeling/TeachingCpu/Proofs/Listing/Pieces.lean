import TeachingCpu.Proofs.Assembly.Operands
import TeachingCpu.Proofs.Source.Scan

/-!
# The words of a listing

The source text of a listing is written as words and string literals, line by line, and every word
is in canonical form: `spells_sourceLines`.
-/

namespace TeachingCpu

open Draft (inName startsName isIdentifier)
open Source (endsWord takesNumber IsWord Piece Spells)

namespace Source

theorem endsWord_of_inName {c : Char} (h : inName c) : endsWord c = false := by
  by_contra hends
  rw [Bool.not_eq_false] at hends
  have hcases : c = ' ' ∨ c = '\t' ∨ c = '\r' ∨ c = ',' ∨ c = '\n' ∨ c = ';' ∨ c = '"' := by
    simp only [endsWord, isSeparator, Bool.or_eq_true, beq_iff_eq] at hends
    tauto
  rcases hcases with rfl | rfl | rfl | rfl | rfl | rfl | rfl <;> cases h

theorem inName_of_isAlphanum {c : Char} (h : c.isAlphanum) : inName c := by
  rw [inName, h]
  rfl

theorem inName_of_isDigit {c : Char} (h : c.isDigit) : inName c := by
  apply inName_of_isAlphanum
  rw [Char.isAlphanum, h, Bool.or_true]

/-- The names of the signals start with one of two letters. -/
theorem signal?_of_head {text : String} {c : Char} {rest : List Char}
    (htext : text.toList = c :: rest) (hi : c ≠ 'I') (hf : c ≠ 'F') : signal? text = none := by
  have hinterrupt : Interrupt.all.find? (·.signal == text) = none := by
    rw [List.find?_eq_none]
    intro i _ h
    rw [beq_iff_eq] at h
    rw [← h] at htext
    cases i <;> exact hi (List.cons.inj htext).1.symm
  have hoperation : FileOperation.all.find? (·.signal == text) = none := by
    rw [List.find?_eq_none]
    intro i _ h
    rw [beq_iff_eq] at h
    rw [← h] at htext
    cases i <;> exact hf (List.cons.inj htext).1.symm
  unfold signal?
  rw [hinterrupt, hoperation]
  rfl

theorem startsHex_cons_of_ne {c : Char} (h : c ≠ '0') (rest : List Char) :
    Text.startsHex (c :: rest) = false := by
  unfold Text.startsHex
  split
  · next heq => exact absurd (List.cons.inj heq).1 h
  · next heq => exact absurd (List.cons.inj heq).1 h
  · rfl

/-- A character that a canonical word may start with, whatever follows in the word. -/
def StartsCanonical (c : Char) : Prop :=
  endsWord c = false ∧ c ≠ charQuote ∧ c ≠ '[' ∧ c ≠ 'I' ∧ c ≠ 'F'

instance (c : Char) : Decidable (StartsCanonical c) := by
  unfold StartsCanonical
  infer_instance

theorem canonical_word {text : String} {c : Char} {rest : List Char}
    (htext : text.toList = c :: rest) (hc : StartsCanonical c) (hrest : ∀ x ∈ rest, inName x)
    (hhex : Text.startsHex (c :: rest) = false)
    (hnumber : takesNumber c → Text.startsHex rest = false) : (Piece.word text).Canonical := by
  obtain ⟨hends, hquote, hbracket, hi, hf⟩ := hc
  refine ⟨⟨?_, ?_, ?_⟩, ?_⟩
  · rw [htext]
    exact List.cons_ne_nil c rest
  · rw [htext, List.forall_mem_cons]
    exact ⟨hends, fun x hx => endsWord_of_inName (hrest x hx)⟩
  · rw [htext]
    exact fun h => hquote (Option.some.inj h)
  · have hbrackets : bracketed? (c :: rest) = none := by
      unfold bracketed?
      split
      · next heq => exact absurd (List.cons.inj heq).1 hbracket
      · rfl
    unfold canonicalWord
    rw [htext]
    simp only [hhex, hbrackets, Bool.false_eq_true, if_false]
    by_cases hsigil : takesNumber c = true
    · rw [if_pos hsigil, hnumber hsigil]
      rfl
    · rw [if_neg hsigil, signal?_of_head htext hi hf]

/-- A name, or a name after a character that is no sigil of numbers. -/
theorem canonical_name {text : String} {c : Char} {rest : List Char}
    (htext : text.toList = c :: rest) (hc : StartsCanonical c) (hzero : c ≠ '0')
    (hsigil : takesNumber c = false) (hrest : ∀ x ∈ rest, inName x) :
    (Piece.word text).Canonical := by
  apply canonical_word htext hc hrest (startsHex_cons_of_ne hzero rest)
  intro h
  rw [hsigil] at h
  cases h

/-- A number after a sigil. -/
theorem canonical_sigil_number {text sigil : String} {c : Char} {n : Nat}
    (htext : text = sigil ++ toString n) (hsigil : sigil.toList = [c]) (hc : StartsCanonical c)
    (hzero : c ≠ '0') : (Piece.word text).Canonical := by
  have hlist : text.toList = c :: (toString n).toList := by
    rw [htext, String.toList_append, hsigil]
    rfl
  refine canonical_word hlist hc ?_ (startsHex_cons_of_ne hzero _) fun _ => ?_
  · exact fun x hx => inName_of_isDigit (Text.isDigit_of_mem_toString hx)
  · exact Text.startsHex_of_isDigit fun x hx => Text.isDigit_of_mem_toString hx

theorem canonical_number (n : Nat) : (Piece.word (toString n)).Canonical := by
  have hdigit : ∀ x ∈ (toString n).toList, x.isDigit := fun x hx => Text.isDigit_of_mem_toString hx
  have hhex := Text.startsHex_of_isDigit hdigit
  cases hlist : (toString n).toList with
  | nil => exact absurd hlist (Text.toList_toString_ne_nil n)
  | cons c rest =>
    rw [hlist] at hdigit hhex
    obtain ⟨hc, hrest⟩ := List.forall_mem_cons.mp hdigit
    refine canonical_word hlist ⟨?_, ?_, ?_, ?_, ?_⟩ ?_ hhex ?_
    · exact endsWord_of_inName (inName_of_isDigit hc)
    · intro heq
      subst heq
      cases hc
    · intro heq
      subst heq
      cases hc
    · intro heq
      subst heq
      cases hc
    · intro heq
      subst heq
      cases hc
    · exact fun x hx => inName_of_isDigit (hrest x hx)
    · intro _
      exact Text.startsHex_of_isDigit hrest

end Source

namespace Listing

/-! ## Names -/

/-- A name of a listing: letters, digits and underscores after a letter. -/
structure IsName (name : String) : Prop where
  identifier : isIdentifier name
  word : (Piece.word name).Canonical

theorem isName_append_hex {front : String} {c : Char} {rest : List Char}
    (hfront : front.toList = c :: rest) (hstart : startsName c) (hc : Source.StartsCanonical c)
    (hsigil : takesNumber c = false) (hrest : rest.all inName) (n : Nat) :
    IsName (front ++ Text.hex 4 n) := by
  have htext : (front ++ Text.hex 4 n).toList = c :: (rest ++ (Text.hex 4 n).toList) := by
    rw [String.toList_append, hfront]
    rfl
  have hall : ∀ x ∈ rest ++ (Text.hex 4 n).toList, inName x := by
    intro x hx
    rcases List.mem_append.mp hx with hx | hx
    · exact List.all_eq_true.mp hrest x hx
    · exact Source.inName_of_isAlphanum (Text.isAlphanum_of_mem_hex hx)
  have hzero : c ≠ '0' := by
    intro heq
    subst heq
    cases hstart
  refine ⟨?_, Source.canonical_name htext hc hzero hsigil hall⟩
  unfold isIdentifier
  rw [htext]
  simp [hstart, List.all_eq_true.mpr hall]

theorem isName_variableName (address : Nat) : IsName (variableName address) := by
  have hfront : "data_".toList = 'd' :: ['a', 't', 'a', '_'] := rfl
  exact isName_append_hex hfront rfl (by decide) rfl rfl address

theorem isName_memoryName (address : Nat) : IsName ("mem_" ++ Text.hex 4 address) := by
  have hfront : "mem_".toList = 'm' :: ['e', 'm', '_'] := rfl
  exact isName_append_hex hfront rfl (by decide) rfl rfl address

theorem isName_targetName (address : Nat) : IsName ("L_" ++ Text.hex 4 address) := by
  have hfront : "L_".toList = 'L' :: ['_'] := rfl
  exact isName_append_hex hfront rfl (by decide) rfl rfl address

theorem isName_entryLabel : IsName entryLabel := by
  have htext : entryLabel.toList = 'M' :: ['A', 'I', 'N'] := rfl
  have hrest : ['A', 'I', 'N'].all inName := rfl
  exact ⟨rfl, Source.canonical_name htext (by decide) (by decide) rfl
    (List.all_eq_true.mp hrest)⟩

/-- A name behind a character that is no part of it. -/
theorem canonical_prefixed {name front : String} {c : Char} (h : isIdentifier name)
    (hfront : front.toList = [c]) (hc : Source.StartsCanonical c) (hzero : c ≠ '0')
    (hsigil : takesNumber c = false) : (Piece.word (front ++ name)).Canonical := by
  have htext : (front ++ name).toList = c :: name.toList := by
    rw [String.toList_append, hfront]
    rfl
  exact Source.canonical_name htext hc hzero hsigil (Draft.inName_of_isIdentifier h)

theorem isName_of_labelAt? {l : Listing} {targets : List Nat} {offset : UInt16} {name : String}
    (h : l.labelAt? targets offset = some name) : IsName name := by
  unfold labelAt? at h
  split at h
  · cases h
    exact isName_entryLabel
  · split at h
    · cases h
      exact isName_targetName _
    · cases h

/-! ## Operands -/

/-- An operand as it is written: a string literal or a word. -/
def operandPiece (l : Listing) (targets : List Nat) (o : Operand) : Piece :=
  match o.mode with
  | .str => .literal (Text.ofBytes (l.groupAt o.value.toNat))
  | _ => .word (l.operandSource targets o)

theorem text_operandPiece (l : Listing) (targets : List Nat) (o : Operand) :
    (l.operandPiece targets o).text = l.operandSource targets o := by
  obtain ⟨mode, value⟩ := o
  cases mode with
  | str => exact (Source.quoted_eq _).symm
  | _ => rfl

theorem operandPiece_of_str (l : Listing) (targets : List Nat) {o : Operand} (h : o.mode = .str) :
    l.operandPiece targets o = .literal (Text.ofBytes (l.groupAt o.value.toNat)) := by
  rw [operandPiece, h]

theorem operandPiece_of_ne_str (l : Listing) (targets : List Nat) {o : Operand}
    (h : o.mode ≠ .str) : l.operandPiece targets o = .word (l.operandSource targets o) := by
  obtain ⟨mode, value⟩ := o
  cases mode with
  | str => exact absurd rfl h
  | _ => rfl

theorem canonical_register (r : Register) : (Piece.word ("%" ++ r.name)).Canonical := by
  have htext : ("%" ++ r.name).toList = '%' :: r.name.toList := by
    rw [String.toList_append]
    rfl
  have hname : r.name.toList.all inName := by
    cases r <;> rfl
  exact Source.canonical_name htext (by decide) (by decide) rfl (List.all_eq_true.mp hname)

theorem text_register {value : UInt8} {r : Register} (h : Register.ofId? value.toNat = some r) :
    (⟨.register, value⟩ : Operand).text = "%" ++ r.name := by
  simp only [Operand.text, Operand.register?, h]

theorem text_no_register {value : UInt8} (h : Register.ofId? value.toNat = none) :
    (⟨.register, value⟩ : Operand).text = "%" ++ toString value.toNat := by
  simp only [Operand.text, Operand.register?, h]

theorem canonical_operandPiece (l : Listing) (targets : List Nat) (o : Operand) :
    (l.operandPiece targets o).Canonical := by
  obtain ⟨mode, value⟩ := o
  cases mode with
  | str => exact trivial
  | register =>
    change (Piece.word (Operand.text ⟨.register, value⟩)).Canonical
    cases hr : Register.ofId? value.toNat with
    | some r =>
      rw [text_register hr]
      exact canonical_register r
    | none =>
      rw [text_no_register hr]
      exact Source.canonical_sigil_number (c := '%') rfl rfl (by decide) (by decide)
  | direct => exact Source.canonical_sigil_number (c := '&') rfl rfl (by decide) (by decide)
  | indirect => exact Source.canonical_sigil_number (c := '*') rfl rfl (by decide) (by decide)
  | immediate => exact Source.canonical_sigil_number (c := '$') rfl rfl (by decide) (by decide)
  | data =>
    have hsigil : "@".toList = ['@'] := rfl
    exact canonical_prefixed (isName_variableName _).identifier hsigil (by decide) (by decide) rfl
  | label =>
    change (Piece.word ((l.labelAt? targets value.toUInt16).getD
      ("L_" ++ Text.hex 4 value.toNat))).Canonical
    cases hlabel : l.labelAt? targets value.toUInt16 with
    | some name => exact (isName_of_labelAt? hlabel).word
    | none => exact (isName_targetName _).word

/-! ## Lines -/

/-- The line of a label, if there is one. -/
def labelPieces (l : Listing) (targets : List Nat) (offset : UInt16) : List (List Piece) :=
  match l.labelAt? targets offset with
  | some name => [[.word ("." ++ name)]]
  | none => []

/-- The statement of an instruction. -/
def statementPieces (l : Listing) (targets : List Nat) (i : Instruction) : List Piece :=
  .word i.opcode.mnemonic :: i.operands.map (l.operandPiece targets)

/-- The lines of an instruction. -/
def instructionPieces (l : Listing) (targets : List Nat) (i : ListedInstruction) :
    List (List Piece) :=
  l.labelPieces targets i.offset ++ [l.statementPieces targets i.instruction]

/-- The values that declare some bytes. -/
def valuePieces (bytes : List UInt8) : List Piece :=
  if bytes.isEmpty then []
  else if bytes.all isTextByte then [.literal (Text.ofBytes bytes)]
  else bytes.map fun b => .word (toString b.toNat)

/-- The lines that declare a variable. -/
def declarationPieces (l : Listing) (declared : Nat × String) : List (List Piece) :=
  [[.word "org", .word (toString declared.1)],
    .word declared.2 :: valuePieces (l.groupAt declared.1)]

/-- The lines of the data block. -/
def dataPieces (l : Listing) : List (List Piece) :=
  match l.declaredVariables with
  | [] => []
  | declared => [.word ".DATA"] :: (declared.flatMap l.declarationPieces ++ [[.word "end"], []])

/-- The lines of a listing. -/
def sourcePieces (l : Listing) : List (List Piece) :=
  [] :: (l.dataPieces ++ l.instructions.flatMap (l.instructionPieces l.targets) ++
    l.labelPieces l.targets l.image.rom.length.toUInt16)

theorem spells_word {text : String} (h : (Piece.word text).Canonical) :
    Spells text [.word text] := by
  have hspells : Spells (String.intercalate " " ([Piece.word text].map Piece.text)) [.word text] :=
    Source.spells_intercalate (by simpa using h)
  simpa [Piece.text] using hspells

/-- Words of small letters are canonical. -/
theorem canonical_of_isLower {text : String} (hne : text.toList ≠ [])
    (h : text.toList.all Char.isLower) : (Piece.word text).Canonical := by
  rw [List.all_eq_true] at h
  have hname : ∀ x ∈ text.toList, inName x := by
    intro x hx
    apply Source.inName_of_isAlphanum
    rw [Char.isAlphanum, Char.isAlpha, h x hx, Bool.or_true, Bool.true_or]
  cases htext : text.toList with
  | nil => exact absurd htext hne
  | cons c rest =>
    rw [htext] at h hname
    obtain ⟨hc, -⟩ := List.forall_mem_cons.mp h
    obtain ⟨hcname, hrest⟩ := List.forall_mem_cons.mp hname
    have hne : ∀ {c' : Char}, c'.isLower = false → c ≠ c' := by
      intro c' hc' heq
      subst heq
      rw [hc] at hc'
      cases hc'
    have hsigil : takesNumber c = false := by
      simp only [takesNumber, Bool.or_eq_false_iff, beq_eq_false_iff_ne]
      exact ⟨⟨hne rfl, hne rfl⟩, hne rfl⟩
    exact Source.canonical_name htext
      ⟨Source.endsWord_of_inName hcname, hne rfl, hne rfl, hne rfl, hne rfl⟩ (hne rfl) hsigil hrest

theorem canonical_mnemonic (op : Opcode) : (Piece.word op.mnemonic).Canonical := by
  have hne : op.mnemonic.toList ≠ [] := by
    cases op <;> exact List.cons_ne_nil _ _
  have hlower : op.mnemonic.toList.all Char.isLower := by
    cases op <;> rfl
  exact canonical_of_isLower hne hlower

theorem canonical_label {l : Listing} {targets : List Nat} {offset : UInt16} {name : String}
    (h : l.labelAt? targets offset = some name) : (Piece.word ("." ++ name)).Canonical := by
  have hdot : ".".toList = ['.'] := rfl
  exact canonical_prefixed (isName_of_labelAt? h).identifier hdot (by decide) (by decide) rfl

theorem spells_labelLines (l : Listing) (targets : List Nat) (offset : UInt16) :
    List.Forall₂ Spells (l.labelLines targets offset) (l.labelPieces targets offset) := by
  unfold labelLines labelPieces
  cases h : l.labelAt? targets offset with
  | none => exact .nil
  | some name => exact .cons (spells_word (canonical_label h)) .nil

theorem canonical_statementPieces (l : Listing) (targets : List Nat) (i : Instruction) :
    ∀ p ∈ l.statementPieces targets i, p.Canonical := by
  rw [statementPieces, List.forall_mem_cons]
  refine ⟨canonical_mnemonic i.opcode, fun p hp => ?_⟩
  obtain ⟨o, -, rfl⟩ := List.mem_map.mp hp
  exact l.canonical_operandPiece targets o

theorem spells_instructionLines (l : Listing) (targets : List Nat) (i : ListedInstruction) :
    List.Forall₂ Spells (l.instructionLines targets i) (l.instructionPieces targets i) := by
  refine List.rel_append (l.spells_labelLines targets i.offset) (.cons ?_ .nil)
  have hspells := Source.spells_intercalate (l.canonical_statementPieces targets i.instruction)
  have htexts : (l.statementPieces targets i.instruction).map Piece.text =
      i.instruction.opcode.mnemonic :: i.instruction.operands.map (l.operandSource targets) := by
    rw [statementPieces, List.map_cons, List.map_map]
    refine congrArg _ (List.map_congr_left fun o _ => ?_)
    exact l.text_operandPiece targets o
  rw [← htexts]
  exact hspells.indent

theorem canonical_valuePieces (bytes : List UInt8) : ∀ p ∈ valuePieces bytes, p.Canonical := by
  intro p hp
  unfold valuePieces at hp
  split at hp
  · cases hp
  · split at hp
    · rw [List.mem_singleton] at hp
      rw [hp]
      trivial
    · obtain ⟨b, -, rfl⟩ := List.mem_map.mp hp
      exact Source.canonical_number b.toNat

/-- The values of a declaration, behind its name. -/
theorem intercalate_valuePieces (name : String) (bytes : List UInt8) :
    String.intercalate " " ((.word name :: valuePieces bytes).map Piece.text) =
      if bytes.isEmpty then name else name ++ " " ++ dataLiteral bytes := by
  unfold valuePieces dataLiteral
  by_cases hempty : bytes.isEmpty = true
  · rw [if_pos hempty, if_pos hempty]
    exact String.intercalate_singleton
  · rw [if_neg hempty, if_neg hempty]
    by_cases htext : bytes.all isTextByte = true
    · rw [if_pos htext, if_pos htext, List.map_cons,
        String.intercalate_cons_of_ne_nil (by simp), Source.quoted_eq]
      exact congrArg _ String.intercalate_singleton
    · rw [if_neg htext, if_neg htext, List.map_cons, List.map_map,
        String.intercalate_cons_of_ne_nil]
      · rfl
      · simpa using hempty

theorem canonical_org : (Piece.word "org").Canonical :=
  canonical_of_isLower (List.cons_ne_nil _ _) rfl

theorem canonical_end : (Piece.word "end").Canonical :=
  canonical_of_isLower (List.cons_ne_nil _ _) rfl

theorem canonical_dataWord : (Piece.word ".DATA").Canonical := by
  have htext : ".DATA".toList = '.' :: ['D', 'A', 'T', 'A'] := rfl
  have hrest : ['D', 'A', 'T', 'A'].all inName := rfl
  exact Source.canonical_name htext (by decide) (by decide) rfl (List.all_eq_true.mp hrest)

/-- Every variable that is declared has a name. -/
theorem isName_of_mem_declaredVariables {l : Listing} {declared : Nat × String}
    (h : declared ∈ l.declaredVariables) : IsName declared.2 := by
  rw [declaredVariables, List.mem_merge] at h
  rcases h with hdata | hmemory
  · obtain ⟨address, -, rfl⟩ := List.mem_map.mp hdata
    exact isName_variableName address
  · obtain ⟨address, -, rfl⟩ := List.mem_map.mp hmemory
    exact isName_memoryName address

theorem canonical_declarationPieces {l : Listing} {declared : Nat × String}
    (h : IsName declared.2) : ∀ ps ∈ l.declarationPieces declared, ∀ p ∈ ps, p.Canonical := by
  intro ps hps
  rcases List.mem_cons.mp hps with rfl | hps
  · rw [List.forall_mem_cons, List.forall_mem_singleton]
    exact ⟨canonical_org, Source.canonical_number _⟩
  · rw [List.mem_singleton] at hps
    rw [hps, List.forall_mem_cons]
    exact ⟨h.word, canonical_valuePieces _⟩

theorem spells_declaration {l : Listing} {declared : Nat × String} (h : IsName declared.2) :
    List.Forall₂ Spells (l.declaration declared) (l.declarationPieces declared) := by
  obtain ⟨address, name⟩ := declared
  have hcanonical := canonical_declarationPieces (l := l) h
  obtain ⟨horigin, hvalues⟩ := List.forall_mem_cons.mp hcanonical
  rw [List.forall_mem_singleton] at hvalues
  refine .cons ?_ (.cons ?_ .nil)
  · exact Source.spells_intercalate horigin
  · have hspells := Source.spells_intercalate hvalues
    rwa [intercalate_valuePieces] at hspells

theorem spells_dataLines (l : Listing) : List.Forall₂ Spells l.dataLines l.dataPieces := by
  have hnames : ∀ declared ∈ l.declaredVariables, IsName declared.2 :=
    fun _ => isName_of_mem_declaredVariables
  unfold dataLines dataPieces
  cases hdeclared : l.declaredVariables with
  | nil => exact .nil
  | cons first rest =>
    rw [hdeclared] at hnames
    refine .cons (spells_word canonical_dataWord) ?_
    refine List.rel_append ?_ (.cons (spells_word canonical_end) (.cons Source.spells_nil .nil))
    refine List.rel_flatMap (R := fun a b => a = b ∧ IsName a.2) ?_ ?_
    · exact List.forall₂_same.mpr fun declared hmem => ⟨rfl, hnames declared hmem⟩
    · intro declared _ h
      rcases h with ⟨rfl, hname⟩
      exact spells_declaration hname

theorem newline_notMem_head (l : Listing) :
    '\n' ∉ (l.image.width.text ++ " program, " ++ toString l.image.rom.length ++
      " ROM bytes, entry 0x" ++ Text.hex 4 l.image.entry.toNat).toList := by
  have hwidth : '\n' ∉ l.image.width.text.toList := by
    cases l.image.width <;> decide
  have hlength : '\n' ∉ (toString l.image.rom.length).toList := fun h =>
    absurd (Text.isDigit_of_mem_toString h) (by decide)
  have hentry : '\n' ∉ (Text.hex 4 l.image.entry.toNat).toList := fun h =>
    absurd (Text.isAlphanum_of_mem_hex h) (by decide)
  simp only [String.toList_append, List.mem_append, not_or]
  exact ⟨⟨⟨⟨hwidth, by decide⟩, hlength⟩, by decide⟩, hentry⟩

theorem spells_headLine (l : Listing) : Spells l.headLine [] := by
  have hspells := Source.spells_comment l.newline_notMem_head
  unfold headLine
  simpa only [String.append_assoc] using hspells

/-- The lines of a listing are written as pieces. -/
theorem spells_sourceLines (l : Listing) : List.Forall₂ Spells l.sourceLines l.sourcePieces := by
  refine .cons l.spells_headLine ?_
  refine List.rel_append (List.rel_append l.spells_dataLines ?_) (l.spells_labelLines _ _)
  apply List.rel_flatMap (R := Eq)
  · exact List.forall₂_same.mpr fun _ _ => rfl
  · intro i _ heq
    subst heq
    exact l.spells_instructionLines l.targets i

theorem canonical_labelPieces (l : Listing) (targets : List Nat) (offset : UInt16) :
    ∀ ps ∈ l.labelPieces targets offset, ∀ p ∈ ps, p.Canonical := by
  unfold labelPieces
  cases h : l.labelAt? targets offset with
  | none => simp
  | some name => simpa using canonical_label h

theorem canonical_sourcePieces (l : Listing) : ∀ ps ∈ l.sourcePieces, ∀ p ∈ ps, p.Canonical := by
  intro ps hps
  rcases List.mem_cons.mp hps with rfl | hps
  · simp
  · rcases List.mem_append.mp hps with hps | htrailing
    · rcases List.mem_append.mp hps with hdata | hcode
      · unfold dataPieces at hdata
        split at hdata
        · cases hdata
        · rcases List.mem_cons.mp hdata with rfl | hdata
          · simpa using canonical_dataWord
          · rcases List.mem_append.mp hdata with hdeclared | hend
            · obtain ⟨declared, hmem, hin⟩ := List.mem_flatMap.mp hdeclared
              exact canonical_declarationPieces (isName_of_mem_declaredVariables hmem) ps hin
            · rcases List.mem_cons.mp hend with rfl | hempty
              · simpa using canonical_end
              · rw [List.mem_singleton] at hempty
                simp [hempty]
      · obtain ⟨i, -, hin⟩ := List.mem_flatMap.mp hcode
        rcases List.mem_append.mp hin with hlabel | hstatement
        · exact l.canonical_labelPieces _ _ ps hlabel
        · rw [List.mem_singleton] at hstatement
          rw [hstatement]
          exact l.canonical_statementPieces _ _
    · exact l.canonical_labelPieces _ _ ps htrailing

/-- The source text of a listing reads back as its lines. -/
theorem read_source (l : Listing) :
    ∃ lines, Source.read l.source = .ok lines ∧
      List.Forall₂ Source.Reads lines (l.sourcePieces.filter (!List.isEmpty ·)) :=
  Source.read_of_spells l.spells_sourceLines l.canonical_sourcePieces

end Listing

end TeachingCpu
