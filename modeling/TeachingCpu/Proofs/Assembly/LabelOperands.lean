import TeachingCpu.Proofs.Assembly.Passes
import TeachingCpu.Proofs.Source.Canonical

/-!
# Operands that are written as labels

A label is named by its text, with a dot in front or without. A named signal is a number before any
label is looked up, so that a label of the same text is only named with its dot
(`labelOperands_of_assemble`). The words here are those of the source text, not yet in canonical
form.
-/

namespace TeachingCpu

open Source (canonicalToken canonicalWord takesNumber sigiled)

namespace Draft

/-! ## The outline of source text -/

/-- An item of source text, and the item of the lines in canonical form at the same place. -/
inductive Item.ReadAs : Item → Item → Prop where
  | block : ReadAs .block .block
  | origin (address address' : Nat) : ReadAs (.origin address) (.origin address')
  | var (name name' : String) (groups groups' : List (List UInt8)) :
    ReadAs (.var name groups) (.var name' groups')
  | close : ReadAs .close .close
  | label (name : String) : ReadAs (.label name) (.label name)
  | statement (line : Nat) (mnemonic mnemonic' : Token) {operands operands' : List Token}
    (h : List.Forall₂ (fun t t' => canonicalToken t = .ok t') operands operands') :
    ReadAs (.statement line mnemonic operands) (.statement line mnemonic' operands')

theorem leavesOpen_of_readAs {items items' : List Item} (h : List.Forall₂ Item.ReadAs items items')
    (inBlock : Bool) :
    items.foldl Item.leavesOpen inBlock = items'.foldl Item.leavesOpen inBlock := by
  induction h generalizing inBlock with
  | nil => rfl
  | cons hitem _ ih => cases hitem <;> exact ih _

theorem statementsOf_of_readAs {items items' : List Item}
    (h : List.Forall₂ Item.ReadAs items items') :
    List.Forall₂ (fun s s' => List.Forall₂ (fun t t' => canonicalToken t = .ok t') s.2.2 s'.2.2)
      (statementsOf items) (statementsOf items') := by
  induction h with
  | nil => exact .nil
  | cons hitem _ ih =>
    cases hitem with
    | statement line mnemonic mnemonic' hoperands => exact .cons hoperands ih
    | _ => exact ih

/-- Labels stand behind the same number of statements. -/
theorem label_iff_of_readAs {items items' : List Item} (h : List.Forall₂ Item.ReadAs items items')
    {name : String} {P : Nat → Prop} :
    (∃ front back, items' = front ++ .label name :: back ∧ P (statementsOf front).length) ↔
      ∃ front back, items = front ++ .label name :: back ∧ P (statementsOf front).length := by
  constructor
  · rintro ⟨front, back, rfl, hP⟩
    obtain ⟨front', item, back', rfl, hfront, hitem⟩ := h.flip.exists_split
    cases hitem
    rw [← (statementsOf_of_readAs hfront.flip).length_eq] at hP
    exact ⟨front', back', rfl, hP⟩
  · rintro ⟨front, back, rfl, hP⟩
    obtain ⟨front', item, back', rfl, hfront, hitem⟩ := h.exists_split
    cases hitem
    rw [(statementsOf_of_readAs hfront).length_eq] at hP
    exact ⟨front', back', rfl, hP⟩

section Tokens

variable {t t' : Token} {tokens tokens' : List Token}

theorem isWord_end_of_canonicalToken (h : canonicalToken t = .ok t') :
    t'.isWord endWord = t.isWord endWord := by
  have htext : endWord.toList = 'e' :: ['n', 'd'] := rfl
  have hrest : ['n', 'd'].all inName := rfl
  have hword := Source.canonical_name htext (by decide) (by decide) rfl
    (List.all_eq_true.mp hrest)
  exact Source.isWord_of_canonicalToken h hword.2 htext rfl

theorem isWord_origin_of_canonicalToken (h : canonicalToken t = .ok t') :
    t'.isWord originWord = t.isWord originWord := by
  have htext : originWord.toList = 'o' :: ['r', 'g'] := rfl
  have hrest : ['r', 'g'].all inName := rfl
  have hword := Source.canonical_name htext (by decide) (by decide) rfl
    (List.all_eq_true.mp hrest)
  exact Source.isWord_of_canonicalToken h hword.2 htext rfl

theorem any_isWord_end (h : List.Forall₂ (fun t t' => canonicalToken t = .ok t') tokens tokens') :
    tokens'.any (·.isWord endWord) = tokens.any (·.isWord endWord) := by
  induction h with
  | nil => rfl
  | cons ht _ ih => rw [List.any_cons, List.any_cons, isWord_end_of_canonicalToken ht, ih]

theorem readAs_dataItems
    (h : List.Forall₂ (fun t t' => canonicalToken t = .ok t') tokens tokens') :
    List.Forall₂ Item.ReadAs (dataItems tokens) (dataItems tokens') := by
  induction tokens using addData.induct generalizing tokens' with
  | case1 =>
    cases h
    exact .nil
  | case2 first rest hend =>
    obtain ⟨first', rest', hfirst, -, rfl⟩ := List.forall₂_cons_left_iff.mp h
    rw [dataItems_end rest hend,
      dataItems_end rest' ((isWord_end_of_canonicalToken hfirst).trans hend)]
    exact .cons .close .nil
  | case3 first hend horigin =>
    obtain ⟨first', _, hfirst, ⟨⟩, rfl⟩ := List.forall₂_cons_left_iff.mp h
    rw [dataItems, if_neg hend, if_pos horigin, dataItems, isWord_end_of_canonicalToken hfirst,
      isWord_origin_of_canonicalToken hfirst, if_neg hend, if_pos horigin]
    exact .nil
  | case4 first hend horigin address rest ih =>
    obtain ⟨first', _, hfirst, hbehind, rfl⟩ := List.forall₂_cons_left_iff.mp h
    obtain ⟨address', rest', -, hrest, rfl⟩ := List.forall₂_cons_left_iff.mp hbehind
    rw [Bool.not_eq_true] at hend
    rw [dataItems_origin hend horigin,
      dataItems_origin ((isWord_end_of_canonicalToken hfirst).trans hend)
        ((isWord_origin_of_canonicalToken hfirst).trans horigin)]
    exact .cons (.origin _ _) (ih hrest)
  | case5 first rest hend horigin =>
    obtain ⟨first', rest', hfirst, hrest, rfl⟩ := List.forall₂_cons_left_iff.mp h
    rw [Bool.not_eq_true] at hend horigin
    rw [dataItems_variable rest hend horigin,
      dataItems_variable rest' ((isWord_end_of_canonicalToken hfirst).trans hend)
        ((isWord_origin_of_canonicalToken hfirst).trans horigin), any_isWord_end hrest]
    refine .cons (.var _ _ _ _) ?_
    split
    · exact .cons .close .nil
    · exact .nil

/-- What a line defines as a label does not change. -/
theorem labelName?_of_canonicalToken (h : canonicalToken t = .ok t') :
    labelName? t' = labelName? t := by
  rcases Source.canonicalToken_cases h with rfl | ⟨⟨-, sigil, n, hc, htext⟩, hother⟩
  · rfl
  · have hright : labelName? t = none := by
      unfold labelName?
      split
      · next hkind hdotted => exact absurd (Source.canonicalWord_dotted hdotted) (hother hkind)
      · rfl
    rw [hright]
    unfold labelName?
    split
    · next hdotted =>
      rw [htext, Source.toList_sigiled] at hdotted
      rw [(List.cons.inj hdotted).1] at hc
      cases hc
    · rfl

/-- The word that opens a data block starts with a dot, in any letter case. -/
theorem exists_of_lower_eq_dataWord {text : String} (h : Text.lower text = dataWord) :
    ∃ rest, text.toList = '.' :: rest := by
  have hlower : text.toList.map Char.toLower = '.' :: ['d', 'a', 't', 'a'] := by
    rw [← String.toList_ofList (l := text.toList.map Char.toLower)]
    exact congrArg String.toList h
  obtain ⟨c, rest, htext, hc, -⟩ := List.map_eq_cons_iff.mp hlower
  refine ⟨rest, htext.trans ?_⟩
  congr 1
  -- a capital becomes a letter
  unfold Char.toLower at hc
  split at hc
  · next hcapital =>
    have hcode : (c.toNat + 32) % 4294967296 = 46 := by
      simpa [UInt32.toNat_add] using congrArg (fun c : Char => c.val.toNat) hc
    have hlow : 65 ≤ c.toNat := hcapital.1
    have hhigh : c.toNat ≤ 90 := hcapital.2
    omega
  · exact hc

/-- What a line opens does not change. -/
theorem isData_of_canonicalToken (h : canonicalToken t = .ok t') :
    (t'.kind = .word ∧ Text.lower t'.text = dataWord) ↔
      (t.kind = .word ∧ Text.lower t.text = dataWord) := by
  rcases Source.canonicalToken_cases h with rfl | ⟨⟨-, sigil, n, hc, htext⟩, hother⟩
  · rfl
  · refine iff_of_false ?_ ?_
    · rintro ⟨-, hdata⟩
      obtain ⟨rest, hdotted⟩ := exists_of_lower_eq_dataWord hdata
      rw [htext, Source.toList_sigiled] at hdotted
      rw [(List.cons.inj hdotted).1] at hc
      cases hc
    · rintro ⟨hkind, hdata⟩
      obtain ⟨rest, hdotted⟩ := exists_of_lower_eq_dataWord hdata
      exact hother hkind (Source.canonicalWord_dotted hdotted)

end Tokens

theorem readAs_codeItems {line line' : Line} (hnumber : line'.number = line.number)
    (h : List.Forall₂ (fun t t' => canonicalToken t = .ok t') line.tokens line'.tokens) :
    List.Forall₂ Item.ReadAs (codeItems line) (codeItems line') := by
  obtain ⟨number, tokens⟩ := line
  obtain ⟨_, tokens'⟩ := line'
  cases hnumber
  unfold codeItems
  cases h with
  | nil => exact .nil
  | @cons first first' rest rest' hfirst hrest =>
    dsimp only
    rw [labelName?_of_canonicalToken hfirst]
    by_cases hdata : first.kind = .word ∧ Text.lower first.text = dataWord
    · rw [if_pos hdata, if_pos ((isData_of_canonicalToken hfirst).mpr hdata)]
      exact .cons .block (readAs_dataItems hrest)
    · rw [if_neg hdata, if_neg (mt (isData_of_canonicalToken hfirst).mp hdata)]
      cases labelName? first with
      | none => exact .cons (.statement _ _ _ hrest) .nil
      | some name =>
        refine .cons (.label name) ?_
        cases hrest with
        | nil => exact .nil
        | cons _ hoperands => exact .cons (.statement _ _ _ hoperands) .nil

/-- The outline of source text and that of its lines in canonical form are the same, item by
item. -/
theorem readAs_outlineFrom {raw lines : List Line}
    (h : List.Forall₂ (fun line line' => line'.number = line.number ∧
      List.Forall₂ (fun t t' => canonicalToken t = .ok t') line.tokens line'.tokens) raw lines)
    (inBlock : Bool) :
    List.Forall₂ Item.ReadAs (outlineFrom inBlock raw) (outlineFrom inBlock lines) := by
  induction h generalizing inBlock with
  | nil => exact .nil
  | @cons line line' _ _ hline _ ih =>
    have hitems : List.Forall₂ Item.ReadAs
        (if inBlock then dataItems line.tokens else codeItems line)
        (if inBlock then dataItems line'.tokens else codeItems line') := by
      cases inBlock with
      | true => exact readAs_dataItems hline.2
      | false => exact readAs_codeItems hline.1 hline.2
    rw [outlineFrom, outlineFrom, ← leavesOpen_of_readAs hitems]
    exact List.rel_append hitems (ih _)

/-! ## Operands -/

section Operands

variable {d : Draft} {p : StringPool} {t t' : Token} {o : Operand}

/-- A word that names a label, with its dot or without, is encoded as the label. -/
theorem Encodes.eq_label (h : d.Encodes p t o) {name : String} {n : Nat}
    (hidentifier : isIdentifier name) (hfind : d.labels.find? name = some n)
    (hkind : t.kind = .word) (htext : t.text = name ∨ t.text = "." ++ name) :
    o.mode = .label ∧ o.value.toNat = n := by
  have hlabel : d.wordOperand t.text = .ok (.label, n) := by
    rcases htext with htext | htext
    · rw [htext]
      exact d.wordOperand_label hidentifier hfind
    · rw [htext]
      exact d.wordOperand_dotted hfind
  cases h with
  | literal hstr _ =>
    rw [hkind] at hstr
    cases hstr
  | word _ hword =>
    rw [hlabel] at hword
    cases hword
    exact ⟨rfl, rfl⟩

/-- A number behind the sigil of immediate operands is encoded as the number. -/
theorem Encodes.eq_immediate (h : d.Encodes p t o) {n : Nat} (hn : n < Text.integerBound)
    (hkind : t.kind = .word) (htext : t.text = sigiled '$' n) : o = ⟨.immediate, n.toUInt8⟩ := by
  have hsigil : '$'.toString.toList = ['$'] := by
    rw [Char.toString_eq_singleton, String.toList_singleton]
  have hword : d.wordOperand t.text = .ok (.immediate, n) := by
    rw [htext]
    exact d.wordOperand_number hsigil (by decide) hn
  cases h with
  | literal hstr _ =>
    rw [hkind] at hstr
    cases hstr
  | word _ hvalue =>
    rw [hword] at hvalue
    obtain ⟨rfl, rfl⟩ := Prod.mk.inj (Except.ok.inj hvalue)
    rw [Nat.toUInt8_eq, UInt8.ofNat_toNat]

end Operands

end Draft

open Draft (Item outline statementsOf)

/-- What an operand is whose token is written as a label: the label, unless the token is a named
signal, which has no dot. -/
structure NamesLabel (labels : SymbolTable) (t : Token) (o : Operand) : Prop where
  /-- A label with its dot in front. -/
  dotted : ∀ name n, labels.find? name = some n → t.kind = .word → t.text = "." ++ name →
    o.mode = .label ∧ o.value.toNat = n
  /-- A label without a dot. -/
  bare : ∀ name n, labels.find? name = some n → signal? name = none → t.kind = .word →
    t.text = name → o.mode = .label ∧ o.value.toNat = n
  /-- A named signal, whether there is a label of its name or not. -/
  signal : ∀ n, t.kind = .word → signal? t.text = some n → o = ⟨.immediate, n.toUInt8⟩

/-- A token whose canonical form is encoded names a label or a signal as it is written. -/
theorem namesLabel_of_encodes {d : Draft} {p : StringPool} {t t' : Token} {o : Operand}
    (hidentifier : ∀ name n, d.labels.find? name = some n → Draft.isIdentifier name)
    (hcanonical : canonicalToken t = .ok t') (h : d.Encodes p t' o) : NamesLabel d.labels t o := by
  have hword : ∀ {text : String}, t.kind = .word → canonicalWord t.text = .ok text →
      t'.kind = .word ∧ t'.text = text := by
    intro text hkind htext
    obtain ⟨kind, word, span⟩ := t
    cases hkind
    change (canonicalWord word).map _ = _ at hcanonical
    rw [htext] at hcanonical
    cases hcanonical
    exact ⟨rfl, rfl⟩
  constructor
  · intro name n hfind hkind htext
    have hdotted : t.text.toList = '.' :: name.toList := by
      rw [htext, String.toList_append]
      rfl
    obtain ⟨hkind', htext'⟩ := hword hkind (Source.canonicalWord_dotted hdotted)
    exact h.eq_label (hidentifier name n hfind) hfind hkind' (.inr (htext'.trans htext))
  · intro name n hfind hsignal hkind htext
    have hname := hidentifier name n hfind
    have hsame := Source.canonicalWord_identifier hname
    rw [hsignal, ← htext] at hsame
    obtain ⟨hkind', htext'⟩ := hword hkind hsame
    exact h.eq_label hname hfind hkind' (.inl (htext'.trans htext))
  · intro n hkind hsignal
    obtain ⟨hname, hle⟩ := isIdentifier_and_le_of_signal? hsignal
    have hnumber := Source.canonicalWord_identifier hname
    rw [hsignal] at hnumber
    obtain ⟨hkind', htext'⟩ := hword hkind hnumber
    exact h.eq_immediate (Text.lt_integerBound (by omega)) hkind' htext'

/-- In a source that is accepted, every operand that is written as a label is encoded as the place
of the label, unless it is written as a named signal. -/
theorem labelOperands_of_assemble {source : String} {config : Config} {image : Image}
    (h : assemble source config = .ok image) :
    ∃ raw d listed, Source.tokenize source = .ok raw ∧ Draft.read source config = .ok d ∧
      Listing.decodeRom image.rom = .ok listed ∧
      (∀ name n, d.labels.find? name = some n ↔
        ∃ front back, outline raw = front ++ .label name :: back ∧
          n = Listing.startOf image.rom.length (listed.drop (statementsOf front).length)) ∧
      List.Forall₂ (fun s l => List.Forall₂ (NamesLabel d.labels) s.2.2 l.instruction.operands)
        (statementsOf (outline raw)) listed := by
  obtain ⟨layout, d, p, instructions, hA⟩ := exists_assembled h
  obtain ⟨lines, hlines, hplaced⟩ := hA.exists_outline
  obtain ⟨raw, hraw, hcanonical⟩ := Source.exists_tokenize_of_read hlines
  have hitems : List.Forall₂ Item.ReadAs (outline raw) (outline lines) :=
    Draft.readAs_outlineFrom hcanonical false
  refine ⟨raw, d, _, hraw, hA.read, hA.decodeRom_eq, fun name n => ?_, ?_⟩
  · rw [(hA.passesAgree hplaced).labels]
    exact Draft.label_iff_of_readAs hitems
      (P := fun k => n = Listing.startOf image.rom.length (List.drop k _))
  · have hidentifier : ∀ name n, d.labels.find? name = some n → Draft.isIdentifier name :=
      fun _ _ => Draft.isIdentifier_of_find?_label hplaced
    have hnames : ∀ t t' o, canonicalToken t = .ok t' → d.Encodes p t' o →
        NamesLabel d.labels t o := fun _ _ _ => namesLabel_of_encodes hidentifier
    exact (Draft.statementsOf_of_readAs hitems).through
      (fun _ _ _ hoperands => hoperands.through hnames) (hA.forall₂_encodes hplaced)

/-- A program that jumps to labels behind it and in front of it, with their dots and without, and to
a label of the name of a signal, which it also uses as a signal. -/
def jumpsToLabels : String :=
  ".MAIN\njmp stop\njmp .INT_FILE\n.INT_FILE jmp MAIN\nmov %al INT_FILE\n.stop\njmp .stop"

theorem labelOperands_jumpsToLabels :
    ∃ image raw d listed, assemble jumpsToLabels { memorySize := 32 } = .ok image ∧
      image.rom = [17, 7, 14, 17, 7, 6, 17, 7, 0, 2, 1, 0, 4, 7, 17, 7, 14] ∧
      Source.tokenize jumpsToLabels = .ok raw ∧
      Draft.read jumpsToLabels { memorySize := 32 } = .ok d ∧
      Listing.decodeRom image.rom = .ok listed ∧
      List.Forall₂ (fun s l => List.Forall₂ (NamesLabel d.labels) s.2.2 l.instruction.operands)
        (statementsOf (outline raw)) listed := by
  have hassemble : assemble jumpsToLabels { memorySize := 32 } =
      .ok ⟨[17, 7, 14, 17, 7, 6, 17, 7, 0, 2, 1, 0, 4, 7, 17, 7, 14], [], .bits16, 0⟩ := by
    decide +kernel
  obtain ⟨raw, d, listed, hraw, hread, hdecode, -, hnames⟩ := labelOperands_of_assemble hassemble
  exact ⟨_, raw, d, listed, hassemble, rfl, hraw, hread, hdecode, hnames⟩

/-- A label of the name of a signal. -/
def jumpsToSignal : String := ".MAIN\njmp INT_FILE\n.INT_FILE\nhalt"

/-- An operand that is written as a label, but is the name of a signal, is not encoded as the
label. -/
theorem not_label_jumpsToSignal :
    ∃ image raw d listed t o, assemble jumpsToSignal { memorySize := 32 } = .ok image ∧
      Source.tokenize jumpsToSignal = .ok raw ∧
      Draft.read jumpsToSignal { memorySize := 32 } = .ok d ∧
      d.labels.find? "INT_FILE" = some 3 ∧ Listing.decodeRom image.rom = .ok listed ∧
      Draft.StandsFor (statementsOf (outline raw)) listed t o ∧
      t.kind = .word ∧ t.text = "INT_FILE" ∧ ¬ (o.mode = .label ∧ o.value.toNat = 3) := by
  have hassemble : assemble jumpsToSignal { memorySize := 32 } =
      .ok ⟨[17, 4, 7, 1], [], .bits16, 0⟩ := by
    decide +kernel
  have hraw : Source.tokenize jumpsToSignal = .ok [⟨1, [⟨.word, ".MAIN", ⟨0, 5⟩⟩]⟩,
      ⟨2, [⟨.word, "jmp", ⟨6, 3⟩⟩, ⟨.word, "INT_FILE", ⟨10, 8⟩⟩]⟩,
      ⟨3, [⟨.word, ".INT_FILE", ⟨19, 9⟩⟩]⟩, ⟨4, [⟨.word, "halt", ⟨29, 4⟩⟩]⟩] := by
    decide +kernel
  have hlabel : (Draft.read jumpsToSignal { memorySize := 32 }).toOption.map
      (·.labels.find? "INT_FILE") = some (some 3) := by
    decide +kernel
  obtain ⟨d, hread, hfind⟩ := Except.exists_of_toOption_map hlabel
  exact ⟨_, _, d, [⟨0, ⟨.jmp, [⟨.immediate, 7⟩]⟩⟩, ⟨3, ⟨.halt, []⟩⟩],
    ⟨.word, "INT_FILE", ⟨10, 8⟩⟩, ⟨.immediate, 7⟩, hassemble, hraw, hread, hfind,
    by decide +kernel, ⟨_, _, List.mem_cons_self, List.mem_cons_self⟩, rfl, rfl, by decide⟩

end TeachingCpu
