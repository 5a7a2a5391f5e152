import TeachingCpu.Proofs.Assembly.Alike
import TeachingCpu.Proofs.Assembly.Content
import TeachingCpu.Proofs.Assembly.Passes
import TeachingCpu.Proofs.Source.Rewrite

/-!
# Other names for labels

The names of labels do not matter. If the labels that a source defines get other names, in their
definitions and in the operands that name them, and the entry point keeps its name, what comes out
is the same image (`assemble_renamed`).

The names are those of lines in canonical form. The renamed lines are those of some source as well,
since other names are written as they are (`exists_read_rename`).
-/

namespace TeachingCpu

/-! ## Symbol tables -/

namespace SymbolTable

/-- A table where the names are other ones. -/
def rename (ρ : String → String) (t : SymbolTable) : SymbolTable :=
  ⟨t.entries.map fun entry => (ρ entry.1, entry.2)⟩

/-- The names of a table. -/
def names (t : SymbolTable) : List String := t.entries.map Prod.fst

variable {ρ : String → String} {names : Set String}

theorem find?_rename (hinjective : Set.InjOn ρ names) {t : SymbolTable}
    (ht : ∀ name ∈ t.names, name ∈ names) {name : String} (hname : name ∈ names) :
    (t.rename ρ).find? (ρ name) = t.find? name := by
  obtain ⟨entries⟩ := t
  induction entries with
  | nil => rfl
  | cons entry rest ih =>
    obtain ⟨hentry, hrest⟩ := List.forall_mem_cons.mp ht
    have hsame : (ρ name == ρ entry.1) = (name == entry.1) := by
      rw [Bool.eq_iff_iff, beq_iff_eq, beq_iff_eq]
      exact hinjective.eq_iff hname hentry
    change ((ρ entry.1, entry.2) :: rest.map _).lookup (ρ name) = (entry :: rest).lookup name
    rw [List.lookup_cons, List.lookup_cons, hsame]
    cases name == entry.1 with
    | true => rfl
    | false => exact ih hrest

theorem mem_names_of_find? {t : SymbolTable} {name : String} {n : Nat}
    (h : t.find? name = some n) : name ∈ t.names := by
  obtain ⟨front, back, hentries, -⟩ := List.lookup_eq_some_iff.mp h
  rw [SymbolTable.names, hentries]
  simp

end SymbolTable

namespace Draft

/-! ## Lines with other names -/

/-- Whether a text is a label where it stands as an operand: it starts with no sigil. -/
def isLabelText (text : String) : Bool :=
  decide ((text.toList.head?.map Mode.ofSigil).getD .label = .label)

/-- The text of a label, with its dot or without, where labels have other names. -/
def renameText (ρ : String → String) (text : String) : String :=
  if text.toList.head? = some '.' then "." ++ ρ (labelText text) else ρ (labelText text)

/-- An operand where labels have other names. -/
def renameOperand (ρ : String → String) (t : Token) : Token :=
  if t.kind ≠ .str ∧ isLabelText t.text then { t with text := renameText ρ t.text } else t

/-- The tokens of a statement where labels have other names. -/
def renameStatement (ρ : String → String) : List Token → List Token
  | [] => []
  | mnemonic :: operands => mnemonic :: operands.map (renameOperand ρ)

/-- The tokens of a line outside of data blocks where labels have other names. -/
def renameCode (ρ : String → String) : List Token → List Token
  | [] => []
  | first :: rest =>
    if first.kind = .word ∧ Text.lower first.text = dataWord then first :: rest
    else match labelName? first with
      | none => renameStatement ρ (first :: rest)
      | some name => { first with text := "." ++ ρ name } :: renameStatement ρ rest

/-- Lines that begin inside or outside of a data block where labels have other names. -/
def renameFrom (ρ : String → String) (inBlock : Bool) : List Line → List Line
  | [] => []
  | line :: rest =>
    let items := if inBlock then dataItems line.tokens else codeItems line
    { line with tokens := if inBlock then line.tokens else renameCode ρ line.tokens } ::
      renameFrom ρ (items.foldl Item.leavesOpen inBlock) rest

/-- The lines of a source where labels have other names. -/
def rename (ρ : String → String) (lines : List Line) : List Line := renameFrom ρ false lines

/-- The names of the labels that lines define. -/
def labelNames (lines : List Line) : Set String := {name | .label name ∈ outline lines}

/-- Other names for labels: they are different from each other, none of them is the name of a
signal or the word that opens a data block, and the entry point has its name. -/
structure Renames (ρ : String → String) (names : Set String) : Prop where
  injective : Set.InjOn ρ names
  identifier : ∀ name ∈ names, isIdentifier (ρ name)
  noSignal : ∀ name ∈ names, signal? (ρ name) = none
  noData : ∀ name ∈ names, Text.lower (ρ name) ≠ "data"
  entry : ρ entryLabel = entryLabel

/-! ## The first pass -/

/-- Statements of the same mnemonic and of operands that differ by the names of labels. -/
structure RenamedStatement (ρ : String → String) (s s' : Statement) : Prop where
  mnemonic : s'.mnemonic.content = s.mnemonic.content
  operands : s'.operands.map Token.content = (s.operands.map (renameOperand ρ)).map Token.content

/-- Drafts that differ by the names of labels. -/
structure Renamed (ρ : String → String) (names : Set String) (d d' : Draft) : Prop where
  names : ∀ name ∈ d.labels.names, name ∈ names
  eq : d' = d.setCode (d.labels.rename ρ, d'.statements, d.romLength)
  statements : List.Forall₂ (RenamedStatement ρ) d.statements d'.statements

section FirstPass

variable {ρ : String → String} {names : Set String} {d d' d₁ : Draft}

theorem renamed_empty (ρ : String → String) (names : Set String) (layout : Layout) :
    Renamed ρ names (empty layout) (empty layout) :=
  ⟨nofun, rfl, .nil⟩

/-- Data do not name labels. -/
theorem Renamed.exists_addData (h : Renamed ρ names d d') {tokens tokens' : List Token}
    (hsame : tokens'.map Token.content = tokens.map Token.content)
    (hadd : addData tokens d = .ok () d₁) :
    ∃ d₁', addData tokens' d' = .ok () d₁' ∧ Renamed ρ names d₁ d₁' := by
  have hcode := code_of_addData hadd
  simp only [code, Prod.mk.injEq] at hcode
  obtain ⟨hlabels, hstatements, hlength⟩ := hcode
  obtain ⟨hnames, heq, hrenamed⟩ := h
  rw [heq]
  refine ⟨_, addData_setCode _ hsame hadd, ?_, ?_, ?_⟩
  · rw [hlabels]
    exact hnames
  · rw [hlabels, hlength]
    rfl
  · rw [hstatements]
    exact hrenamed

theorem Renamed.exists_addStatement (h : Renamed ρ names d d') {line : Nat} (line' : Nat)
    {mnemonic mnemonic' : Token} {operands operands' : List Token}
    (hmnemonic : mnemonic'.content = mnemonic.content)
    (hoperands : operands'.map Token.content = (operands.map (renameOperand ρ)).map Token.content)
    (hadd : addStatement line mnemonic operands d = .ok () d₁) :
    ∃ d₁', addStatement line' mnemonic' operands' d' = .ok () d₁' ∧ Renamed ρ names d₁ d₁' := by
  obtain ⟨haccepts, rfl⟩ := addStatement_eq_ok_iff.mp hadd
  have hlength : operands'.length = operands.length := by
    simpa using congrArg List.length hoperands
  have hkind : mnemonic'.kind = mnemonic.kind := congrArg Prod.fst hmnemonic
  obtain ⟨hnames, heq, hrenamed⟩ := h
  rw [heq]
  refine ⟨_, addStatement_eq_ok_iff.mpr ⟨?_, rfl⟩, hnames, ?_,
    .cons ⟨hmnemonic, hoperands⟩ hrenamed⟩
  · rw [hlength, hkind]
    exact haccepts
  · rw [hlength]
    rfl

theorem Renamed.exists_addLabel (hρ : Renames ρ names) (h : Renamed ρ names d d') {name : String}
    (hname : name ∈ names) {t : Token} (t' : Token) (hadd : addLabel name t d = .ok () d₁) :
    ∃ d₁', addLabel (ρ name) t' d' = .ok () d₁' ∧ Renamed ρ names d₁ d₁' := by
  obtain ⟨⟨-, hnew⟩, rfl⟩ := addLabel_eq_ok_iff.mp hadd
  obtain ⟨hnames, heq, hrenamed⟩ := h
  rw [heq]
  refine ⟨_, addLabel_eq_ok_iff.mpr ⟨⟨hρ.identifier name hname, ?_⟩, rfl⟩, ?_, rfl, hrenamed⟩
  · change (d.labels.rename ρ).find? (ρ name) = none
    rw [SymbolTable.find?_rename hρ.injective hnames hname, hnew]
  · exact List.forall_mem_cons.mpr ⟨hname, hnames⟩

theorem kind_of_labelName? {t : Token} {name : String} (h : labelName? t = some name) :
    t.kind = .word := by
  unfold labelName? at h
  split at h
  · next hkind _ => exact hkind
  · cases h

theorem label_mem_codeItems {line : Line} {first : Token} {rest : List Token} {name : String}
    (htokens : line.tokens = first :: rest)
    (hcode : ¬ (first.kind = .word ∧ Text.lower first.text = dataWord))
    (hlabel : labelName? first = some name) : .label name ∈ codeItems line := by
  rw [codeItems, htokens]
  dsimp only
  rw [if_neg hcode, hlabel]
  exact List.mem_cons_self

/-- The token of a label with another name defines it under that name. -/
theorem Renames.defines (hρ : Renames ρ names) {name : String} (hname : name ∈ names)
    {first t : Token} (hlabel : labelName? first = some name)
    (h : t.content = Token.content { first with text := "." ++ ρ name }) :
    labelName? t = some (ρ name) ∧ ¬ (t.kind = .word ∧ Text.lower t.text = dataWord) := by
  have hcontent : t.content = (.word, "." ++ ρ name) := by
    rw [h, Token.content, kind_of_labelName? hlabel]
  refine ⟨labelName?_of_content hcontent (hρ.identifier name hname), fun hdata => ?_⟩
  have hlower : '.' :: (ρ name).toList.map Char.toLower = '.' :: "data".toList := by
    have hchars := congrArg String.toList hdata.2
    rw [Token.text_of_content hcontent, Text.lower, String.toList_ofList, String.toList_append,
      List.map_append] at hchars
    exact hchars
  refine hρ.noData name hname ?_
  rw [Text.lower, (List.cons.inj hlower).2, String.ofList_toList]

/-- A line with other names for its labels is taken where the line is. -/
theorem Renamed.exists_addLine (hρ : Renames ρ names) (h : Renamed ρ names d d') {line line' : Line}
    (hnames : d.position = none → ∀ name, .label name ∈ codeItems line → name ∈ names)
    (hsame : line'.tokens.map Token.content =
      (if d.position.isSome then line.tokens else renameCode ρ line.tokens).map Token.content)
    (hadd : addLine line d = .ok () d₁) :
    ∃ d₁', addLine line' d' = .ok () d₁' ∧ Renamed ρ names d₁ d₁' := by
  have hposition : d'.position = d.position := by
    rw [h.eq]
    rfl
  cases adds_of_addLine hadd with
  | data hopen hdata =>
    rw [if_pos hopen] at hsame
    obtain ⟨d₁', hdata', hrenamed⟩ := h.exists_addData hsame hdata
    exact ⟨d₁', addLine_of_adds (.data (hposition ▸ hopen) hdata'), hrenamed⟩
  | blank hclosed htokens heq =>
    rw [hclosed, if_neg (by simp), htokens, renameCode, List.map_nil, List.map_eq_nil_iff] at hsame
    exact ⟨d', addLine_of_adds (.blank (hposition.trans hclosed) hsame rfl), heq ▸ h⟩
  | block hclosed htokens hdata hrest =>
    rw [hclosed, if_neg (by simp), htokens, renameCode, if_pos hdata] at hsame
    obtain ⟨first', rest', htokens', hfirst, hafter⟩ := List.map_eq_cons_iff.mp hsame
    have hopened :
        Renamed ρ names { d with position := some 0 } { d' with position := some 0 } := by
      refine ⟨h.names, ?_, h.statements⟩
      rw [h.eq]
      rfl
    obtain ⟨d₁', hrest', hrenamed⟩ := hopened.exists_addData hafter hrest
    exact ⟨d₁', addLine_of_adds (.block (hposition.trans hclosed) htokens'
      ((opensData_iff_of_same hfirst).mpr hdata) hrest'), hrenamed⟩
  | statement hclosed htokens hcode hlabel hstatement =>
    rw [hclosed, if_neg (by simp), htokens, renameCode, if_neg hcode, hlabel] at hsame
    obtain ⟨mnemonic', operands', htokens', hmnemonic, hoperands⟩ := List.map_eq_cons_iff.mp hsame
    obtain ⟨d₁', hstatement', hrenamed⟩ :=
      h.exists_addStatement line'.number hmnemonic hoperands hstatement
    exact ⟨d₁', addLine_of_adds (.statement (hposition.trans hclosed) htokens'
      (mt (opensData_iff_of_same hmnemonic).mp hcode)
      ((labelName?_of_same hmnemonic).trans hlabel) hstatement'), hrenamed⟩
  | label hclosed htokens hcode hlabel hdefine =>
    have hname := hnames hclosed _ (label_mem_codeItems htokens hcode hlabel)
    rw [hclosed, if_neg (by simp), htokens, renameCode, if_neg hcode, hlabel] at hsame
    obtain ⟨first', rest', htokens', hfirst, hrest⟩ := List.map_eq_cons_iff.mp hsame
    obtain rfl := List.map_eq_nil_iff.mp hrest
    obtain ⟨hlabel', hcode'⟩ := hρ.defines hname hlabel hfirst
    obtain ⟨d₁', hdefine', hrenamed⟩ := h.exists_addLabel hρ hname first' hdefine
    exact ⟨d₁', addLine_of_adds
      (.label (hposition.trans hclosed) htokens' hcode' hlabel' hdefine'), hrenamed⟩
  | labelled hclosed htokens hcode hlabel hdefine hstatement =>
    have hname := hnames hclosed _ (label_mem_codeItems htokens hcode hlabel)
    rw [hclosed, if_neg (by simp), htokens, renameCode, if_neg hcode, hlabel] at hsame
    obtain ⟨first', rest', htokens', hfirst, hrest⟩ := List.map_eq_cons_iff.mp hsame
    obtain ⟨mnemonic', operands', rfl, hmnemonic, hoperands⟩ := List.map_eq_cons_iff.mp hrest
    obtain ⟨hlabel', hcode'⟩ := hρ.defines hname hlabel hfirst
    obtain ⟨middle', hdefine', hmiddle⟩ := h.exists_addLabel hρ hname first' hdefine
    obtain ⟨d₁', hstatement', hrenamed⟩ :=
      hmiddle.exists_addStatement line'.number hmnemonic hoperands hstatement
    exact ⟨d₁', addLine_of_adds (.labelled (hposition.trans hclosed) htokens' hcode' hlabel'
      hdefine' hstatement'), hrenamed⟩

/-- Lines with other names for their labels are taken where the lines are. -/
theorem Renamed.exists_forM (hρ : Renames ρ names) (h : Renamed ρ names d d')
    {lines lines' : List Line}
    (hnames : ∀ name, .label name ∈ outlineFrom d.position.isSome lines → name ∈ names)
    (hsame : lines'.map (·.tokens.map Token.content) =
      (renameFrom ρ d.position.isSome lines).map (·.tokens.map Token.content))
    (hadd : lines.forM addLine d = .ok () d₁) :
    ∃ d₁', lines'.forM addLine d' = .ok () d₁' ∧ Renamed ρ names d₁ d₁' := by
  induction lines generalizing lines' d d' with
  | nil =>
    obtain rfl := List.map_eq_nil_iff.mp hsame
    cases hadd
    exact ⟨d', rfl, h⟩
  | cons line rest ih =>
    obtain ⟨line', rest', rfl, hline, hrest⟩ := List.map_eq_cons_iff.mp hsame
    change (addLine line >>= fun _ => rest.forM addLine) d = .ok () d₁ at hadd
    obtain ⟨_, d₂, hfirst, hafter⟩ := Attempt.bind_eq_ok.mp hadd
    have hopen := (placed_of_addLine hfirst).isSome_position
    have hitems : ∀ name, .label name ∈
        (if d.position.isSome then dataItems line.tokens else codeItems line) → name ∈ names :=
      fun name hmem => hnames name (List.mem_append_left _ hmem)
    have hcode : d.position = none → ∀ name, .label name ∈ codeItems line → name ∈ names := by
      intro hclosed
      rwa [hclosed, if_neg (by simp)] at hitems
    obtain ⟨d₂', hfirst', hrenamed⟩ := h.exists_addLine hρ hcode hline hfirst
    have hbehind : ∀ name, .label name ∈ outlineFrom d₂.position.isSome rest → name ∈ names := by
      intro name hmem
      rw [hopen] at hmem
      exact hnames name (List.mem_append_right _ hmem)
    rw [← hopen] at hrest
    obtain ⟨d₁', hafter', hrenamed'⟩ := ih hrenamed hbehind hrest hafter
    exact ⟨d₁', Attempt.bind_eq_ok.mpr ⟨(), d₂', hfirst', hafter'⟩, hrenamed'⟩

end FirstPass

/-! ## The second pass -/

theorem renameText_cases (ρ : String → String) (text : String) :
    renameText ρ text = ρ (labelText text) ∨ renameText ρ text = "." ++ ρ (labelText text) := by
  unfold renameText
  split
  · exact .inr rfl
  · exact .inl rfl

/-- A label that is encoded is defined. -/
theorem find?_of_isLabelText {d : Draft} {text : String} {mode : Mode} {n : Nat}
    (h : isLabelText text) (hword : d.wordOperand text = .ok (mode, n)) :
    mode = .label ∧ d.labels.find? (labelText text) = some n := by
  unfold wordOperand at hword
  rw [of_decide_eq_true h] at hword
  dsimp only at hword
  split at hword
  · next hfind =>
    cases hword
    exact ⟨rfl, hfind⟩
  · cases hword

/-- A word that is no label has to do with variables only. -/
theorem wordOperand_eq_of_vars {d d' : Draft} {text : String} (h : ¬ isLabelText text)
    (hvars : d'.vars = d.vars) : d'.wordOperand text = d.wordOperand text := by
  unfold wordOperand
  rw [hvars]
  dsimp only
  cases hmode : (text.toList.head?.map Mode.ofSigil).getD .label with
  | label => exact absurd (decide_eq_true hmode) h
  | _ => rfl

section SecondPass

variable {ρ : String → String} {names : Set String} {d d' : Draft} {p : StringPool}

theorem Renamed.find?_label (hρ : Renames ρ names) (h : Renamed ρ names d d') {name : String}
    {n : Nat} (hfind : d.labels.find? name = some n) : d'.labels.find? (ρ name) = some n := by
  rw [h.eq]
  change (d.labels.rename ρ).find? (ρ name) = some n
  rw [SymbolTable.find?_rename hρ.injective h.names
    (h.names name (SymbolTable.mem_names_of_find? hfind)), hfind]

/-- An operand with another name for its label stands for the same. -/
theorem Renamed.sameToken (hρ : Renames ρ names) (h : Renamed ρ names d d') {t t' : Token}
    {o : Operand} (hencodes : d.Encodes p t o)
    (hsame : t'.content = (renameOperand ρ t).content) : SameToken d d' t t' := by
  have hvars : d'.vars = d.vars := by
    rw [h.eq]
    rfl
  unfold renameOperand at hsame
  cases hencodes with
  | literal hkind hfind =>
    rw [if_neg fun hlabel => hlabel.1 hkind] at hsame
    exact .literal hkind ((congrArg Prod.fst hsame).trans hkind) (congrArg Prod.snd hsame)
  | word hkind hword =>
    by_cases hlabel : isLabelText t.text
    · rw [if_pos ⟨hkind, hlabel⟩] at hsame
      have hkind' : t'.kind = t.kind := congrArg Prod.fst hsame
      have htext' : t'.text = renameText ρ t.text := congrArg Prod.snd hsame
      refine .word hkind (hkind' ▸ hkind) ?_
      obtain ⟨rfl, hfind⟩ := find?_of_isLabelText hlabel hword
      have hfind' := h.find?_label hρ hfind
      have hname := h.names _ (SymbolTable.mem_names_of_find? hfind)
      rw [hword, htext']
      rcases renameText_cases ρ t.text with htext | htext
      · rw [htext]
        exact d'.wordOperand_label (hρ.identifier _ hname) hfind'
      · rw [htext]
        exact d'.wordOperand_dotted hfind'
    · rw [if_neg fun hboth => hlabel hboth.2] at hsame
      have hkind' : t'.kind = t.kind := congrArg Prod.fst hsame
      have htext' : t'.text = t.text := congrArg Prod.snd hsame
      refine .word hkind (hkind' ▸ hkind) ?_
      rw [htext']
      exact wordOperand_eq_of_vars hlabel hvars

theorem Renamed.sameStatement (hρ : Renames ρ names) (h : Renamed ρ names d d') {s s' : Statement}
    {i : Instruction} (hencodes : d.EncodesStatement p s i) (hs : RenamedStatement ρ s s') :
    SameStatement d d' s s' := by
  have hkind : s'.mnemonic.kind = s.mnemonic.kind := congrArg Prod.fst hs.mnemonic
  have htext : s'.mnemonic.text = s.mnemonic.text := congrArg Prod.snd hs.mnemonic
  constructor
  · rw [opcode?, opcode?, hkind, htext]
  · have hcontents := hs.operands
    rw [List.map_map] at hcontents
    have hoperands : List.Forall₂ (fun t t' => (∃ o, d.Encodes p t o) ∧
        t'.content = (renameOperand ρ t).content) s.operands s'.operands := by
      refine (List.forall₂_and_left _ _).mpr ⟨fun t ht => ?_, ?_⟩
      · obtain ⟨o, -, ho⟩ := hencodes.operands.exists_right ht
        exact ⟨o, ho⟩
      · exact (List.forall₂_of_map_eq_map hcontents).flip
    refine hoperands.imp fun t t' ht => ?_
    obtain ⟨⟨o, ho⟩, hsame⟩ := ht
    exact h.sameToken hρ ho hsame

theorem Renamed.sameStatements (hρ : Renames ρ names) (h : Renamed ρ names d d')
    {instructions : List Instruction}
    (hencodes : List.Forall₂ (d.EncodesStatement p) d.statementList instructions) :
    List.Forall₂ (SameStatement d d') d.statementList d'.statementList := by
  have hstatements : List.Forall₂ (fun s s' => (∃ i, d.EncodesStatement p s i) ∧
      RenamedStatement ρ s s') d.statementList d'.statementList := by
    refine (List.forall₂_and_left _ _).mpr ⟨fun s hs => ?_, List.rel_reverse h.statements⟩
    obtain ⟨i, -, hi⟩ := hencodes.exists_right hs
    exact ⟨i, hi⟩
  refine hstatements.imp fun s s' hs => ?_
  obtain ⟨⟨i, hi⟩, hrenamed⟩ := hs
  exact h.sameStatement hρ hi hrenamed

end SecondPass

/-! ## Other names are written -/

section Written

variable {ρ : String → String} {names : Set String}

/-- An operand names a label of a set, if it names any. -/
def NamesOneOf (names : Set String) (t : Token) : Prop :=
  t.kind ≠ .str → isLabelText t.text → labelText t.text ∈ names

/-- An item defines and names labels of a set. -/
def Item.NamesOneOf (names : Set String) : Item → Prop
  | .label name => name ∈ names
  | .statement _ _ operands => ∀ t ∈ operands, Draft.NamesOneOf names t
  | _ => True

theorem written_word {t : Token} {text : String} (hkind : t.kind = .word) (htext : t.text = text)
    (h : (Source.Piece.word text).Canonical) : Source.Written t :=
  ⟨.word text, h, by rw [Token.content, hkind, htext]; rfl⟩

theorem Renames.canonical_dotted (hρ : Renames ρ names) {name : String} (hname : name ∈ names) :
    (Source.Piece.word ("." ++ ρ name)).Canonical := by
  have hdot : ".".toList = ['.'] := rfl
  exact Listing.canonical_prefixed (hρ.identifier name hname) hdot (by decide) (by decide) rfl

theorem Renames.written_renameOperand (hρ : Renames ρ names) {t : Token} (h : Source.Written t)
    (hnames : NamesOneOf names t) : Source.Written (renameOperand ρ t) := by
  unfold renameOperand
  split
  · next hlabel =>
    obtain ⟨hkind, htext⟩ := hlabel
    have hname := hnames hkind htext
    have hword : t.kind = .word := by
      obtain ⟨piece, -, hcontent⟩ := h
      cases piece with
      | word text => exact congrArg Prod.fst hcontent
      | literal text => exact absurd (congrArg Prod.fst hcontent) hkind
    rcases renameText_cases ρ t.text with hbare | hdotted
    · exact written_word hword hbare (Source.canonical_of_isIdentifier
        (hρ.identifier _ hname) (hρ.noSignal _ hname))
    · exact written_word hword hdotted (hρ.canonical_dotted hname)
  · exact h

theorem Renames.written_renameStatement (hρ : Renames ρ names) {line : Nat} {mnemonic : Token}
    {operands : List Token} (h : ∀ t ∈ mnemonic :: operands, Source.Written t)
    (hnames : Item.NamesOneOf names (.statement line mnemonic operands)) :
    ∀ t ∈ renameStatement ρ (mnemonic :: operands), Source.Written t := by
  obtain ⟨hmnemonic, hoperands⟩ := List.forall_mem_cons.mp h
  refine List.forall_mem_cons.mpr ⟨hmnemonic, List.forall_mem_map.mpr fun t ht => ?_⟩
  exact hρ.written_renameOperand (hoperands t ht) (hnames t ht)

theorem renameCode_ne_nil {tokens : List Token} (h : tokens ≠ []) : renameCode ρ tokens ≠ [] := by
  cases tokens with
  | nil => exact absurd rfl h
  | cons first rest =>
    rw [renameCode]
    split
    · exact List.cons_ne_nil _ _
    · split
      · exact List.cons_ne_nil _ _
      · exact List.cons_ne_nil _ _

theorem Renames.written_renameCode (hρ : Renames ρ names) {line : Line}
    (h : ∀ t ∈ line.tokens, Source.Written t)
    (hnames : ∀ item ∈ codeItems line, item.NamesOneOf names) :
    ∀ t ∈ renameCode ρ line.tokens, Source.Written t := by
  unfold codeItems at hnames
  cases htokens : line.tokens with
  | nil => exact List.forall_mem_nil _
  | cons first rest =>
    rw [htokens] at h hnames
    dsimp only at hnames
    rw [renameCode]
    split
    · exact h
    · next hcode =>
      rw [if_neg hcode] at hnames
      split
      · next hlabel =>
        rw [hlabel, List.forall_mem_singleton] at hnames
        exact hρ.written_renameStatement h hnames
      · next name hlabel =>
        rw [hlabel] at hnames
        obtain ⟨hname, hstatement⟩ := List.forall_mem_cons.mp hnames
        obtain ⟨-, hrest⟩ := List.forall_mem_cons.mp h
        have hkind := kind_of_labelName? hlabel
        refine List.forall_mem_cons.mpr ⟨?_, ?_⟩
        · exact written_word hkind rfl (hρ.canonical_dotted hname)
        · cases rest with
          | nil => exact List.forall_mem_nil _
          | cons mnemonic operands =>
            exact hρ.written_renameStatement hrest (hstatement _ List.mem_cons_self)

/-- Lines with other names for their labels are written as they are where the lines are. -/
theorem Renames.writtenLine_renameFrom (hρ : Renames ρ names) {inBlock : Bool} {lines : List Line}
    (h : ∀ line ∈ lines, Source.WrittenLine line)
    (hnames : ∀ item ∈ outlineFrom inBlock lines, item.NamesOneOf names) :
    ∀ line ∈ renameFrom ρ inBlock lines, Source.WrittenLine line := by
  induction lines generalizing inBlock with
  | nil => exact List.forall_mem_nil _
  | cons line rest ih =>
    obtain ⟨hline, hrest⟩ := List.forall_mem_cons.mp h
    obtain ⟨hitems, hbehind⟩ := List.forall_mem_append.mp hnames
    refine List.forall_mem_cons.mpr ⟨?_, ih hrest hbehind⟩
    cases inBlock with
    | true => exact ⟨hline.ne_nil, hline.written⟩
    | false =>
      exact ⟨renameCode_ne_nil hline.ne_nil, hρ.written_renameCode hline.written hitems⟩

end Written

end Draft

open Draft (Renames Renamed labelNames outline rename)
open Source (contents)

/-- A source that says what the lines of another one say where labels have other names is assembled
to the same image. -/
theorem assemble_of_contents {source source' : String} {config : Config} {image : Image}
    {lines lines' : List Line} {ρ : String → String} (h : assemble source config = .ok image)
    (hlines : Source.read source = .ok lines)
    (hρ : Renames ρ (labelNames lines))
    (hlines' : Source.read source' = .ok lines')
    (hsame : contents lines' = contents (rename ρ lines)) :
    assemble source' config = .ok image := by
  obtain ⟨layout, d, p, instructions, hA⟩ := exists_assembled h
  obtain ⟨layout', lines₁, hlayout, hlines₁, hadd⟩ := Draft.read_eq_ok_iff.mp hA.read
  obtain rfl : lines₁ = lines := Except.ok.inj (hlines₁.symm.trans hlines)
  obtain ⟨hforM, hclosed⟩ := Draft.addLines_eq_ok_iff.mp hadd
  obtain ⟨d', hforM', hrenamed⟩ := (Draft.renamed_empty ρ _ layout').exists_forM hρ
    (fun name hmem => hmem) hsame hforM
  have hclosed' : d'.position = none := by
    rw [hrenamed.eq]
    exact hclosed
  have hread' : Draft.read source' config = .ok d' := Draft.read_eq_ok_iff.mpr
    ⟨layout', lines', hlayout, hlines', Draft.addLines_eq_ok_iff.mpr ⟨hforM', hclosed'⟩⟩
  refine assemble_eq_ok_iff.mpr ⟨d', p, hread', ?_⟩
  obtain ⟨offset, instructions', hentry, hpass, himage⟩ := Draft.encode_eq_ok_iff.mp hA.encode_eq
  refine Draft.encode_eq_ok_iff.mpr ⟨offset, instructions', ?_, ?_, himage⟩
  · obtain ⟨hfind, hlt⟩ := Draft.entry_eq_ok_iff.mp hentry
    have hfind' := hrenamed.find?_label hρ hfind
    rw [hρ.entry] at hfind'
    refine Draft.entry_eq_ok_iff.mpr ⟨hfind', ?_⟩
    rw [hrenamed.eq]
    exact hlt
  · have hpool : d'.emptyPool = d.emptyPool := by
      rw [hrenamed.eq]
      rfl
    rw [hpool]
    exact Draft.pass_of_same (hrenamed.sameStatements hρ hA.encodes) hpass

/-- The labels that are defined and those that operands name are in the outline. -/
theorem Assembled.namesOneOf {source : String} {config : Config} {image : Image} {layout : Layout}
    {d : Draft} {p : StringPool} {instructions : List Instruction}
    (hA : Assembled source config image layout d p instructions) {lines : List Line}
    (hplaced : (Draft.empty layout).Placed (outline lines) d) :
    ∀ item ∈ outline lines, item.NamesOneOf (labelNames lines) := by
  have hlabel : ∀ name n, d.labels.find? name = some n → .label name ∈ outline lines := by
    intro name n hfind
    obtain ⟨front, back, hitems, -⟩ := (Draft.find?_label_iff hplaced).mp hfind
    rw [hitems]
    exact List.mem_append_right front List.mem_cons_self
  intro item hitem
  cases item with
  | label name => exact hitem
  | statement line mnemonic operands =>
    intro t ht hkind htext
    have hsource : (line, mnemonic, operands) ∈ Draft.statementsOf (outline lines) :=
      List.mem_filterMap.mpr ⟨_, hitem, rfl⟩
    obtain ⟨l, -, hoperands⟩ := (hA.forall₂_encodes hplaced).exists_right hsource
    obtain ⟨o, -, hencodes⟩ := hoperands.exists_right ht
    cases hencodes with
    | literal hstr _ => exact absurd hstr hkind
    | word _ hword => exact hlabel _ _ (Draft.find?_of_isLabelText htext hword).2
  | _ => trivial

/-- Lines of a source that is accepted are those of some source where labels have other names. -/
theorem exists_read_rename {source : String} {config : Config} {image : Image} {lines : List Line}
    {ρ : String → String} (h : assemble source config = .ok image)
    (hlines : Source.read source = .ok lines)
    (hρ : Renames ρ (labelNames lines)) :
    ∃ source' lines', Source.read source' = .ok lines' ∧
      contents lines' = contents (rename ρ lines) := by
  obtain ⟨layout, d, p, instructions, hA⟩ := exists_assembled h
  obtain ⟨lines₁, hlines₁, hplaced⟩ := hA.exists_outline
  obtain rfl : lines₁ = lines := Except.ok.inj (hlines₁.symm.trans hlines)
  exact Source.exists_read (hρ.writtenLine_renameFrom (Source.written_of_read hlines)
    (hA.namesOneOf hplaced))

/-- The names of the labels do not matter in a source that is accepted: its lines with other names
are those of some source, and every such source is assembled to the same image. -/
theorem assemble_renamed {source : String} {config : Config} {image : Image}
    (h : assemble source config = .ok image) :
    ∃ lines, Source.read source = .ok lines ∧ ∀ ρ, Renames ρ (labelNames lines) →
      (∃ source' lines', Source.read source' = .ok lines' ∧
        contents lines' = contents (rename ρ lines)) ∧
      ∀ source' lines', Source.read source' = .ok lines' →
        contents lines' = contents (rename ρ lines) → assemble source' config = .ok image := by
  obtain ⟨layout, d, p, instructions, hA⟩ := exists_assembled h
  obtain ⟨lines, hlines, -⟩ := hA.exists_outline
  refine ⟨lines, hlines, fun ρ hρ => ⟨exists_read_rename h hlines hρ, ?_⟩⟩
  exact fun source' lines' hread hsame => assemble_of_contents h hlines hρ hread hsame

/-- A program with labels in front of statements and alone, of which one is named before it is
defined, and with a variable and a string of the same names. -/
def jumpsAround : String :=
  ".MAIN jmp stop\n.again mov %al @loop\n.loop\njmp .again\n" ++
    ".data loop \"again\" end\n.stop jmp loop\nhalt"

/-- The program where the labels have other names. -/
def jumpsAroundTurned : String :=
  ".MAIN jmp loop\n.stop mov %al @loop\n.again\njmp .stop\n" ++
    ".data loop \"again\" end\n.loop jmp again\nhalt"

/-- Three names that take the place of each other. -/
def turnNames (name : String) : String :=
  if name = "again" then "stop" else if name = "stop" then "loop"
  else if name = "loop" then "again" else name

theorem assemble_renamed_jumpsAround :
    ∃ image lines, assemble jumpsAround { memorySize := 32 } = .ok image ∧
      image.rom = [17, 7, 11, 2, 1, 0, 5, 0, 17, 7, 3, 17, 7, 8, 1] ∧
      Source.read jumpsAround = .ok lines ∧ Renames turnNames (labelNames lines) ∧
      assemble jumpsAroundTurned { memorySize := 32 } = .ok image := by
  have hassemble : assemble jumpsAround { memorySize := 32 } =
      .ok ⟨[17, 7, 11, 2, 1, 0, 5, 0, 17, 7, 3, 17, 7, 8, 1], [97, 103, 97, 105, 110],
        .bits16, 0⟩ := by
    decide +kernel
  have hnames : (Source.read jumpsAround).toOption.map
      (fun lines => (outline lines).filterMap Draft.labelDefinitions.name?) =
      some ["MAIN", "again", "loop", "stop"] := by
    decide +kernel
  have hcontents : (Source.read jumpsAroundTurned).toOption.map contents =
      (Source.read jumpsAround).toOption.map (fun lines => contents (rename turnNames lines)) := by
    decide +kernel
  obtain ⟨lines, hlines, hrenamed⟩ := assemble_renamed hassemble
  rw [hlines] at hnames hcontents
  obtain ⟨lines', hread, hsame⟩ := Except.exists_of_toOption_map hcontents
  have hmem : ∀ name ∈ labelNames lines, name ∈ ["MAIN", "again", "loop", "stop"] := by
    intro name hname
    rw [← Option.some.inj hnames]
    exact List.mem_filterMap.mpr ⟨_, hname, rfl⟩
  have hinjective : ∀ a ∈ ["MAIN", "again", "loop", "stop"],
      ∀ b ∈ ["MAIN", "again", "loop", "stop"], turnNames a = turnNames b → a = b := by
    decide +kernel
  have hnew : ∀ name ∈ ["MAIN", "again", "loop", "stop"], Draft.isIdentifier (turnNames name) ∧
      signal? (turnNames name) = none ∧ Text.lower (turnNames name) ≠ "data" := by
    decide +kernel
  have hρ : Renames turnNames (labelNames lines) :=
    ⟨fun a ha b hb => hinjective a (hmem a ha) b (hmem b hb),
      fun name hname => (hnew name (hmem name hname)).1,
      fun name hname => (hnew name (hmem name hname)).2.1,
      fun name hname => (hnew name (hmem name hname)).2.2, rfl⟩
  obtain ⟨-, hassembled⟩ := hrenamed turnNames hρ
  exact ⟨_, lines, hassemble, rfl, hlines, hρ, hassembled _ lines' hread hsame⟩

end TeachingCpu
