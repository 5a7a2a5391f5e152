import TeachingCpu.Proofs.Assembly.Content
import TeachingCpu.Proofs.Assembly.Passes
import TeachingCpu.Proofs.Source.Spacing

/-!
# Assembling lines that say the same

Lines that say the same, token by token, are taken by the first pass in the same way: the drafts
differ at most in where their statements stand (`SaysSame`), and a line is refused for the same
cause. The second pass over such drafts yields the same image or fails for the same cause
(`told_assemble_of_read`), so the places of tokens and lines get into errors only.
-/

namespace TeachingCpu

open Attempt

namespace Draft

/-- Statements that say the same, wherever they stand. -/
structure SameStatementText (s s' : Statement) : Prop where
  mnemonic : s'.mnemonic.content = s.mnemonic.content
  operands : s'.operands.map Token.content = s.operands.map Token.content

/-- Drafts that differ at most in where their statements stand. -/
def SaysSame (d d' : Draft) : Prop :=
  ∃ statements, d' = { d with statements } ∧ List.Forall₂ SameStatementText d.statements statements

theorem saysSame_refl (d : Draft) : SaysSame d d :=
  ⟨d.statements, rfl, List.forall₂_same.mpr fun _ _ => ⟨rfl, rfl⟩⟩

/-! ## Data -/

section Data

theorem agree_failAt {α : Type} {R : Draft → Draft → Prop} (t t' : Token) (cause : Cause) :
    Agree R (failAt t cause : Attempt Draft α) (failAt t' cause) := agree_throw rfl

theorem agree_writeGroup (bytes : List UInt8) (anchor anchor' : Option Token) :
    Agree SaysSame (writeGroup bytes anchor) (writeGroup bytes anchor') := by
  unfold writeGroup
  refine agree_get_bind fun d d' hd => ?_
  obtain ⟨_, rfl, hstatements⟩ := hd
  dsimp only
  cases d.memory.storeString (d.position.getD 0) bytes with
  | ok stored => exact agree_set ⟨_, rfl, hstatements⟩
  | error e => exact agree_throw (by cases anchor <;> cases anchor' <;> rfl)

theorem agree_writeValues {values values' : List Token}
    {group group' : Option (Token × List UInt8)}
    (hsame : values'.map Token.content = values.map Token.content)
    (hgroup : group'.map Prod.snd = group.map Prod.snd) :
    Agree SaysSame (writeValues values group) (writeValues values' group') := by
  induction values generalizing values' group group' with
  | nil =>
    obtain rfl := List.map_eq_nil_iff.mp hsame
    cases group with
    | none =>
      obtain rfl := Option.map_eq_none_iff.mp hgroup
      exact agree_pure ()
    | some numbers =>
      obtain ⟨numbers', rfl, hnumbers⟩ := Option.map_eq_some_iff.mp hgroup
      rw [writeValues, writeValues, hnumbers]
      exact agree_writeGroup _ _ _
  | cons t rest ih =>
    obtain ⟨t', rest', rfl, ht, hrest⟩ := List.map_eq_cons_iff.mp hsame
    have hkind : t'.kind = t.kind := congrArg Prod.fst ht
    have hstring : Agree SaysSame
        (do
          let bytes ← Attempt.ofExcept (stringBytes t)
          writeGroup bytes (some t)
          writeValues rest none)
        (do
          let bytes ← Attempt.ofExcept (stringBytes t')
          writeGroup bytes (some t')
          writeValues rest' none) :=
      agree_bind (agree_ofExcept (told_stringBytes ht)) fun _ =>
        agree_bind (agree_writeGroup _ _ _) fun _ => ih hrest rfl
    unfold writeValues
    rw [hkind]
    dsimp only
    cases group with
    | none =>
      obtain rfl := Option.map_eq_none_iff.mp hgroup
      refine agree_ite (fun _ => hstring) fun _ => ?_
      exact agree_bind (agree_ofExcept (told_value ht 255)) fun _ => ih hrest rfl
    | some numbers =>
      obtain ⟨⟨anchor', numbers'⟩, rfl, hnumbers⟩ := Option.map_eq_some_iff.mp hgroup
      obtain ⟨anchor, _⟩ := numbers
      cases hnumbers
      refine agree_ite (fun _ => ?_) fun _ => ?_
      · exact agree_bind (agree_writeGroup _ _ _) fun _ => hstring
      · exact agree_bind (agree_ofExcept (told_value ht 255)) fun _ => ih hrest rfl

theorem agree_closeData {rest rest' : List Token}
    (hsame : rest'.map Token.content = rest.map Token.content) :
    Agree SaysSame (closeData rest) (closeData rest') := by
  unfold closeData
  refine agree_bind (agree_modify fun d d' hd => ?_) fun _ => ?_
  · obtain ⟨_, rfl, hstatements⟩ := hd
    exact ⟨_, rfl, hstatements⟩
  cases rest with
  | nil =>
    obtain rfl := List.map_eq_nil_iff.mp hsame
    refine agree_get_bind fun d d' hd => ?_
    obtain ⟨_, rfl, hstatements⟩ := hd
    exact agree_ite (fun _ => agree_set ⟨_, rfl, hstatements⟩) fun _ => agree_pure ()
  | cons t rest =>
    obtain ⟨t', rest', rfl, ht, -⟩ := List.map_eq_cons_iff.mp hsame
    have htext : t'.text = t.text := congrArg Prod.snd ht
    dsimp only
    rw [htext]
    exact agree_failAt t t' _

theorem agree_finishVariable {rest rest' : List Token}
    (hsame : rest'.map Token.content = rest.map Token.content) :
    Agree SaysSame (finishVariable rest) (finishVariable rest') := by
  have hdrop := (split_of_same endWord hsame).2
  unfold finishVariable
  cases hcase : rest.dropWhile (!Token.isWord · endWord) with
  | nil =>
    rw [hcase] at hdrop
    rw [List.map_eq_nil_iff.mp hdrop]
    exact agree_pure ()
  | cons word after =>
    rw [hcase] at hdrop
    obtain ⟨word', after', hcase', -, hafter⟩ := List.map_eq_cons_iff.mp hdrop
    rw [hcase']
    exact agree_closeData hafter

theorem agree_addVariable {name name' : Token} {rest rest' : List Token}
    (hname : name'.content = name.content)
    (hsame : rest'.map Token.content = rest.map Token.content) :
    Agree SaysSame (addVariable name rest) (addVariable name' rest') := by
  have hkind : name'.kind = name.kind := congrArg Prod.fst hname
  have htext : name'.text = name.text := congrArg Prod.snd hname
  unfold addVariable
  rw [hkind, htext]
  refine agree_when (agree_failAt _ _ _) ?_
  refine agree_get_bind fun d d' hd => ?_
  obtain ⟨_, rfl, hstatements⟩ := hd
  refine agree_when (agree_failAt _ _ _) ?_
  refine agree_bind (agree_set ⟨_, rfl, hstatements⟩) fun _ => ?_
  have hvalues := (split_of_same endWord hsame).1
  have hempty : (rest'.takeWhile (!Token.isWord · endWord)).isEmpty =
      (rest.takeWhile (!Token.isWord · endWord)).isEmpty := by
    rw [← List.isEmpty_map (f := Token.content), hvalues, List.isEmpty_map]
  have hfinish := agree_finishVariable hsame
  dsimp only
  rw [hempty]
  refine agree_ite (fun _ => agree_bind (agree_writeGroup _ _ _) fun _ => hfinish) fun _ => ?_
  exact agree_bind (agree_writeValues hvalues rfl) fun _ => hfinish

/-- Data that say the same are read in the same way. -/
theorem agree_addData {tokens tokens' : List Token}
    (hsame : tokens'.map Token.content = tokens.map Token.content) :
    Agree SaysSame (addData tokens) (addData tokens') := by
  induction tokens using addData.induct generalizing tokens' with
  | case1 =>
    obtain rfl := List.map_eq_nil_iff.mp hsame
    rw [addData]
    exact agree_pure ()
  | case2 first rest hend =>
    obtain ⟨first', rest', rfl, hfirst, hrest⟩ := List.map_eq_cons_iff.mp hsame
    rw [addData_end rest hend, addData_end rest' ((isWord_of_same hfirst _).trans hend)]
    exact agree_closeData hrest
  | case3 first hend horigin =>
    obtain ⟨first', rest', rfl, hfirst, hrest⟩ := List.map_eq_cons_iff.mp hsame
    obtain rfl := List.map_eq_nil_iff.mp hrest
    rw [addData, addData, isWord_of_same hfirst, isWord_of_same hfirst, if_neg hend, if_neg hend,
      if_pos horigin, if_pos horigin]
    exact agree_failAt _ _ _
  | case4 first hend horigin address rest ih =>
    obtain ⟨first', _, rfl, hfirst, hbehind⟩ := List.map_eq_cons_iff.mp hsame
    obtain ⟨address', rest', rfl, haddress, hrest⟩ := List.map_eq_cons_iff.mp hbehind
    rw [addData, addData, isWord_of_same hfirst, isWord_of_same hfirst, if_neg hend, if_neg hend,
      if_pos horigin, if_pos horigin]
    refine agree_bind (agree_ofExcept (told_value haddress _)) fun base => ?_
    refine agree_get_bind fun d d' hd => ?_
    obtain ⟨_, rfl, hstatements⟩ := hd
    refine agree_when (agree_failAt _ _ _) ?_
    exact agree_bind (agree_set ⟨_, rfl, hstatements⟩) fun _ => ih hrest
  | case5 first rest hend horigin =>
    obtain ⟨first', rest', rfl, hfirst, hrest⟩ := List.map_eq_cons_iff.mp hsame
    rw [Bool.not_eq_true] at hend horigin
    rw [addData_variable rest hend horigin,
      addData_variable rest' ((isWord_of_same hfirst _).trans hend)
        ((isWord_of_same hfirst _).trans horigin)]
    exact agree_addVariable hfirst hrest

end Data

/-! ## Code -/

section Code

theorem agree_addLabel (name : String) (t t' : Token) :
    Agree SaysSame (addLabel name t) (addLabel name t') := by
  unfold addLabel
  refine agree_when (agree_failAt _ _ _) ?_
  refine agree_get_bind fun d d' hd => ?_
  obtain ⟨_, rfl, hstatements⟩ := hd
  refine agree_when (agree_failAt _ _ _) ?_
  exact agree_set ⟨_, rfl, hstatements⟩

theorem agree_addStatement (line line' : Nat) {mnemonic mnemonic' : Token}
    {operands operands' : List Token} (hmnemonic : mnemonic'.content = mnemonic.content)
    (hsame : operands'.map Token.content = operands.map Token.content) :
    Agree SaysSame (addStatement line mnemonic operands)
      (addStatement line' mnemonic' operands') := by
  have hkind : mnemonic'.kind = mnemonic.kind := congrArg Prod.fst hmnemonic
  have hlength : operands'.length = operands.length := by
    simpa using congrArg List.length hsame
  unfold addStatement
  rw [hkind, hlength]
  cases statementLength? (operands.length + 1) with
  | none => exact agree_failAt _ _ _
  | some length =>
    refine agree_when (agree_failAt _ _ _) ?_
    refine agree_get_bind fun d d' hd => ?_
    obtain ⟨_, rfl, hstatements⟩ := hd
    refine agree_when (agree_failAt _ _ _) ?_
    exact agree_set ⟨_, rfl, .cons ⟨hmnemonic, hsame⟩ hstatements⟩

/-- A line that says the same is read in the same way. -/
theorem agree_addLine {line line' : Line}
    (hsame : line'.tokens.map Token.content = line.tokens.map Token.content) :
    Agree SaysSame (addLine line) (addLine line') := by
  unfold addLine
  refine agree_mapError (fun _ => rfl) (fun _ => rfl) ?_
  refine agree_get_bind fun d d' hd => ?_
  obtain ⟨_, rfl, hstatements⟩ := hd
  refine agree_ite (fun _ => agree_addData hsame) fun _ => ?_
  cases htokens : line.tokens with
  | nil =>
    rw [htokens] at hsame
    rw [List.map_eq_nil_iff.mp hsame]
    exact agree_pure ()
  | cons first rest =>
    rw [htokens] at hsame
    obtain ⟨first', rest', htokens', hfirst, hrest⟩ := List.map_eq_cons_iff.mp hsame
    have hkind : first'.kind = first.kind := congrArg Prod.fst hfirst
    have htext : first'.text = first.text := congrArg Prod.snd hfirst
    rw [htokens']
    dsimp only
    rw [hkind, htext, labelName?_of_same hfirst]
    refine agree_ite (fun _ => ?_) fun _ => ?_
    · exact agree_bind (agree_set ⟨_, rfl, hstatements⟩) fun _ => agree_addData hrest
    · cases labelName? first with
      | none => exact agree_addStatement _ _ hfirst hrest
      | some name =>
        refine agree_bind (agree_addLabel name _ _) fun _ => ?_
        cases rest with
        | nil =>
          rw [List.map_eq_nil_iff.mp hrest]
          exact agree_pure ()
        | cons mnemonic operands =>
          obtain ⟨mnemonic', operands', rfl, hmnemonic, hoperands⟩ := List.map_eq_cons_iff.mp hrest
          exact agree_addStatement _ _ hmnemonic hoperands

/-- Lines that say the same are read in the same way. -/
theorem agree_addLines {lines lines' : List Line}
    (hsame : Source.contents lines' = Source.contents lines) :
    Agree SaysSame (addLines lines) (addLines lines') := by
  have hlines : List.Forall₂ (fun line line' : Line =>
      line.tokens.map Token.content = line'.tokens.map Token.content) lines lines' :=
    List.forall₂_of_map_eq_map hsame.symm
  unfold addLines
  refine agree_bind (agree_forM (fun line line' h => agree_addLine h.symm) hlines) fun _ => ?_
  refine agree_get_bind fun d d' hd => ?_
  obtain ⟨_, rfl, -⟩ := hd
  exact agree_ite (fun _ => agree_throw rfl) fun _ => agree_pure ()

end Code

/-! ## The second pass -/

section Encode

variable {d : Draft} {statements : List Statement}

theorem agree_encodeOperand {t t' : Token} (h : t'.content = t.content) :
    Agree Eq (d.encodeOperand t) (encodeOperand { d with statements } t') := by
  have hkind : t'.kind = t.kind := congrArg Prod.fst h
  have htext : t'.text = t.text := congrArg Prod.snd h
  unfold encodeOperand
  rw [hkind, htext]
  refine agree_mapError (fun _ => rfl) (fun _ => rfl) (agree_refl _)

theorem agree_encodeStatement {s s' : Statement} (h : SameStatementText s s') :
    Agree Eq (d.encodeStatement s) (encodeStatement { d with statements } s') := by
  have hkind : s'.mnemonic.kind = s.mnemonic.kind := congrArg Prod.fst h.mnemonic
  have htext : s'.mnemonic.text = s.mnemonic.text := congrArg Prod.snd h.mnemonic
  have hopcode : opcode? s'.mnemonic = opcode? s.mnemonic := by
    rw [opcode?, opcode?, hkind, htext]
  have hlength : s'.operands.length = s.operands.length := by
    simpa using congrArg List.length h.operands
  unfold encodeStatement
  refine agree_mapError (fun _ => rfl) (fun _ => rfl) ?_
  rw [hopcode, htext, hlength]
  cases opcode? s.mnemonic with
  | none => exact agree_throw rfl
  | some opcode =>
    refine agree_when (agree_throw rfl) ?_
    refine agree_bind (agree_mapM (fun t t' ht => agree_encodeOperand ht.symm)
      (List.forall₂_of_map_eq_map h.operands.symm)) fun _ => agree_pure _

/-- Drafts that say the same are encoded in the same way. -/
theorem told_encode {d' : Draft} (h : SaysSame d d') :
    told id d.encode = told id d'.encode := by
  obtain ⟨statements, rfl, hstatements⟩ := h
  have hpass : Agree Eq (d.statementList.mapM d.encodeStatement)
      ((statementList { d with statements }).mapM (encodeStatement { d with statements })) :=
    agree_mapM (fun _ _ hs => agree_encodeStatement hs) (List.rel_reverse hstatements)
  have hentry : entry { d with statements } = d.entry := rfl
  have hpool : emptyPool { d with statements } = d.emptyPool := rfl
  unfold encode
  rw [hentry, hpool]
  cases d.entry with
  | error e => rfl
  | ok offset =>
    rcases hpass.cases (rfl : d.emptyPool = d.emptyPool) with
      ⟨instructions, pool, _, hok, hok', rfl⟩ | ⟨e, e', _, _, herror, herror', hcause⟩
    · rw [hok, hok']
    · rw [herror, herror']
      exact congrArg Except.error hcause

end Encode

end Draft

open Draft

/-! ## Both passes -/

/-- A source that is read as lines that say the same is assembled to the same image, or refused for
the same cause. -/
theorem told_assemble_of_read {source source' : String} (config : Config)
    (hsame : told Source.contents (Source.read source) =
      told Source.contents (Source.read source')) :
    told id (assemble source config) = told id (assemble source' config) := by
  unfold assemble Draft.read attempt
  cases config.layout with
  | error e => rfl
  | ok layout =>
    rcases told_eq_cases hsame with ⟨lines, lines', hread, hread', hcontents⟩ |
      ⟨e, e', hread, hread', hcause⟩
    · simp only [hread, hread', bind, Except.bind, pure, Except.pure]
      rcases (agree_addLines hcontents.symm).cases (saysSame_refl (Draft.empty layout)) with
        ⟨_, d, d', hadd, hadd', hsays⟩ | ⟨e, e', _, _, hadd, hadd', hcause⟩
      · rw [hadd, hadd']
        dsimp only
        rcases told_eq_cases (told_encode hsays) with
          ⟨r, _, hencode, hencode', rfl⟩ | ⟨e, e', hencode, hencode', hcause⟩
        · rw [hencode, hencode']
          rfl
        · rw [hencode, hencode']
          exact congrArg Except.error hcause
      · rw [hadd, hadd']
        exact congrArg Except.error hcause
    · rw [hread, hread']
      exact congrArg Except.error hcause

/-! ## Spacing -/

/-- The same image, or errors of the same kind and with the same words. -/
inductive SameOutcome : Except Error Image → Except Error Image → Prop where
  | image (image : Image) : SameOutcome (.ok image) (.ok image)
  | failure {e e' : Error} (hkind : e.kind = e'.kind) (hmessage : e.message = e'.message) :
    SameOutcome (.error e) (.error e')

theorem sameOutcome_of_told {r r' : Except Error Image} (h : told id r = told id r') :
    SameOutcome r r' := by
  rcases told_eq_cases h with ⟨image, _, rfl, rfl, rfl⟩ | ⟨e, e', rfl, rfl, hcause⟩
  · exact .image image
  · refine .failure ?_ ?_
    · rw [Error.kind, Error.kind, hcause]
    · rw [Error.message, Error.message, hcause]

/-- Sources whose lines say the same, token by token, are assembled to the same image or refused
with the same words, and so are sources that come from each other by edits of their spacing, their
comments and their blank lines. -/
theorem assemble_sameOutcome (config : Config) :
    (∀ source source' lines lines', Source.read source = .ok lines →
      Source.read source' = .ok lines' → Source.contents lines = Source.contents lines' →
        SameOutcome (assemble source config) (assemble source' config)) ∧
      ∀ source source', Relation.EqvGen Source.Respaced source source' →
        SameOutcome (assemble source config) (assemble source' config) := by
  refine ⟨fun source source' lines lines' hread hread' hsame => ?_, fun source source' h => ?_⟩
  · refine sameOutcome_of_told (told_assemble_of_read config ?_)
    rw [hread, hread']
    exact congrArg Except.ok hsame
  · exact sameOutcome_of_told (told_assemble_of_read config (Source.told_read_of_respaced h))

/-- A program that moves a space into a register. -/
def tightMove : String := ".MAIN\nmov %al,' '\nhalt"

/-- `tightMove` with other separators. -/
def tabbedMove : String := ".MAIN\nmov %al\t ' '\nhalt"

/-- `tabbedMove` with a comment that has quotes. -/
def commentedMove : String := ".MAIN\nmov %al\t ' '\nhalt ;\"it's"

section Moves

open Source Source.Cursor

theorem respaced_tabbedMove : Respaced tightMove tabbedMove := by
  have htight : splitLines tightMove.toList = [".MAIN".toList] ++
      (['m', 'o', 'v', ' ', '%', 'a', 'l'] ++ ([','] ++ ['\'', ' ', '\''])) ::
        ["halt".toList] := by decide +kernel
  have htabbed : splitLines tabbedMove.toList = [".MAIN".toList] ++
      (['m', 'o', 'v', ' ', '%', 'a', 'l'] ++ (['\t', ' '] ++ ['\'', ' ', '\''])) ::
        ["halt".toList] := by decide +kernel
  have hmov : Passes ['m', 'o', 'v'] [' ', '%', 'a', 'l', ',', '\'', ' ', '\''] _ :=
    .word (by decide) (by decide)
  have hspace : Passes [' '] ['%', 'a', 'l', ',', '\'', ' ', '\''] none := .separator rfl
  have hal : Passes ['%', 'a', 'l'] [',', '\'', ' ', '\''] _ := .word (by decide) (by decide)
  rw [Respaced, htight, htabbed]
  have hrun := Relation.ReflTransGen.head (Step.pass hmov [] [])
    (.head (.pass hspace _ _) (.single (.pass hal _ _)))
  exact .line _ _ (.separators hrun (by decide) (by decide))

theorem respaced_commentedMove : Respaced tabbedMove commentedMove := by
  have htabbed : splitLines tabbedMove.toList =
      [".MAIN".toList, "mov %al\t ' '".toList] ++ ['h', 'a', 'l', 't'] :: [] := by decide +kernel
  have hcommented : splitLines commentedMove.toList =
      [".MAIN".toList, "mov %al\t ' '".toList] ++
        (['h', 'a', 'l', 't'] ++ ([' '] ++ ';' :: "\"it's".toList)) :: [] := by decide +kernel
  have hhalt : Passes ['h', 'a', 'l', 't'] [] _ := .word (by decide) (by decide)
  rw [Respaced, htabbed, hcommented]
  exact .line _ _ (.comment (.single (.pass hhalt [] [])) (.comment (by simp [isSeparator]) _))

end Moves

theorem assemble_sameOutcome_commentedMove :
    (∃ lines lines', Source.read tightMove = .ok lines ∧ Source.read commentedMove = .ok lines' ∧
      Source.contents lines = Source.contents lines' ∧
        SameOutcome (assemble tightMove {}) (assemble commentedMove {})) ∧
      Relation.EqvGen Source.Respaced tightMove commentedMove ∧
        SameOutcome (assemble tightMove {}) (assemble commentedMove {}) := by
  have hread : Source.read tightMove = .ok
      [⟨1, [⟨.word, ".MAIN", ⟨0, 5⟩⟩]⟩,
        ⟨2, [⟨.word, "mov", ⟨6, 3⟩⟩, ⟨.word, "%al", ⟨10, 3⟩⟩, ⟨.word, "$32", ⟨14, 3⟩⟩]⟩,
        ⟨3, [⟨.word, "halt", ⟨18, 4⟩⟩]⟩] := by decide +kernel
  have hread' : Source.read commentedMove = .ok
      [⟨1, [⟨.word, ".MAIN", ⟨0, 5⟩⟩]⟩,
        ⟨2, [⟨.word, "mov", ⟨6, 3⟩⟩, ⟨.word, "%al", ⟨10, 3⟩⟩, ⟨.word, "$32", ⟨15, 3⟩⟩]⟩,
        ⟨3, [⟨.word, "halt", ⟨19, 4⟩⟩]⟩] := by decide +kernel
  have hedits : Relation.EqvGen Source.Respaced tightMove commentedMove :=
    .trans _ _ _ (.rel _ _ respaced_tabbedMove) (.rel _ _ respaced_commentedMove)
  exact ⟨⟨_, _, hread, hread', rfl, (assemble_sameOutcome {}).1 _ _ _ _ hread hread' rfl⟩,
    hedits, (assemble_sameOutcome {}).2 _ _ hedits⟩

end TeachingCpu
