import TeachingCpu.Proofs.Assembly.Passes
import TeachingCpu.Proofs.Source.Located

/-!
# Where the assembler points

A failure of the first pass at a line points at a token of the line, if it points anywhere
(`fails_addLine`), and one of the second pass at a token of its statement. The tokens of a statement
are those of the line that it came from, and the tokens of a line are marked in the source. So a
diagnostic with a span has a line and lies on it, and only a configuration or an entry point that
cannot be used is reported without a line (`diagnostics_point`).
-/

namespace TeachingCpu

open Attempt

theorem rejects_check (m : Memory) (address : Nat) : Rejects Error.Bare (m.check address) := by
  unfold Memory.check
  split
  · exact rejects_ok _
  · exact rejects_error (bare_of _)

theorem rejects_storeString (m : Memory) (address : Nat) (bytes : List UInt8) :
    Rejects Error.Bare (m.storeString address bytes) :=
  rejects_bind (rejects_check m _) fun _ => rejects_ok _

/-- An error without a line, that points at one of some tokens if it points anywhere. -/
def PointsInto (tokens : List Token) (e : Error) : Prop :=
  e.line = none ∧ ∀ span, e.span = some span → ∃ t ∈ tokens, t.span = span

variable {tokens : List Token} {t : Token}

theorem Error.Bare.pointsInto {e : Error} (h : e.Bare) : PointsInto tokens e := by
  refine ⟨h.1, fun span hspan => ?_⟩
  rw [h.2] at hspan
  cases hspan

theorem Error.Bare.pointsInto_atSpan {e : Error} (h : e.Bare) (ht : t ∈ tokens) :
    PointsInto tokens (e.atSpan t.span) := by
  refine ⟨h.1, fun span hspan => ⟨t, ht, ?_⟩⟩
  simpa [Error.atSpan, h.2] using hspan

/-- A statement as the line of its tokens. -/
def Statement.tokenLine (s : Statement) : Line := ⟨s.line, s.mnemonic :: s.operands⟩

namespace Draft

/-! ## The first pass -/

theorem rejects_value (ht : t ∈ tokens) (max : Nat) :
    Rejects (PointsInto tokens) (value t max) := by
  have hexpected := (bare_of (.valueExpected max t.text)).pointsInto_atSpan ht
  unfold value
  dsimp only
  split
  · split
    · split
      · exact rejects_ok _
      · exact rejects_error hexpected
    · exact rejects_error hexpected
  · exact rejects_error hexpected

theorem rejects_stringBytes (ht : t ∈ tokens) : Rejects (PointsInto tokens) (stringBytes t) := by
  unfold stringBytes
  split
  · exact rejects_ok _
  · exact rejects_error ((bare_of _).pointsInto_atSpan ht)

theorem fails_failAt {α : Type} (ht : t ∈ tokens) (cause : Cause) :
    Fails (PointsInto tokens) (failAt t cause : Attempt Draft α) :=
  fails_throw ((bare_of cause).pointsInto_atSpan ht)

theorem fails_writeGroup {anchor : Option Token} (hanchor : ∀ t ∈ anchor, t ∈ tokens)
    (bytes : List UInt8) : Fails (PointsInto tokens) (writeGroup bytes anchor) := by
  refine fails_bind fails_get fun draft => ?_
  dsimp only
  split
  · exact fails_set _
  · next e he =>
    have hbare := rejects_storeString _ _ _ e he
    cases anchor with
    | none => exact fails_throw hbare.pointsInto
    | some t => exact fails_throw (hbare.pointsInto_atSpan (hanchor t rfl))

theorem fails_writeValues {values : List Token} {group : Option (Token × List UInt8)}
    (hvalues : values ⊆ tokens) (hgroup : ∀ last ∈ group, last.1 ∈ tokens) :
    Fails (PointsInto tokens) (writeValues values group) := by
  induction values generalizing group with
  | nil =>
    cases group with
    | none => exact fails_pure _
    | some last => exact fails_writeGroup (fun t ht => by cases ht; exact hgroup last rfl) _
  | cons t rest ih =>
    obtain ⟨ht, hrest⟩ := List.cons_subset.mp hvalues
    have hanchor : ∀ t' ∈ some t, t' ∈ tokens := by
      intro t' ht'
      cases ht'
      exact ht
    unfold writeValues
    split
    · have hnone : ∀ last ∈ (none : Option (Token × List UInt8)), last.1 ∈ tokens := by
        intro last hlast
        cases hlast
      have hstring : Fails (PointsInto tokens) (do
          let bytes ← Attempt.ofExcept (stringBytes t)
          writeGroup bytes (some t)
          writeValues rest none) :=
        fails_bind (fails_ofExcept (rejects_stringBytes ht)) fun bytes =>
          fails_bind (fails_writeGroup hanchor bytes) fun _ => ih hrest hnone
      split
      · exact fails_bind (fails_writeGroup hanchor _) fun _ => hstring
      · exact hstring
    · refine fails_bind (fails_ofExcept (rejects_value ht 255)) fun n => ih hrest ?_
      intro last hlast
      cases hlast
      exact ht

theorem fails_closeData {rest : List Token} (hrest : rest ⊆ tokens) :
    Fails (PointsInto tokens) (closeData rest) := by
  refine fails_bind (fails_modify _) fun _ => ?_
  cases rest with
  | nil =>
    refine fails_bind fails_get fun draft => ?_
    split
    · exact fails_set _
    · exact fails_pure _
  | cons t rest => exact fails_failAt (hrest List.mem_cons_self) _

/-- A check that fails at a token, in front of what else is done. -/
theorem fails_unless {β : Type} {c : Prop} [Decidable c] {cause : Cause}
    {f : Unit → Attempt Draft β} (ht : t ∈ tokens) (hf : Fails (PointsInto tokens) (f ())) :
    Fails (PointsInto tokens) (if c then failAt t cause >>= f else f ()) := by
  split
  · exact fails_bind (fails_failAt ht cause) fun _ => hf
  · exact hf

theorem fails_finishVariable {rest : List Token} (hrest : rest ⊆ tokens) :
    Fails (PointsInto tokens) (finishVariable rest) := by
  have hbehind : rest.dropWhile (!·.isWord endWord) ⊆ tokens :=
    fun t ht => hrest ((List.dropWhile_sublist _).subset ht)
  unfold finishVariable
  split
  · next after hafter =>
    rw [hafter] at hbehind
    exact fails_closeData (List.cons_subset.mp hbehind).2
  · exact fails_pure _

theorem fails_addVariable {name : Token} {rest : List Token} (hname : name ∈ tokens)
    (hrest : rest ⊆ tokens) : Fails (PointsInto tokens) (addVariable name rest) := by
  have hvalues : rest.takeWhile (!·.isWord endWord) ⊆ tokens :=
    fun t ht => hrest ((List.takeWhile_sublist _).subset ht)
  unfold addVariable
  refine fails_unless hname (fails_bind fails_get fun draft => ?_)
  refine fails_unless hname (fails_bind (fails_set _) fun _ => ?_)
  dsimp only
  split
  · refine fails_bind (fails_writeGroup (fun t ht => ?_) _) fun _ => fails_finishVariable hrest
    cases ht
  · refine fails_bind (fails_writeValues hvalues (fun last hlast => ?_)) fun _ =>
      fails_finishVariable hrest
    cases hlast

theorem fails_addData {line : List Token} (hline : line ⊆ tokens) :
    Fails (PointsInto tokens) (addData line) := by
  fun_induction addData line with
  | case1 => exact fails_pure _
  | case2 first rest => exact fails_closeData (List.cons_subset.mp hline).2
  | case3 first => exact fails_failAt (hline List.mem_cons_self) _
  | case4 first _ _ address rest ih =>
    obtain ⟨haddress, hrest⟩ := List.cons_subset.mp (List.cons_subset.mp hline).2
    refine fails_bind (fails_ofExcept (rejects_value haddress 65535)) fun base => ?_
    refine fails_bind fails_get fun draft => ?_
    exact fails_unless haddress (fails_bind (fails_set _) fun _ => ih hrest)
  | case5 first rest =>
    obtain ⟨hfirst, hrest⟩ := List.cons_subset.mp hline
    exact fails_addVariable hfirst hrest

theorem fails_addLabel (name : String) (ht : t ∈ tokens) :
    Fails (PointsInto tokens) (addLabel name t) := by
  unfold addLabel
  refine fails_unless ht (fails_bind fails_get fun draft => ?_)
  exact fails_unless ht (fails_set _)

theorem fails_addStatement {line : Nat} {operands : List Token} (ht : t ∈ tokens)
    (hoperands : operands ⊆ tokens) : Fails (PointsInto tokens) (addStatement line t operands) := by
  unfold addStatement
  have hextra : operands.getD 2 t ∈ tokens := by
    rw [List.getD_eq_getElem?_getD]
    cases hoperand : operands[2]? with
    | some extra => exact hoperands (List.mem_of_getElem? hoperand)
    | none => exact ht
  cases statementLength? (operands.length + 1) with
  | none => exact fails_failAt hextra _
  | some length =>
    refine fails_unless ht (fails_bind fails_get fun draft => ?_)
    exact fails_unless ht (fails_set _)

/-- A failure at a line points at a token of the line, if it points anywhere. -/
def PointsIntoLine (line : Line) (e : Error) : Prop :=
  e.line = some line.number ∧ ∀ span, e.span = some span → ∃ t ∈ line.tokens, t.span = span

theorem fails_addLine (line : Line) : Fails (PointsIntoLine line) (addLine line) := by
  unfold addLine
  refine fails_mapError (Q := PointsInto line.tokens) ?_ ?_
  · refine fails_bind fails_get fun draft => ?_
    split
    · exact fails_addData (List.Subset.refl _)
    · cases htokens : line.tokens with
      | nil => exact fails_pure _
      | cons first rest =>
        dsimp only
        have hfirst : first ∈ first :: rest := List.mem_cons_self
        have hrest : rest ⊆ first :: rest := List.subset_cons_self _ _
        split
        · exact fails_bind (fails_set _) fun _ => fails_addData hrest
        · split
          · exact fails_addStatement hfirst hrest
          · refine fails_bind (fails_addLabel _ hfirst) fun _ => ?_
            cases rest with
            | nil => exact fails_pure _
            | cons mnemonic operands =>
              obtain ⟨hmnemonic, hoperands⟩ := List.cons_subset.mp hrest
              exact fails_addStatement hmnemonic hoperands
  · rintro e ⟨hline, hspan⟩
    exact ⟨by simp [Error.atLine, hline], hspan⟩

/-- An error at a line whose tokens are marked is at a place of the source. -/
theorem PointsIntoLine.located {text : List Char} {line : Line} {e : Error}
    (h : PointsIntoLine line e) (hmarked : Source.MarkedLine text line) :
    Source.Located text e := by
  refine ⟨line.number, h.1, fun span hspan => ?_⟩
  obtain ⟨t, ht, rfl⟩ := h.2 span hspan
  exact hmarked t ht

theorem fails_addLines {text : List Char} {lines : List Line}
    (hmarked : ∀ line ∈ lines, Source.MarkedLine text line) :
    Fails (Source.Located text) (addLines lines) := by
  refine fails_bind (fails_forM fun line hline => ?_) fun _ => fails_bind fails_get fun draft => ?_
  · intro d e d' h
    exact (fails_addLine line d e d' h).located (hmarked line hline)
  · split
    · refine fails_throw ⟨_, rfl, fun span hspan => ?_⟩
      cases hspan
    · exact fails_pure _

/-! ## Statements and their lines -/

theorem statement_notMem_dataItems (line : List Token) (n : Nat) (mnemonic : Token)
    (operands : List Token) : .statement n mnemonic operands ∉ dataItems line := by
  fun_induction dataItems line with
  | case1 => exact List.not_mem_nil
  | case2 => simp
  | case3 => exact List.not_mem_nil
  | case4 _ _ _ address rest ih => simpa using ih
  | case5 => simp

theorem of_mem_codeItems {line : Line} {n : Nat} {mnemonic : Token} {operands : List Token}
    (h : .statement n mnemonic operands ∈ codeItems line) :
    n = line.number ∧ mnemonic :: operands ⊆ line.tokens := by
  unfold codeItems at h
  cases htokens : line.tokens with
  | nil =>
    rw [htokens] at h
    cases h
  | cons first rest =>
    rw [htokens] at h
    dsimp only at h
    split at h
    · have hdata : .statement n mnemonic operands ∈ dataItems rest := by simpa using h
      exact absurd hdata (statement_notMem_dataItems _ _ _ _)
    · split at h
      · cases List.mem_singleton.mp h
        exact ⟨rfl, List.Subset.refl _⟩
      · cases rest with
        | nil => simp at h
        | cons mnemonic' operands' =>
          have hstatement : Item.statement n mnemonic operands =
              .statement line.number mnemonic' operands' := by simpa using h
          cases hstatement
          exact ⟨rfl, List.subset_cons_self _ _⟩

/-- The tokens of a statement are tokens of the line it came from. -/
theorem exists_line_of_mem_outlineFrom {inBlock : Bool} {lines : List Line} {n : Nat}
    {mnemonic : Token} {operands : List Token}
    (h : .statement n mnemonic operands ∈ outlineFrom inBlock lines) :
    ∃ line ∈ lines, n = line.number ∧ mnemonic :: operands ⊆ line.tokens := by
  induction lines generalizing inBlock with
  | nil => cases h
  | cons line rest ih =>
    rw [outlineFrom, List.mem_append] at h
    rcases h with h | h
    · refine ⟨line, List.mem_cons_self, ?_⟩
      cases inBlock with
      | true => exact absurd h (statement_notMem_dataItems _ _ _ _)
      | false => exact of_mem_codeItems h
    · obtain ⟨line', hline', hfrom⟩ := ih h
      exact ⟨line', List.mem_cons_of_mem _ hline', hfrom⟩

theorem markedLine_of_mem_statementList {text : List Char} {layout : Layout} {lines : List Line}
    {d : Draft} (hmarked : ∀ line ∈ lines, Source.MarkedLine text line)
    (hplaced : Placed (empty layout) (outline lines) d) {s : Statement}
    (hs : s ∈ d.statementList) : Source.MarkedLine text s.tokenLine := by
  obtain ⟨behind, hbehind, hsources, -⟩ := hplaced.exists_statements
  have hmem : s ∈ behind := by
    rw [hbehind] at hs
    simpa [statementList, empty] using hs
  have hsource : s.source ∈ statementsOf (outline lines) := by
    rw [← hsources]
    exact List.mem_map_of_mem hmem
  obtain ⟨item, hitem, hstatement⟩ := List.mem_filterMap.mp hsource
  cases item with
  | statement n mnemonic operands =>
    cases hstatement
    obtain ⟨line, hline, hnumber, htokens⟩ := exists_line_of_mem_outlineFrom hitem
    intro t ht
    have := hmarked line hline t (htokens ht)
    rw [← hnumber] at this
    exact this
  | _ => cases hstatement

/-! ## The second pass -/

theorem fails_intern (text : String) : Fails Error.Bare (StringPool.intern text) := by
  refine fails_bind fails_get fun pool => ?_
  split
  · exact fails_pure _
  · split
    · exact fails_throw (bare_of _)
    · refine fails_bind (fails_ofExcept (rejects_storeString _ _ _)) fun stored => ?_
      exact fails_bind (fails_set _) fun _ => fails_pure _

theorem rejects_operandByte (text : String) (n : Nat) :
    Rejects Error.Bare (operandByte text n) := by
  unfold operandByte
  split
  · exact rejects_ok _
  · exact rejects_error (bare_of _)

theorem rejects_registerId (text : String) : Rejects Error.Bare (registerId text) := by
  unfold registerId
  split
  · exact rejects_ok _
  · split
    · exact rejects_error (bare_of _)
    · split
      · exact rejects_ok _
      · exact rejects_error (bare_of _)

theorem rejects_numberOrRegister (text : String) :
    Rejects Error.Bare (numberOrRegister text) := by
  unfold numberOrRegister
  split
  · exact rejects_ok _
  · split
    · exact rejects_ok _
    · exact rejects_error (bare_of _)

theorem rejects_wordOperand (d : Draft) (text : String) :
    Rejects Error.Bare (d.wordOperand text) := by
  unfold wordOperand
  dsimp only
  split
  · exact rejects_map (rejects_registerId _) _
  · exact rejects_map (rejects_numberOrRegister _) _
  · exact rejects_map (rejects_numberOrRegister _) _
  · exact rejects_map (rejects_numberOrRegister _) _
  · split
    · exact rejects_ok _
    · exact rejects_error (bare_of _)
  · split
    · exact rejects_ok _
    · exact rejects_error (bare_of _)
  · exact rejects_error (bare_of _)

theorem fails_encodeOperand (d : Draft) (ht : t ∈ tokens) :
    Fails (PointsInto tokens) (d.encodeOperand t) := by
  unfold encodeOperand
  refine fails_mapError (Q := Error.Bare) ?_ fun e he => he.pointsInto_atSpan ht
  split
  · refine fails_bind (fails_intern _) fun address => ?_
    exact fails_bind (fails_ofExcept (rejects_operandByte _ _)) fun _ => fails_pure _
  · refine fails_bind (fails_ofExcept (rejects_wordOperand d _)) fun operand => ?_
    exact fails_bind (fails_ofExcept (rejects_operandByte _ _)) fun _ => fails_pure _

theorem fails_encodeStatement (d : Draft) (s : Statement) :
    Fails (PointsIntoLine s.tokenLine) (d.encodeStatement s) := by
  unfold encodeStatement
  refine fails_mapError (Q := PointsInto s.tokenLine.tokens) ?_ ?_
  · have hmnemonic : s.mnemonic ∈ s.tokenLine.tokens := List.mem_cons_self
    split
    · exact fails_throw ((bare_of _).pointsInto_atSpan hmnemonic)
    · have hoperands : Fails (PointsInto s.tokenLine.tokens) (s.operands.mapM d.encodeOperand) :=
        fails_mapM fun t ht => fails_encodeOperand d (List.mem_cons_of_mem _ ht)
      split
      · exact fails_bind (fails_throw ((bare_of _).pointsInto_atSpan hmnemonic)) fun _ =>
          fails_bind hoperands fun _ => fails_pure _
      · exact fails_bind hoperands fun _ => fails_pure _
  · rintro e ⟨hline, hspan⟩
    exact ⟨by simp [Error.atLine, hline, Statement.tokenLine], hspan⟩

/-! ## Both passes -/

/-- The kinds of errors that belong to no line. -/
def wholeKinds : List ErrorKind :=
  [.entryPointNotFound, .invalidMemoryLayout, .unsupportedArchitecture]

/-- An error is at a place of the source, or it is about the whole. -/
def Diagnosed (text : List Char) (e : Error) : Prop :=
  Source.Located text e ∨ e.Bare ∧ e.kind ∈ wholeKinds

theorem rejects_whole {α : Type} {text : List Char} {cause : Cause} (h : cause.kind ∈ wholeKinds) :
    Rejects (Diagnosed text) (.error (.of cause) : Except Error α) :=
  rejects_error (.inr ⟨bare_of cause, h⟩)

theorem rejects_layout (text : List Char) (config : Config) :
    Rejects (Diagnosed text) config.layout := by
  have hwidth : ErrorKind.unsupportedArchitecture ∈ wholeKinds := by decide
  have hlayout : ErrorKind.invalidMemoryLayout ∈ wholeKinds := by decide
  refine rejects_bind ?_ fun machine => ?_
  · unfold Config.architecture
    split
    · exact rejects_ok _
    · exact rejects_whole hwidth
  · unfold Layout.ofShares
    dsimp only
    split
    · exact rejects_whole hlayout
    · split
      · exact rejects_whole hlayout
      · split
        · exact rejects_whole hlayout
        · exact rejects_ok _

theorem rejects_entry (text : List Char) (d : Draft) : Rejects (Diagnosed text) d.entry := by
  have hentry : ErrorKind.entryPointNotFound ∈ wholeKinds := by decide
  unfold entry
  split
  · exact rejects_whole hentry
  · split
    · exact rejects_whole hentry
    · exact rejects_ok _

theorem markedLine_of_read {source : String} {lines : List Line}
    (h : Source.read source = .ok lines) :
    ∀ line ∈ lines, Source.MarkedLine source.toList line := by
  have hlocates := Source.locates_read source
  rw [h] at hlocates
  exact hlocates

theorem rejects_read (source : String) (config : Config) :
    Rejects (Diagnosed source.toList) (read source config) := by
  intro e h
  unfold read at h
  cases hlayout : config.layout with
  | error e' =>
    have hattempt : attempt source config = .error e' := by
      unfold attempt
      rw [hlayout]
      rfl
    rw [hattempt] at h
    cases h
    exact rejects_layout source.toList config e hlayout
  | ok layout =>
    cases hlines : Source.read source with
    | error e' =>
      have hattempt : attempt source config = .error e' := by
        unfold attempt
        rw [hlayout, hlines]
        rfl
      have hlocates := Source.locates_read source
      rw [hlines] at hlocates
      rw [hattempt] at h
      cases h
      exact .inl hlocates
    | ok lines =>
      have hattempt : attempt source config = .ok (addLines lines (empty layout)) := by
        unfold attempt
        rw [hlayout, hlines]
        rfl
      rw [hattempt] at h
      cases hadd : addLines lines (empty layout) with
      | ok _ draft =>
        rw [hadd] at h
        cases h
      | error e' draft =>
        rw [hadd] at h
        cases h
        exact .inl (fails_addLines (markedLine_of_read hlines) _ e draft hadd)

theorem rejects_encode {source : String} {config : Config} {d : Draft}
    (h : read source config = .ok d) : Rejects (Diagnosed source.toList) d.encode := by
  obtain ⟨layout, lines, -, hlines, hplaced⟩ := placed_outline_of_read h
  refine rejects_bind (rejects_entry _ d) fun entry => ?_
  have hpass : Fails (Source.Located source.toList)
      (d.statementList.mapM d.encodeStatement) := by
    refine fails_mapM fun s hs p e p' he => ?_
    exact (fails_encodeStatement d s p e p' he).located
      (markedLine_of_mem_statementList (markedLine_of_read hlines) hplaced hs)
  split
  · next e p he => exact rejects_error (.inl (hpass _ e p he))
  · exact rejects_ok _

end Draft

theorem rejects_assemble (source : String) (config : Config) :
    Rejects (Draft.Diagnosed source.toList) (assemble source config) := by
  intro e h
  unfold assemble at h
  cases hread : Draft.read source config with
  | error e' =>
    rw [hread] at h
    cases h
    exact Draft.rejects_read source config e hread
  | ok d =>
    rw [hread] at h
    exact rejects_bind (Draft.rejects_encode hread) (fun _ => rejects_ok _) e h

/-- Where a source cannot be assembled, the error has a line unless it is about the entry point,
the memory layout or the width. An error with a span has a line, and the span lies on this line
of the source. -/
theorem diagnostics_point {source : String} {config : Config} {e : Error}
    (hsize : source.utf8ByteSize < 2 ^ 32) (h : assemble source config = .error e) :
    (e.line = none →
        e.kind ∈ [.entryPointNotFound, .invalidMemoryLayout, .unsupportedArchitecture]) ∧
      ∀ span, e.span = some span →
        ∃ line, e.line = some line ∧ Source.OnLine source span line := by
  rcases rejects_assemble source config e h with ⟨line, hline, hmarks⟩ | ⟨hbare, hkind⟩
  · refine ⟨fun hnone => ?_, fun span hspan => ?_⟩
    · rw [hline] at hnone
      cases hnone
    · exact ⟨line, hline, Source.onLine_of_marks hsize (hmarks span hspan)⟩
  · refine ⟨fun _ => hkind, fun span hspan => ?_⟩
    rw [hbare.2] at hspan
    cases hspan

/-- A program with a number that is too large, behind a comment with a character of two bytes. -/
def tooLargeBehindComment : String := "; \u00e9\n.MAIN\nmov %al $300\nhalt"

/-- The number is pointed at: the 20th byte is on the third line. -/
theorem diagnostics_point_tooLargeBehindComment :
    tooLargeBehindComment.utf8ByteSize < 2 ^ 32 ∧
      ∃ e, assemble tooLargeBehindComment {} = .error e ∧ e.line = some 3 ∧
        e.span = some ⟨19, 4⟩ ∧ Source.OnLine tooLargeBehindComment ⟨19, 4⟩ 3 := by
  have hsize : tooLargeBehindComment.utf8ByteSize < 2 ^ 32 := by decide +kernel
  obtain ⟨e, he, hline, hspan⟩ : ∃ e, assemble tooLargeBehindComment {} = .error e ∧
      e.line = some 3 ∧ e.span = some ⟨19, 4⟩ :=
    ⟨⟨.operandTooLarge "$300" 300, some 3, some ⟨19, 4⟩⟩, by decide +kernel, rfl, rfl⟩
  obtain ⟨line, hline', hon⟩ := (diagnostics_point hsize he).2 _ hspan
  cases hline.symm.trans hline'
  exact ⟨hsize, e, he, hline, hspan, hon⟩

end TeachingCpu
