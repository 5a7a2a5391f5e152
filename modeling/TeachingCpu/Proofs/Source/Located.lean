import TeachingCpu.Proofs.Source.Cursor

/-!
# Tokens and errors in their places

The tokens of a source are marked on their lines, and what cannot be read is pointed at
(`locates_read`).
-/

namespace TeachingCpu.Source

/-- An error has a line, and if it has a span, this marks characters on the line. -/
def Located (text : List Char) (e : Error) : Prop :=
  ∃ line, e.line = some line ∧ ∀ span, e.span = some span → Marks text line span

/-- The tokens of a line are marked on it. -/
def MarkedLine (text : List Char) (line : Line) : Prop :=
  ∀ t ∈ line.tokens, Marks text line.number t.span

/-- Lines whose tokens are marked on them, or an error that points at its place. -/
def Locates (text : List Char) : Except Error (List Line) → Prop
  | .ok lines => ∀ line ∈ lines, MarkedLine text line
  | .error e => Located text e

theorem markedLine_of_tokenize {source : String} {lines : List Line}
    (h : tokenize source = .ok lines) : ∀ line ∈ lines, MarkedLine source.toList line := by
  intro line hline t ht
  obtain ⟨front, raw, said, back, htext, hraw, hnumber, rfl⟩ := exists_of_tokenize h hline ht
  obtain ⟨c, cs, rfl, -⟩ := head_of_lexeme hraw
  refine ⟨front, c :: cs, back, ?_, List.cons_ne_nil c cs, newline_notMem_lexeme hraw,
    hnumber.symm, rfl⟩
  rw [htext, List.append_assoc]

/-- The tokens of a source are marked on their lines, and a literal that is not closed is pointed
at. -/
theorem locates_tokenize (source : String) : Locates source.toList (tokenize source) := by
  have hscans := scans_tokenize source
  cases h : tokenize source with
  | ok lines => exact markedLine_of_tokenize h
  | error e =>
    rw [h] at hscans
    obtain ⟨stuck, hrun, -, raw, back, hahead, hne, hline, -, rfl⟩ := hscans
    obtain ⟨behind, ahead, tokens⟩ := stuck
    have htext : behind ++ ahead = source.toList := Cursor.text_of_run hrun
    change ahead = raw ++ back at hahead
    refine ⟨behind.count '\n' + 1, rfl, fun span hspan => ?_⟩
    cases hspan
    refine ⟨behind, raw, back, ?_, hne, hline, rfl, rfl⟩
    rw [← htext, hahead, List.append_assoc]

/-! ## Canonical form -/

theorem rejects_integer (cs : List Char) : Rejects Error.Bare (integer cs) := by
  unfold integer
  split
  · exact rejects_ok _
  · exact rejects_error (bare_of _)

theorem rejects_canonicalWord (word : String) : Rejects Error.Bare (canonicalWord word) := by
  unfold canonicalWord
  dsimp only
  split
  · exact rejects_map (rejects_integer _) _
  · split
    · exact rejects_map (rejects_integer _) _
    · split
      · exact rejects_ok _
      · split
        · split
          · exact rejects_map (rejects_integer _) _
          · exact rejects_ok _
        · split
          · exact rejects_ok _
          · exact rejects_ok _

theorem rejects_canonicalToken (t : Token) : Rejects Error.Bare (canonicalToken t) := by
  unfold canonicalToken
  split
  · exact rejects_ok _
  · split
    · exact rejects_ok _
    · exact rejects_error (bare_of _)
  · exact rejects_map (rejects_canonicalWord _) _

theorem span_of_canonicalToken {t t' : Token} (h : canonicalToken t = .ok t') :
    t'.span = t.span := by
  unfold canonicalToken at h
  split at h
  · cases h
    rfl
  · split at h
    · cases h
      rfl
    · cases h
  · cases hword : canonicalWord t.text with
    | ok text =>
      rw [hword] at h
      cases h
      rfl
    | error e =>
      rw [hword] at h
      cases h

/-- A token that has no canonical form is pointed at. -/
theorem rejects_canonicalLine {text : List Char} {line : Line} (h : MarkedLine text line) :
    Rejects (Located text) (canonicalLine line) := by
  unfold canonicalLine
  refine rejects_bind (rejects_mapM fun t ht => ?_) fun tokens => rejects_ok _
  refine rejects_mapError (rejects_canonicalToken t) fun e he => ?_
  refine ⟨line.number, ?_, fun span hspan => ?_⟩
  · simp [Error.atSpan, Error.atLine, he.1]
  · have hsame : t.span = span := by simpa [Error.atSpan, Error.atLine, he.2] using hspan
    rw [← hsame]
    exact h t ht

/-- The canonical form of a line keeps the places of its tokens. -/
theorem markedLine_of_canonicalLine {text : List Char} {line line' : Line}
    (h : MarkedLine text line) (hcanonical : canonicalLine line = .ok line') :
    MarkedLine text line' := by
  obtain ⟨tokens, htokens, hline⟩ := Except.bind_eq_ok_iff.mp hcanonical
  cases hline
  intro t' ht'
  obtain ⟨t, ht, hsame⟩ := (Except.forall₂_of_mapM htokens).exists_left ht'
  have hspan : t'.span = t.span := by
    cases hcase : canonicalToken t with
    | ok t'' =>
      rw [hcase] at hsame
      cases hsame
      exact span_of_canonicalToken hcase
    | error e =>
      rw [hcase] at hsame
      cases hsame
  rw [hspan]
  exact h t ht

/-- The lines of a source have their tokens marked, and a source that cannot be read is pointed
at where it cannot. -/
theorem locates_read (source : String) : Locates source.toList (read source) := by
  have htokenize := locates_tokenize source
  unfold read
  cases hlines : tokenize source with
  | error e =>
    rw [hlines] at htokenize
    exact htokenize
  | ok lines =>
    rw [hlines] at htokenize
    change Locates source.toList (lines.mapM canonicalLine)
    cases hread : lines.mapM canonicalLine with
    | error e =>
      exact rejects_mapM (fun line hline => rejects_canonicalLine (htokenize line hline)) e hread
    | ok lines' =>
      intro line' hline'
      obtain ⟨line, hline, hcanonical⟩ := (Except.forall₂_of_mapM hread).exists_left hline'
      exact markedLine_of_canonicalLine (htokenize line hline) hcanonical

end TeachingCpu.Source
