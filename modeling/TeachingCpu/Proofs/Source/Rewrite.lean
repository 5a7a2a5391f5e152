import TeachingCpu.Proofs.Source.Canonical
import TeachingCpu.Proofs.Source.Cursor

/-!
# Lines that are written again

A token of a source that was read can be written as it is (`written_of_read`): its word scans as a
word and is in canonical form. Lines of tokens that can be written are the lines of some source
(`exists_read`).
-/

namespace TeachingCpu.Source

/-- What lines say, line by line. -/
def contents (lines : List Line) : List (List (TokenKind × String)) :=
  lines.map (·.tokens.map Token.content)

/-- A token that can be written as it is. -/
def Written (t : Token) : Prop := ∃ p : Piece, p.Canonical ∧ t.content = p.content

/-- A line of tokens that can be written as they are, and that has some. -/
structure WrittenLine (line : Line) : Prop where
  ne_nil : line.tokens ≠ []
  written : ∀ t ∈ line.tokens, Written t

/-! ## Words that were scanned -/

/-- A token as it is scanned: a word scans as a word again. -/
def Scanned (t : Token) : Prop := t.kind = .word → IsWord t.text.toList

theorem scanned_of_tokenize {source : String} {lines : List Line}
    (h : tokenize source = .ok lines) {line : Line} (hline : line ∈ lines) :
    ∀ t ∈ line.tokens, Scanned t := by
  intro t ht hkind
  obtain ⟨front, raw, said, back, -, hraw, -, rfl⟩ := exists_of_tokenize h hline ht
  cases hraw with
  | word hword =>
    change IsWord (String.ofList raw).toList
    rwa [String.toList_ofList]
  | literal => exact absurd hkind (literalKind_ne_word _)

/-! ## Tokens that were read -/

theorem written_of_canonicalToken {t t' : Token} (hscanned : Scanned t)
    (h : canonicalToken t = .ok t') : Written t' := by
  obtain ⟨kind, text, span⟩ := t
  cases kind with
  | str =>
    cases h
    exact ⟨.literal text, trivial, rfl⟩
  | char =>
    unfold canonicalToken at h
    dsimp only at h
    split at h
    · next b _ =>
      cases h
      exact ⟨.word (sigiled '$' b.toNat), canonicalWord_sigiled rfl b.toNat, rfl⟩
    · cases h
  | word =>
    change (canonicalWord text).map _ = _ at h
    cases hword : canonicalWord text with
    | error e =>
      rw [hword] at h
      cases h
    | ok text' =>
      rw [hword] at h
      cases h
      rcases canonicalWord_cases hword with rfl | ⟨sigil, n, hsigil, rfl⟩
      · exact ⟨.word text', ⟨hscanned rfl, hword⟩, rfl⟩
      · exact ⟨.word (sigiled sigil n), canonicalWord_sigiled hsigil n, rfl⟩

/-- What was read can be written as it is. -/
theorem written_of_read {source : String} {lines : List Line} (h : read source = .ok lines) :
    ∀ line ∈ lines, WrittenLine line := by
  obtain ⟨raw, hraw, hlines⟩ := exists_tokenize_of_read h
  intro line' hline'
  obtain ⟨line, hline, -, htokens⟩ := hlines.exists_left hline'
  refine ⟨fun hnil => (ordered_tokenize hraw).ne_nil line hline ?_, fun t' ht' => ?_⟩
  · rw [hnil] at htokens
    exact List.forall₂_nil_right_iff.mp htokens
  · obtain ⟨t, ht, hcanonical⟩ := htokens.exists_left ht'
    exact written_of_canonicalToken (scanned_of_tokenize hraw hline t ht) hcanonical

/-! ## Lines that are written -/

theorem exists_reads {line : Line} (h : ∀ t ∈ line.tokens, Written t) :
    ∃ ps, Reads line ps ∧ ∀ p ∈ ps, p.Canonical := by
  obtain ⟨number, tokens⟩ := line
  induction tokens with
  | nil => exact ⟨[], rfl, nofun⟩
  | cons t rest ih =>
    obtain ⟨⟨p, hp, ht⟩, hrest⟩ := List.forall_mem_cons.mp h
    obtain ⟨ps, hreads, hps⟩ := ih hrest
    exact ⟨p :: ps, congrArg₂ List.cons ht hreads, List.forall_mem_cons.mpr ⟨hp, hps⟩⟩

/-- A line of tokens that can be written is the line of some text. -/
theorem exists_spells {line : Line} (h : WrittenLine line) :
    ∃ text ps, Spells text ps ∧ Reads line ps ∧ ps ≠ [] ∧ ∀ p ∈ ps, p.Canonical := by
  obtain ⟨ps, hreads, hps⟩ := exists_reads h.written
  cases ps with
  | nil => exact absurd (List.map_eq_nil_iff.mp hreads) h.ne_nil
  | cons p ps => exact ⟨_, _, spells_intercalate hps, hreads, List.cons_ne_nil p ps, hps⟩

theorem exists_texts {lines : List Line} (h : ∀ line ∈ lines, WrittenLine line) :
    ∃ texts pieces, List.Forall₂ Spells texts pieces ∧ List.Forall₂ Reads lines pieces ∧
      ∀ ps ∈ pieces, ps ≠ [] ∧ ∀ p ∈ ps, p.Canonical := by
  induction lines with
  | nil => exact ⟨[], [], .nil, .nil, nofun⟩
  | cons line rest ih =>
    obtain ⟨hline, hrest⟩ := List.forall_mem_cons.mp h
    obtain ⟨text, ps, hspells, hreads, hps⟩ := exists_spells hline
    obtain ⟨texts, pieces, hspells', hreads', hpieces⟩ := ih hrest
    exact ⟨text :: texts, ps :: pieces, .cons hspells hspells', .cons hreads hreads',
      List.forall_mem_cons.mpr ⟨hps, hpieces⟩⟩

theorem contents_of_reads {lines : List Line} {pieces : List (List Piece)}
    (h : List.Forall₂ Reads lines pieces) : contents lines = pieces.map (·.map Piece.content) := by
  induction h with
  | nil => rfl
  | cons hline _ ih => exact congrArg₂ List.cons hline ih

/-- Lines of tokens that can be written are what some source says. -/
theorem exists_read {lines : List Line} (h : ∀ line ∈ lines, WrittenLine line) :
    ∃ source lines', read source = .ok lines' ∧ contents lines' = contents lines := by
  obtain ⟨texts, pieces, hspells, hreads, hpieces⟩ := exists_texts h
  obtain ⟨lines', hread, hreads'⟩ := read_of_spells hspells fun ps hps => (hpieces ps hps).2
  have hsome : pieces.filter (!List.isEmpty ·) = pieces := by
    rw [List.filter_eq_self]
    intro ps hps
    rw [Bool.not_eq_true', List.isEmpty_eq_false_iff]
    exact (hpieces ps hps).1
  rw [hsome] at hreads'
  exact ⟨_, lines', hread, by rw [contents_of_reads hreads', contents_of_reads hreads]⟩

end TeachingCpu.Source
