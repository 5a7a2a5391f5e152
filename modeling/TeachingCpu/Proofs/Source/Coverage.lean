import TeachingCpu.Proofs.Source.Cursor

/-!
# Every character of a source

The text of a source that was scanned is made of the texts of its tokens and of gaps between them
(`Tiled`), and `Covers` says what this means for the lines, their numbers and the spans of their
tokens. A source is scanned unless it has a literal that is not closed on its line, at a place that
the scan comes to (`tokenize_covers`).
-/

namespace TeachingCpu.Source

open Cursor (Run)

/-! ## Gaps and tokens -/

/-- Text in front of a rest that holds no token: separators, newlines, and comments that run to the
end of their line. -/
inductive Gap (rest : List Char) : List Char → Prop
  | nil : Gap rest []
  | separator {c : Char} {gap : List Char} (hc : isSeparator c = true) (h : Gap rest gap) :
    Gap rest (c :: gap)
  | newline {gap : List Char} (h : Gap rest gap) : Gap rest ('\n' :: gap)
  | comment {text gap : List Char} (htext : '\n' ∉ text) (hrest : EndsLine (gap ++ rest))
    (h : Gap rest gap) : Gap rest (';' :: (text ++ gap))

/-- The text ahead of a place is made of tokens and of gaps in front of, between and behind them.
The tokens have their places in the whole text, and the numbers of their lines. -/
inductive Tiled : List Char → List Char → List (Nat × Token) → Prop
  | last {behind gap : List Char} (hgap : Gap [] gap) : Tiled behind gap []
  | token {behind gap raw ahead : List Char} {said : TokenKind × List Char}
    {tokens : List (Nat × Token)} (hgap : Gap (raw ++ ahead) gap) (hraw : Lexeme raw said)
    (h : Tiled (behind ++ gap ++ raw) ahead tokens) :
    Tiled behind (gap ++ (raw ++ ahead)) (numberedAt (behind ++ gap) raw said :: tokens)

/-- What the scan passes without a token belongs to a gap. -/
theorem gap_of_passes {passed gap rest : List Char} (h : Passes passed (gap ++ rest) none)
    (hgap : Gap rest gap) : Gap rest (passed ++ gap) := by
  cases h with
  | separator hc => exact hgap.separator hc
  | newline => exact hgap.newline
  | comment htext hrest => exact hgap.comment htext hrest

theorem tiled_of_passes_none {behind passed ahead : List Char} {tokens : List (Nat × Token)}
    (h : Passes passed ahead none) (htiled : Tiled (behind ++ passed) ahead tokens) :
    Tiled behind (passed ++ ahead) tokens := by
  cases htiled with
  | last hgap =>
    rw [← List.append_nil ahead] at h
    exact .last (gap_of_passes h hgap)
  | token hgap hraw htiled =>
    rw [← List.append_assoc]
    rw [List.append_assoc behind] at htiled ⊢
    exact .token (gap_of_passes h hgap) hraw htiled

/-- One step in front of text that is made of tokens and gaps. -/
theorem tiled_of_passes {behind passed ahead : List Char} {tokens : List (Nat × Token)}
    {said : Option (TokenKind × List Char)} (h : Passes passed ahead said)
    (htiled : Tiled (behind ++ passed) ahead tokens) :
    Tiled behind (passed ++ ahead) ((said.map (numberedAt behind passed)).toList ++ tokens) := by
  cases said with
  | none => exact tiled_of_passes_none h htiled
  | some spelled =>
    cases h with
    | token hraw =>
      have hnext : Tiled (behind ++ [] ++ passed) ahead tokens := by rwa [List.append_nil]
      have htoken := Tiled.token .nil hraw hnext
      rwa [List.append_nil] at htoken

/-- The text that a scan comes to the end of is made of tokens and gaps. -/
theorem tiled_of_run {c stop : Cursor} (h : Run c stop) (hend : stop.ahead = []) :
    ∃ tokens, stop.tokens = c.tokens ++ tokens ∧ Tiled c.behind c.ahead tokens := by
  induction h using Relation.ReflTransGen.head_induction_on with
  | refl =>
    rw [hend]
    exact ⟨[], (List.append_nil _).symm, .last .nil⟩
  | head hstep _ ih =>
    obtain ⟨tokens, htokens, htiled⟩ := ih
    cases hstep with
    | pass hpasses =>
      refine ⟨_, ?_, tiled_of_passes hpasses htiled⟩
      rw [htokens, List.append_assoc]

/-! ## Places of tokens -/

/-- A token is read from some characters of a text: its span gives their first byte and their number
of bytes, which is kept in sixteen bits, and the newlines in front of them count its line. -/
structure Stands (text front raw : List Char) (number : Nat) (t : Token) : Prop where
  isPrefix : front ++ raw <+: text
  ne_nil : raw ≠ []
  lexeme : Lexeme raw (t.kind, t.text.toList)
  offset : t.span.offset.toNat = byteLength front
  length : t.span.length.toNat = byteLength raw % 2 ^ 16
  line : number = front.count '\n' + 1

/-- The span of a token ends before the span of another one starts. -/
def EndsBefore (t u : Token) : Prop :=
  t.span.offset < u.span.offset ∧
    t.span.offset.toNat + t.span.length.toNat ≤ u.span.offset.toNat

theorem byteLength_le_of_isPrefix {front text : List Char} (h : front <+: text) :
    byteLength front ≤ byteLength text := by
  obtain ⟨back, rfl⟩ := h
  rw [byteLength_append]
  exact Nat.le_add_right _ _

theorem stands_numberedAt {text front raw : List Char} {said : TokenKind × List Char}
    (hsize : byteLength text < 2 ^ 32) (htext : front ++ raw <+: text) (h : Lexeme raw said) :
    Stands text front raw (numberedAt front raw said).1 (numberedAt front raw said).2 := by
  obtain ⟨c, cs, rfl, -⟩ := head_of_lexeme h
  refine ⟨htext, List.cons_ne_nil c cs, ?_, ?_, ?_, rfl⟩
  · change Lexeme (c :: cs) (said.1, (String.ofList said.2).toList)
    rwa [String.toList_ofList]
  · have hle := byteLength_le_of_isPrefix ((List.prefix_append front (c :: cs)).trans htext)
    change (UInt32.ofNat (byteLength front)).toNat = _
    rw [UInt32.toNat_ofNat', Nat.mod_eq_of_lt (by omega)]
  · change (UInt16.ofNat (byteLength (c :: cs))).toNat = _
    rw [UInt16.toNat_ofNat']

/-- A token that stands behind some text does not start in it. -/
theorem endsBefore_of_stands {text front raw front' raw' : List Char} {number number' : Nat}
    {t u : Token} (ht : Stands text front raw number t) (hu : Stands text front' raw' number' u)
    (hle : byteLength (front ++ raw) ≤ byteLength front') : EndsBefore t u := by
  have hpos := byteLength_pos ht.ne_nil
  have hmod : byteLength raw % 2 ^ 16 ≤ byteLength raw := Nat.mod_le _ _
  rw [byteLength_append] at hle
  refine ⟨UInt32.lt_iff_toNat_lt.mpr ?_, ?_⟩
  · rw [ht.offset, hu.offset]
    omega
  · rw [ht.offset, ht.length, hu.offset]
    omega

/-- The tokens of a text that is made of them stand in it, one behind the other. -/
theorem stands_of_tiled {text behind ahead : List Char} {tokens : List (Nat × Token)}
    (hsize : byteLength text < 2 ^ 32) (htext : text = behind ++ ahead)
    (h : Tiled behind ahead tokens) :
    (∀ p ∈ tokens, ∃ front raw, Stands text front raw p.1 p.2 ∧
      byteLength behind ≤ byteLength front) ∧
      tokens.Pairwise fun p q => EndsBefore p.2 q.2 := by
  induction h with
  | last => exact ⟨nofun, .nil⟩
  | @token behind gap raw ahead said tokens _ hraw _ ih =>
    have hnext : text = behind ++ gap ++ raw ++ ahead := by
      rw [htext]
      simp only [List.append_assoc]
    obtain ⟨hstands, hordered⟩ := ih hnext
    have hfirst := stands_numberedAt hsize ⟨ahead, hnext.symm⟩ hraw
    refine ⟨List.forall_mem_cons.mpr ⟨⟨_, _, hfirst, ?_⟩, fun p hp => ?_⟩,
      List.pairwise_cons.mpr ⟨fun p hp => ?_, hordered⟩⟩
    · rw [byteLength_append]
      exact Nat.le_add_right _ _
    · obtain ⟨front, raw', hp', hle⟩ := hstands p hp
      refine ⟨front, raw', hp', Nat.le_trans ?_ hle⟩
      rw [List.append_assoc, byteLength_append behind]
      exact Nat.le_add_right _ _
    · obtain ⟨front, raw', hp', hle⟩ := hstands p hp
      exact endsBefore_of_stands hfirst hp' hle

/-! ## Lines -/

/-- Lines that account for every character of a source. -/
structure Covers (source : String) (lines : List Line) : Prop where
  scanned : Run (.start source.toList) ⟨source.toList, [], numbered lines⟩
  tiled : Tiled [] source.toList (numbered lines)
  stands : ∀ line ∈ lines, ∀ t ∈ line.tokens,
    ∃ front raw, Stands source.toList front raw line.number t
  ordered : (lines.flatMap Line.tokens).Pairwise EndsBefore
  numbers : lines.Pairwise fun earlier later => earlier.number < later.number
  ne_nil : ∀ line ∈ lines, line.tokens ≠ []

theorem map_snd_numbered (lines : List Line) :
    (numbered lines).map Prod.snd = lines.flatMap Line.tokens := by
  simp [numbered, List.map_flatMap, Function.comp_def]

theorem covers_of_tokenize {source : String} {lines : List Line}
    (hsize : source.utf8ByteSize < 2 ^ 32) (h : tokenize source = .ok lines) :
    Covers source lines := by
  have hscanned : Run (.start source.toList) ⟨source.toList, [], numbered lines⟩ := by
    have hscans := scans_tokenize source
    rw [h] at hscans
    exact hscans
  obtain ⟨tokens, htokens, htiled⟩ := tiled_of_run hscanned rfl
  change numbered lines = [] ++ tokens at htokens
  rw [List.nil_append] at htokens
  rw [← htokens] at htiled
  have hlength : byteLength source.toList < 2 ^ 32 := by
    rw [← length_encoded, ← bytes_eq]
    exact hsize
  obtain ⟨hstands, hordered⟩ := stands_of_tiled hlength rfl htiled
  have hlines := ordered_tokenize h
  refine ⟨hscanned, htiled, fun line hline t ht => ?_, ?_, hlines.numbers, hlines.ne_nil⟩
  · have hmem : (line.number, t) ∈ numbered lines :=
      List.mem_flatMap.mpr ⟨line, hline, List.mem_map_of_mem ht⟩
    obtain ⟨front, raw, ht, -⟩ := hstands _ hmem
    exact ⟨front, raw, ht⟩
  · rw [← map_snd_numbered, List.pairwise_map]
    exact hordered

/-! ## Sources that are refused -/

/-- A source of less than 2³² bytes has lines that account for every character of it, or it is
refused. It is refused exactly if the scan comes to a literal that is not closed on its line. -/
theorem tokenize_covers (source : String) (hsize : source.utf8ByteSize < 2 ^ 32) :
    ((∃ lines, tokenize source = .ok lines ∧ Covers source lines) ∨
      ∃ e, tokenize source = .error e ∧ e.kind = .unterminatedString) ∧
      ((∃ e, tokenize source = .error e) ↔
        ∃ stuck, Run (.start source.toList) stuck ∧ Unclosed stuck.ahead) := by
  have hscans := scans_tokenize source
  cases h : tokenize source with
  | ok lines =>
    rw [h] at hscans
    refine ⟨.inl ⟨lines, rfl, covers_of_tokenize hsize h⟩, nofun, fun ⟨stuck, hrun, hopen⟩ => ?_⟩
    exact absurd hopen (Cursor.not_unclosed_of_run hscans rfl hrun)
  | error e =>
    rw [h] at hscans
    obtain ⟨stuck, hrun, hopen, raw, back, -, -, -, -, rfl⟩ := hscans
    exact ⟨.inr ⟨_, rfl, rfl⟩, fun _ => ⟨stuck, hrun, hopen⟩, fun _ => ⟨_, rfl⟩⟩

/-- A source with quotes in a word, in a literal and in a comment, and a character of two bytes. -/
def strayQuotes : String := "it's \"a;\\\"b\",'\\''\n; \"\n\té"

/-- The lines of `strayQuotes`. -/
def strayQuotesLines : List Line :=
  [⟨1, [⟨.word, "it's", ⟨0, 4⟩⟩, ⟨.str, "a;\"b", ⟨5, 7⟩⟩, ⟨.char, "'", ⟨13, 4⟩⟩]⟩,
    ⟨3, [⟨.word, "é", ⟨23, 2⟩⟩]⟩]

theorem tokenize_covers_strayQuotes :
    strayQuotes.utf8ByteSize < 2 ^ 32 ∧ tokenize strayQuotes = .ok strayQuotesLines ∧
      Covers strayQuotes strayQuotesLines := by
  have hsize : strayQuotes.utf8ByteSize < 2 ^ 32 := by decide +kernel
  have htokenize : tokenize strayQuotes = .ok strayQuotesLines := by decide +kernel
  rcases (tokenize_covers strayQuotes hsize).1 with ⟨lines, hlines, hcovers⟩ | ⟨e, he, -⟩
  · cases htokenize.symm.trans hlines
    exact ⟨hsize, htokenize, hcovers⟩
  · cases htokenize.symm.trans he

end TeachingCpu.Source
