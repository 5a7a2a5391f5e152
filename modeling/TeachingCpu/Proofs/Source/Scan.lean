import TeachingCpu.Listing.Source
import TeachingCpu.Proofs.Text.Latin1
import TeachingCpu.Proofs.Text.Split
import TeachingCpu.Source.Literal

/-!
# Scanning text that was written

A line that is written as words and string literals with spaces between them scans back to these
words and literals, and a text of such lines reads back line by line (`read_of_spells`).
-/

namespace TeachingCpu

/-- What a token says, without its place. -/
def Token.content (t : Token) : TokenKind × String := (t.kind, t.text)

namespace Source

open Text (charOfByte)

/-! ## Literals -/

/-- The characters that stand around literals. -/
def IsQuote (c : Char) : Prop := c = stringQuote ∨ c = charQuote

/-- The characters between the quotes of a literal, and the text that they stand for. A quote or a
backslash stands there behind a backslash only. -/
inductive Quoted (quote : Char) : List Char → List Char → Prop
  | nil : Quoted quote [] []
  | escape (c : Char) {body text : List Char} (h : Quoted quote body text) :
    Quoted quote ('\\' :: c :: body) (escaped c ++ text)
  | plain {c : Char} {body text : List Char} (hquote : c ≠ quote) (hbackslash : c ≠ '\\')
    (h : Quoted quote body text) : Quoted quote (c :: body) (c :: text)

theorem ne_backslash_of_isQuote {c : Char} (h : IsQuote c) : c ≠ '\\' := by
  rcases h with rfl | rfl <;> decide

/-- The quote behind the characters of a literal closes it. -/
theorem splitAtQuote_quoted {quote : Char} (hquote : quote ≠ '\\') {body text : List Char}
    (h : Quoted quote body text) (rest done : List Char) :
    splitAtQuote quote (body ++ quote :: rest) done = some (done.reverse ++ body, rest) := by
  induction h generalizing done with
  | nil =>
    rw [List.nil_append, splitAtQuote, if_pos rfl, List.append_nil]
    intro c cs hc
    exact absurd hc hquote
  | escape c _ ih =>
    rw [List.cons_append, List.cons_append, splitAtQuote, ih]
    simp
  | plain hplain hbackslash _ ih =>
    rw [List.cons_append, splitAtQuote, if_neg hplain, ih]
    · simp
    · intro c cs hc
      exact absurd hc hbackslash

/-- The escapes of a literal are replaced by what they stand for. -/
theorem unescape_quoted {quote : Char} {body text : List Char} (h : Quoted quote body text) :
    unescape body = text := by
  have hresolve : ∀ done, resolveEscapes body done = done.reverse ++ text := by
    induction h with
    | nil => simp [resolveEscapes]
    | escape c _ ih =>
      intro done
      rw [resolveEscapes, ih]
      simp
    | plain _ hbackslash _ ih =>
      intro done
      rw [resolveEscapes, ih]
      · simp
      · intro c cs hc
        exact absurd hc hbackslash
  exact hresolve []

/-! ## Quoted text -/

/-- The characters that write a character inside a string literal. -/
def quotedChar (c : Char) : List Char :=
  if c = '"' then ['\\', '"']
  else if c = '\\' then ['\\', '\\']
  else if c = '\n' then ['\\', 'n']
  else if c = '\t' then ['\\', 't']
  else if c = '\r' then ['\\', 'r']
  else [c]

/-- The string literal for a text. -/
def quotedText (text : String) : String :=
  String.ofList ('"' :: (text.toList.flatMap quotedChar ++ ['"']))

theorem quotedByte_eq (b : UInt8) : Listing.quotedByte b = quotedChar (charOfByte b) := by
  have hchar : ∀ n : UInt8, b = n ↔ charOfByte b = charOfByte n := fun n => by
    rw [← Char.toNat_inj, Text.toNat_charOfByte, Text.toNat_charOfByte, UInt8.toNat_inj]
  have hquote : b = 0x22 ↔ charOfByte b = '"' := hchar 0x22
  have hbackslash : b = 0x5c ↔ charOfByte b = '\\' := hchar 0x5c
  have hline : b = 0x0a ↔ charOfByte b = '\n' := hchar 0x0a
  have htab : b = 0x09 ↔ charOfByte b = '\t' := hchar 0x09
  have hreturn : b = 0x0d ↔ charOfByte b = '\r' := hchar 0x0d
  unfold Listing.quotedByte quotedChar
  simp only [hquote, hbackslash, hline, htab, hreturn]

/-- The literal of a listing is that of the text of its bytes. -/
theorem quoted_eq (bytes : List UInt8) :
    Listing.quoted bytes = quotedText (Text.ofBytes bytes) := by
  rw [Listing.quoted, quotedText, Text.ofBytes, String.toList_ofList, List.flatMap_map,
    funext quotedByte_eq]

/-- A character is quoted by an escape, or it stands for itself. -/
theorem quotedChar_cases (c : Char) :
    (∃ e, quotedChar c = ['\\', e] ∧ escaped e = [c] ∧ e ≠ '\n') ∨
      (quotedChar c = [c] ∧ c ≠ '"' ∧ c ≠ '\\' ∧ c ≠ '\n') := by
  unfold quotedChar
  by_cases hquote : c = '"'
  · subst hquote
    exact .inl ⟨'"', rfl, rfl, by decide⟩
  · by_cases hbackslash : c = '\\'
    · subst hbackslash
      exact .inl ⟨'\\', rfl, rfl, by decide⟩
    · by_cases hline : c = '\n'
      · subst hline
        exact .inl ⟨'n', rfl, rfl, by decide⟩
      · by_cases htab : c = '\t'
        · subst htab
          exact .inl ⟨'t', rfl, rfl, by decide⟩
        · by_cases hreturn : c = '\r'
          · subst hreturn
            exact .inl ⟨'r', rfl, rfl, by decide⟩
          · rw [if_neg hquote, if_neg hbackslash, if_neg hline, if_neg htab, if_neg hreturn]
            exact .inr ⟨rfl, hquote, hbackslash, hline⟩

/-- Quoted characters stand for themselves. -/
theorem quoted_flatMap (cs : List Char) : Quoted stringQuote (cs.flatMap quotedChar) cs := by
  induction cs with
  | nil => exact .nil
  | cons c cs ih =>
    rw [List.flatMap_cons]
    rcases quotedChar_cases c with ⟨e, hc, he, -⟩ | ⟨hc, hquote, hbackslash, -⟩
    · rw [hc, ← List.singleton_append (l := cs), ← he]
      exact ih.escape e
    · rw [hc]
      exact ih.plain hquote hbackslash

theorem newline_notMem_flatMap (cs : List Char) : '\n' ∉ cs.flatMap quotedChar := by
  intro h
  obtain ⟨c, -, hc⟩ := List.mem_flatMap.mp h
  rcases quotedChar_cases c with ⟨e, hquoted, -, he⟩ | ⟨hquoted, -, -, hne⟩
  · rw [hquoted] at hc
    simp [he.symm] at hc
  · rw [hquoted, List.mem_singleton] at hc
    exact hne hc.symm

/-! ## Words and literals -/

/-- A text that scans as one word. -/
structure IsWord (cs : List Char) : Prop where
  ne_nil : cs ≠ []
  plain : ∀ c ∈ cs, endsWord c = false
  unquoted : cs.head? ≠ some charQuote

-- By `List.all`: characters are a finite type, and a bounded quantifier would run over them all.
instance (cs : List Char) : Decidable (IsWord cs) :=
  decidable_of_iff (cs ≠ [] ∧ cs.all (!endsWord ·) ∧ cs.head? ≠ some charQuote)
    ⟨fun h => ⟨h.1, by simpa using h.2.1, h.2.2⟩,
      fun h => ⟨h.ne_nil, by simpa using h.plain, h.unquoted⟩⟩

/-- A text in front of which a word ends. -/
def EndsWord (rest : List Char) : Prop := ∀ c ∈ rest.head?, endsWord c = true

instance (rest : List Char) : Decidable (EndsWord rest) :=
  decidable_of_iff (rest.head?.all endsWord) (Option.all_eq_true _ _)

theorem ne_newline_of_endsWord {c : Char} (h : endsWord c = false) : c ≠ '\n' := by
  intro heq
  subst heq
  cases h

theorem scanLine_space (offset : Nat) (rest : List Char) (done : List Token) :
    scanLine offset (' ' :: rest) done = scanLine (offset + 1) rest done := by
  rw [scanLine]
  exact if_pos rfl

theorem scanLine_nil (offset : Nat) (done : List Token) :
    scanLine offset [] done = .ok done.reverse := by
  rw [scanLine]

theorem scanLine_comment (offset : Nat) (rest : List Char) (done : List Token) :
    scanLine offset (';' :: rest) done = .ok done.reverse := by
  rw [scanLine, if_neg (by decide), if_pos rfl]

/-- The character that a word starts with is neither a separator, nor a semicolon, nor a quote. -/
theorem head_of_isWord {c : Char} {cs : List Char} (h : IsWord (c :: cs)) :
    isSeparator c = false ∧ c ≠ '\n' ∧ c ≠ ';' ∧ ¬ IsQuote c := by
  have hc := h.plain c List.mem_cons_self
  simp only [endsWord, Bool.or_eq_false_iff, beq_eq_false_iff_ne] at hc
  obtain ⟨⟨⟨hseparator, hnewline⟩, hcomment⟩, hstring⟩ := hc
  exact ⟨hseparator, hnewline, hcomment,
    not_or.mpr ⟨hstring, fun hc => h.unquoted (congrArg some hc)⟩⟩

theorem scanLine_word {word : List Char} (h : IsWord word) {rest : List Char}
    (hrest : EndsWord rest) (offset : Nat) (done : List Token) :
    scanLine offset (word ++ rest) done =
      scanLine (offset + byteLength word) rest
        (⟨.word, String.ofList word, .of offset (byteLength word)⟩ :: done) := by
  cases word with
  | nil => exact absurd rfl h.ne_nil
  | cons c cs =>
    obtain ⟨hseparator, -, hcomment, hquote⟩ := head_of_isWord h
    have hcs : ∀ c ∈ cs, (!endsWord c) = true := fun c hc => by
      rw [h.plain c (List.mem_cons_of_mem _ hc)]
      rfl
    have hends : ∀ c ∈ rest.head?, (!endsWord c) = false := fun c hc => by
      rw [hrest c hc]
      rfl
    obtain ⟨htake, hdrop⟩ := List.takeWhile_dropWhile_append hcs hends
    unfold IsQuote at hquote
    rw [List.cons_append, scanLine, if_neg (by simp [hseparator]), if_neg hcomment,
      if_neg hquote, htake, hdrop]

/-- The kind of a literal between two quotes. -/
def literalKind (quote : Char) : TokenKind := if quote = stringQuote then .str else .char

theorem scanLine_literal {quote : Char} (hquote : IsQuote quote) {body text : List Char}
    (h : Quoted quote body text) (rest : List Char) (offset : Nat) (done : List Token) :
    scanLine offset (quote :: (body ++ quote :: rest)) done =
      scanLine (offset + (byteLength body + 2)) rest
        (⟨literalKind quote, String.ofList text, .of offset (byteLength body + 2)⟩ :: done) := by
  have hsplit := splitAtQuote_quoted (ne_backslash_of_isQuote hquote) h rest []
  have hseparator : ¬ isSeparator quote = true := by
    rcases hquote with rfl | rfl <;> decide
  have hcomment : quote ≠ ';' := by
    rcases hquote with rfl | rfl <;> decide
  unfold IsQuote at hquote
  rw [scanLine, if_neg hseparator, if_neg hcomment, if_pos hquote]
  split
  · next hnone =>
    rw [hnone] at hsplit
    cases hsplit
  · next body' after hsome =>
    rw [hsome, List.reverse_nil, List.nil_append, Option.some.injEq, Prod.mk.injEq] at hsplit
    obtain ⟨rfl, rfl⟩ := hsplit
    rw [unescape_quoted h]
    rfl

theorem scanLine_quotedText (text : String) (rest : List Char) (offset : Nat)
    (done : List Token) :
    ∃ offset' span, scanLine offset ((quotedText text).toList ++ rest) done =
      scanLine offset' rest (⟨.str, text, span⟩ :: done) := by
  have htext : (quotedText text).toList ++ rest =
      stringQuote :: (text.toList.flatMap quotedChar ++ stringQuote :: rest) := by
    rw [quotedText, String.toList_ofList, List.cons_append, List.append_assoc]
    rfl
  rw [htext, scanLine_literal (.inl rfl) (quoted_flatMap text.toList), String.ofList_toList]
  exact ⟨_, _, rfl⟩

/-! ## Lines -/

/-- A word or a string literal of a line. -/
inductive Piece where
  | word (text : String)
  | literal (text : String)

namespace Piece

/-- A piece as it is written. -/
def text : Piece → String
  | word text => text
  | literal text => quotedText text

/-- What the token of a piece says. -/
def content : Piece → TokenKind × String
  | word text => (.word, text)
  | literal text => (.str, text)

/-- A piece that is read as it is written: a word is in canonical form. -/
def Canonical : Piece → Prop
  | word text => IsWord text.toList ∧ canonicalWord text = .ok text
  | literal _ => True

end Piece

/-- What may follow a word or a literal on a line that is written. -/
def Separated (rest : List Char) : Prop := ∀ c ∈ rest.head?, c = ' '

theorem scanLine_piece {piece : Piece} (h : piece.Canonical) {rest : List Char}
    (hrest : Separated rest) (offset : Nat) (done : List Token) :
    ∃ offset' t, scanLine offset (piece.text.toList ++ rest) done =
      scanLine offset' rest (t :: done) ∧ t.content = piece.content := by
  cases piece with
  | word text =>
    have hends : EndsWord rest := fun c hc => by rw [hrest c hc]; rfl
    refine ⟨_, _, scanLine_word h.1 hends offset done, ?_⟩
    rw [Token.content, String.ofList_toList]
    rfl
  | literal text =>
    obtain ⟨offset', span, hscan⟩ := scanLine_quotedText text rest offset done
    exact ⟨offset', _, hscan, rfl⟩

/-- Pieces that each follow a space. -/
def spaced (pieces : List Piece) : List Char := pieces.flatMap fun p => ' ' :: p.text.toList

theorem separated_spaced (pieces : List Piece) : Separated (spaced pieces) := by
  cases pieces with
  | nil => simp [Separated, spaced]
  | cons piece rest => simp [Separated, spaced]

theorem scanLine_spaced {pieces : List Piece} (h : ∀ p ∈ pieces, p.Canonical) (offset : Nat)
    (done : List Token) :
    ∃ tokens, scanLine offset (spaced pieces) done = .ok (done.reverse ++ tokens) ∧
      tokens.map Token.content = pieces.map Piece.content := by
  induction pieces generalizing offset done with
  | nil => exact ⟨[], by rw [spaced, List.flatMap_nil, scanLine_nil, List.append_nil], rfl⟩
  | cons piece rest ih =>
    obtain ⟨hpiece, hrest⟩ := List.forall_mem_cons.mp h
    obtain ⟨offset', t, hscan, ht⟩ :=
      scanLine_piece hpiece (separated_spaced rest) (offset + 1) done
    obtain ⟨tokens, htokens, hcontent⟩ := ih hrest offset' (t :: done)
    refine ⟨t :: tokens, ?_, ?_⟩
    · change scanLine offset (' ' :: (piece.text.toList ++ spaced rest)) done = _
      rw [scanLine_space, hscan, htokens, List.reverse_cons, List.append_assoc]
      rfl
    · rw [List.map_cons, List.map_cons, ht, hcontent]

/-- A line that is written as pieces scans back to them. -/
def Spells (text : String) (pieces : List Piece) : Prop :=
  '\n' ∉ text.toList ∧ ∀ offset, ∃ tokens, scanLine offset text.toList [] = .ok tokens ∧
    tokens.map Token.content = pieces.map Piece.content

theorem spells_nil : Spells "" [] :=
  ⟨by simp, fun offset => ⟨[], by rw [String.toList_empty, scanLine_nil]; rfl, rfl⟩⟩

theorem spells_comment {text : String} (h : '\n' ∉ text.toList) : Spells ("; " ++ text) [] := by
  have htext : ("; " ++ text).toList = ';' :: ' ' :: text.toList := by
    rw [String.toList_append]
    rfl
  refine ⟨?_, fun offset => ⟨[], ?_, rfl⟩⟩
  · rw [htext]
    simpa using h
  · rw [htext, scanLine_comment]
    rfl

theorem newline_notMem_text {piece : Piece} (h : piece.Canonical) : '\n' ∉ piece.text.toList := by
  cases piece with
  | word text =>
    intro hmem
    exact ne_newline_of_endsWord (h.1.plain _ hmem) rfl
  | literal text =>
    have hbody := newline_notMem_flatMap text.toList
    rw [Piece.text, quotedText, String.toList_ofList]
    simp [hbody]

theorem newline_notMem_spaced {pieces : List Piece} (h : ∀ p ∈ pieces, p.Canonical) :
    '\n' ∉ spaced pieces := by
  intro hmem
  obtain ⟨piece, hpiece, hin⟩ := List.mem_flatMap.mp hmem
  rcases List.mem_cons.mp hin with hspace | htext
  · exact absurd hspace (by decide)
  · exact newline_notMem_text (h piece hpiece) htext

/-- The text of a line with spaces between its pieces. -/
theorem toList_intercalate_text (piece : Piece) (rest : List Piece) :
    (String.intercalate " " ((piece :: rest).map Piece.text)).toList =
      piece.text.toList ++ spaced rest := by
  rw [String.toList_intercalate]
  induction rest generalizing piece with
  | nil => simp [spaced]
  | cons next rest ih =>
    have hnext := ih next
    simp only [List.map_cons] at hnext ⊢
    rw [List.intercalate_cons_cons, hnext]
    simp [spaced]

theorem spells_intercalate {piece : Piece} {rest : List Piece}
    (h : ∀ p ∈ piece :: rest, p.Canonical) :
    Spells (String.intercalate " " ((piece :: rest).map Piece.text)) (piece :: rest) := by
  obtain ⟨hpiece, hrest⟩ := List.forall_mem_cons.mp h
  refine ⟨?_, fun offset => ?_⟩
  · rw [toList_intercalate_text, List.mem_append, not_or]
    exact ⟨newline_notMem_text hpiece, newline_notMem_spaced hrest⟩
  · obtain ⟨offset', t, hscan, ht⟩ := scanLine_piece hpiece (separated_spaced rest) offset []
    obtain ⟨tokens, htokens, hcontent⟩ := scanLine_spaced hrest offset' [t]
    refine ⟨t :: tokens, ?_, ?_⟩
    · rw [toList_intercalate_text, hscan, htokens]
      rfl
    · rw [List.map_cons, List.map_cons, ht, hcontent]

/-- Spaces at the start of a line do not matter. -/
theorem Spells.indent {text : String} {pieces : List Piece} (h : Spells text pieces) :
    Spells ("    " ++ text) pieces := by
  have htext : ("    " ++ text).toList = ' ' :: ' ' :: ' ' :: ' ' :: text.toList := by
    rw [String.toList_append]
    rfl
  refine ⟨?_, fun offset => ?_⟩
  · rw [htext]
    simpa using h.1
  · rw [htext, scanLine_space, scanLine_space, scanLine_space, scanLine_space]
    exact h.2 _

/-! ## Texts of lines -/

/-- A line with the tokens of some pieces. -/
def Reads (line : Line) (pieces : List Piece) : Prop :=
  line.tokens.map Token.content = pieces.map Piece.content

theorem canonicalToken_of_content {t : Token} {piece : Piece} (h : piece.Canonical)
    (ht : t.content = piece.content) : canonicalToken t = .ok t := by
  obtain ⟨kind, text, span⟩ := t
  cases piece with
  | word word =>
    cases ht
    rw [canonicalToken]
    simp only [h.2]
    rfl
  | literal text =>
    cases ht
    rfl

theorem canonicalLine_of_reads {line : Line} {pieces : List Piece}
    (h : ∀ p ∈ pieces, p.Canonical) (hline : Reads line pieces) :
    canonicalLine line = .ok line := by
  have htokens : ∀ {tokens : List Token} {pieces : List Piece}, (∀ p ∈ pieces, p.Canonical) →
      tokens.map Token.content = pieces.map Piece.content →
      tokens.mapM (fun t => (canonicalToken t).mapError fun e =>
        (e.atLine line.number).atSpan t.span) = .ok tokens := by
    intro tokens pieces hpieces hcontent
    induction tokens generalizing pieces with
    | nil => rfl
    | cons t tokens ih =>
      cases pieces with
      | nil => cases hcontent
      | cons piece pieces =>
        obtain ⟨hpiece, hrest⟩ := List.forall_mem_cons.mp hpieces
        rw [List.map_cons, List.map_cons, List.cons.injEq] at hcontent
        rw [List.mapM_cons, Except.bind_eq_ok_iff]
        refine ⟨t, ?_, ?_⟩
        · rw [canonicalToken_of_content hpiece hcontent.1]
          rfl
        · rw [Except.bind_eq_ok_iff]
          exact ⟨tokens, ih hrest hcontent.2, rfl⟩
  unfold canonicalLine
  rw [htokens h hline]
  rfl

/-- Lines that are written as pieces scan back to them, save those without any. -/
theorem scanLines_of_spells {texts : List String} {pieces : List (List Piece)}
    (h : List.Forall₂ Spells texts pieces) (number offset : Nat) (done : List Line) :
    ∃ lines, scanLines number offset (texts.map String.toList) done = .ok (done.reverse ++ lines) ∧
      List.Forall₂ Reads lines (pieces.filter (!List.isEmpty ·)) := by
  induction h generalizing number offset done with
  | nil => exact ⟨[], by rw [List.map_nil, scanLines, List.append_nil], .nil⟩
  | @cons text ps texts pieces htext _ ih =>
    obtain ⟨tokens, hscan, hcontent⟩ := htext.2 offset
    rw [List.map_cons, scanLines, hscan]
    dsimp only
    have hlength := congrArg List.length hcontent
    rw [List.length_map, List.length_map] at hlength
    cases ps with
    | nil =>
      rw [List.length_nil, List.length_eq_zero_iff] at hlength
      subst hlength
      exact ih _ _ _
    | cons piece ps =>
      have hsome : tokens.isEmpty = false := by
        rw [List.isEmpty_eq_false_iff_exists_mem]
        exact List.exists_mem_of_length_pos (by rw [hlength]; exact Nat.succ_pos _)
      rw [hsome]
      obtain ⟨lines, hlines, hreads⟩ := ih (number + 1)
        (offset + byteLength text.toList + 1) (⟨number, tokens⟩ :: done)
      refine ⟨⟨number, tokens⟩ :: lines, ?_, .cons hcontent hreads⟩
      rw [if_neg Bool.false_ne_true, hlines, List.reverse_cons, List.append_assoc]
      rfl

theorem mapM_canonicalLine {lines : List Line} {pieces : List (List Piece)}
    (hreads : List.Forall₂ Reads lines pieces)
    (hcanonical : ∀ ps ∈ pieces, ∀ p ∈ ps, p.Canonical) :
    lines.mapM canonicalLine = .ok lines := by
  induction hreads with
  | nil => rfl
  | cons hline _ ih =>
    obtain ⟨hfirst, hrest⟩ := List.forall_mem_cons.mp hcanonical
    rw [List.mapM_cons, Except.bind_eq_ok_iff]
    refine ⟨_, canonicalLine_of_reads hfirst hline, ?_⟩
    rw [Except.bind_eq_ok_iff]
    exact ⟨_, ih hrest, rfl⟩

theorem toList_join_lines (texts : List String) :
    (String.join (texts.map (· ++ "\n"))).toList =
      (texts.map String.toList).flatMap (· ++ ['\n']) := by
  rw [String.toList_join, List.flatMap_map, List.flatMap_map]
  apply List.flatMap_congr
  intro text _
  rw [String.toList_append]
  rfl

/-- A text of lines that are written as pieces reads back as these, save the lines without
any. -/
theorem read_of_spells {texts : List String} {pieces : List (List Piece)}
    (h : List.Forall₂ Spells texts pieces) (hcanonical : ∀ ps ∈ pieces, ∀ p ∈ ps, p.Canonical) :
    ∃ lines, read (String.join (texts.map (· ++ "\n"))) = .ok lines ∧
      List.Forall₂ Reads lines (pieces.filter (!List.isEmpty ·)) := by
  have hsplit : splitLines (String.join (texts.map (· ++ "\n"))).toList =
      (texts ++ [""]).map String.toList := by
    unfold splitLines
    rw [toList_join_lines, Text.splitAtChar_flatMap]
    · simp
    · intro cs hcs
      obtain ⟨text, htext, rfl⟩ := List.mem_map.mp hcs
      obtain ⟨ps, -, hps⟩ := h.exists_right htext
      exact hps.1
  obtain ⟨lines, hlines, hreads⟩ := scanLines_of_spells
    (List.rel_append h (.cons spells_nil .nil)) 1 0 []
  have hempty : (pieces ++ [[]]).filter (!List.isEmpty ·) = pieces.filter (!List.isEmpty ·) := by
    rw [List.filter_append]
    exact List.append_nil _
  rw [hempty] at hreads
  refine ⟨lines, ?_, hreads⟩
  unfold read tokenize
  rw [hsplit, hlines]
  change lines.mapM canonicalLine = .ok lines
  exact mapM_canonicalLine hreads fun ps hps => hcanonical ps (List.mem_of_mem_filter hps)

end Source

end TeachingCpu
