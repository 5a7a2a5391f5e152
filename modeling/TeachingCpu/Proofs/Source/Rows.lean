import TeachingCpu.Proofs.Source.Spacing

/-!
# Rows of tokens

A row is a text of separators and tokens on one line, in which words end before what follows them
(`Row`). In front of a text that ends a word it scans to tokens that say the same (`scanLine_row`).
A source that is accepted has the tokens of each of its lines under the number of the line, wherever
the line stands (`exists_of_scanLines_append`).
-/

namespace TeachingCpu.Source

/-! ## Rows -/

/-- A text of separators and tokens on one line, and what the tokens say. -/
inductive Row : List Char → List (TokenKind × String) → Prop
  | nil : Row [] []
  | separator {c : Char} {row : List Char} {said : List (TokenKind × String)}
    (hc : isSeparator c = true) (h : Row row said) : Row (c :: row) said
  | token {raw row : List Char} {spelled : TokenKind × List Char}
    {said : List (TokenKind × String)} (hraw : Lexeme raw spelled)
    (hends : spelled.1 = .word → EndsWord row) (h : Row row said) :
    Row (raw ++ row) ((spelled.1, String.ofList spelled.2) :: said)

theorem newline_notMem_row {row : List Char} {said : List (TokenKind × String)}
    (h : Row row said) : '\n' ∉ row := by
  induction h with
  | nil => exact List.not_mem_nil
  | separator hc _ ih =>
    rw [List.mem_cons, not_or]
    exact ⟨(ne_newline_of_isSeparator hc).symm, ih⟩
  | token hraw _ _ ih =>
    rw [List.mem_append, not_or]
    exact ⟨newline_notMem_lexeme hraw, ih⟩

/-- A word that ends before a row ends before the row with a text that ends a word behind it. -/
theorem EndsWord.append {row rest : List Char} (h : EndsWord row) (hrest : EndsWord rest) :
    EndsWord (row ++ rest) := by
  cases row with
  | nil => exact hrest
  | cons c row => exact h

/-- A row is scanned to its tokens, and the scan goes on behind it. -/
theorem scanLine_row {row rest : List Char} {said : List (TokenKind × String)} (h : Row row said)
    (hrest : EndsWord rest) (hline : '\n' ∉ rest) (offset : Nat) (done : List Token) :
    ∃ tokens, contentsOf tokens = said ∧
      scanLine offset (row ++ rest) done =
        scanLine (offset + byteLength row) rest (tokens.reverse ++ done) := by
  induction h generalizing offset done with
  | nil => exact ⟨[], rfl, rfl⟩
  | @separator c row said hc h ih =>
    obtain ⟨tokens, hcontents, hscan⟩ := ih (offset + c.utf8Size) done
    have hpass := scanLine_passes (.separator hc : Passes [c] (row ++ rest) none)
      (by simp [(ne_newline_of_isSeparator hc).symm, newline_notMem_row h, hline]) offset done
    refine ⟨tokens, hcontents, ?_⟩
    rw [byteLength_singleton] at hpass
    rw [byteLength_cons, ← Nat.add_assoc, ← hscan]
    exact hpass
  | @token raw row spelled said hraw hends h ih =>
    obtain ⟨tokens, hcontents, hscan⟩ :=
      ih (offset + byteLength raw) (tokenAt offset raw spelled :: done)
    have hpasses : Passes raw (row ++ rest) (some spelled) :=
      .token hraw fun hword => (hends hword).append hrest
    have hpass := scanLine_passes hpasses
      (by simp [newline_notMem_lexeme hraw, newline_notMem_row h, hline]) offset done
    refine ⟨tokenAt offset raw spelled :: tokens, congrArg (List.cons _) hcontents, ?_⟩
    rw [List.append_assoc, byteLength_append, ← Nat.add_assoc, List.reverse_cons, List.append_assoc]
    exact hpass.trans hscan

/-- A literal between two rows is scanned to one token of its own. -/
theorem scanLine_between {front back body text : List Char} {said said' : List (TokenKind × String)}
    (hfront : Row front said) (hback : Row back said') (hbody : Quoted stringQuote body text)
    (hline : '\n' ∉ body) (offset : Nat) :
    ∃ before after, contentsOf before = said ∧ contentsOf after = said' ∧
      scanLine offset (front ++ (stringQuote :: (body ++ [stringQuote]) ++ back)) [] =
        .ok (before ++ ⟨.str, String.ofList text, .of (offset + byteLength front)
          (byteLength (stringQuote :: (body ++ [stringQuote])))⟩ :: after) := by
  have hraw : Lexeme (stringQuote :: (body ++ [stringQuote])) (.str, text) :=
    .literal (.inl rfl) hbody hline
  have hbackline := newline_notMem_row hback
  have hrest : '\n' ∉ stringQuote :: (body ++ [stringQuote]) ++ back := by
    rw [List.mem_append, not_or]
    exact ⟨newline_notMem_lexeme hraw, hbackline⟩
  have hquote : EndsWord (stringQuote :: (body ++ [stringQuote]) ++ back) := by
    rintro c ⟨⟩
    rfl
  obtain ⟨before, hbefore, hscan⟩ := scanLine_row hfront hquote hrest offset []
  have hpass := scanLine_passes (.token hraw nofun : Passes _ back (some _)) hrest
    (offset + byteLength front) (before.reverse ++ [])
  obtain ⟨after, hafter, hend⟩ := scanLine_row hback (nofun : EndsWord []) List.not_mem_nil
    (offset + byteLength front + byteLength (stringQuote :: (body ++ [stringQuote])))
    (tokenAt (offset + byteLength front) (stringQuote :: (body ++ [stringQuote])) (.str, text) ::
      (before.reverse ++ []))
  refine ⟨before, after, hbefore, hafter, ?_⟩
  rw [List.append_nil, scanLine_nil] at hend
  rw [hscan, hpass]
  refine hend.trans ?_
  simp [tokenAt]

/-! ## Lines of a source -/

variable {number offset : Nat} {lines : List Line}

/-- The lines of tokens behind other ones. -/
theorem scanLines_done (number offset : Nat) (texts : List (List Char)) (done : List Line) :
    scanLines number offset texts done =
      (scanLines number offset texts []).map (done.reverse ++ ·) := by
  induction texts generalizing number offset done with
  | nil => exact congrArg Except.ok (List.append_nil _).symm
  | cons cs rest ih =>
    rw [scanLines, scanLines]
    cases scanLine offset cs [] with
    | error e => rfl
    | ok tokens =>
      dsimp only
      split
      · exact ih _ _ done
      · rw [ih _ _ (_ :: done), ih _ _ [_]]
        cases scanLines (number + 1) (offset + byteLength cs + 1) rest [] with
        | error e => rfl
        | ok later => exact congrArg Except.ok (by simp)

/-- The line of tokens that a text makes up, if it has any. -/
def lineOf (number : Nat) (tokens : List Token) : List Line :=
  if tokens.isEmpty then [] else [⟨number, tokens⟩]

theorem scanLines_cons_eq_ok_iff {cs : List Char} {rest : List (List Char)} :
    scanLines number offset (cs :: rest) [] = .ok lines ↔
      ∃ tokens later, scanLine offset cs [] = .ok tokens ∧
        scanLines (number + 1) (offset + byteLength cs + 1) rest [] = .ok later ∧
        lines = lineOf number tokens ++ later := by
  rw [scanLines]
  cases scanLine offset cs [] with
  | error e =>
    constructor
    · intro h
      cases h
    · rintro ⟨_, _, h, -⟩
      cases h
  | ok tokens =>
    dsimp only
    rw [scanLines_done]
    cases hrest : scanLines (number + 1) (offset + byteLength cs + 1) rest [] with
    | error e =>
      constructor
      · intro h
        cases h
      · rintro ⟨_, _, -, h, -⟩
        cases h
    | ok later =>
      have hdone : (if tokens.isEmpty then [] else [⟨number, tokens⟩]).reverse ++ later =
          lineOf number tokens ++ later := by
        unfold lineOf
        split <;> rfl
      constructor
      · intro h
        cases h
        exact ⟨tokens, later, rfl, rfl, hdone⟩
      · rintro ⟨_, _, ⟨⟩, ⟨⟩, rfl⟩
        exact congrArg Except.ok hdone

/-- The lines of a source that is accepted have their tokens under their own numbers. -/
theorem exists_of_scanLines_append {front back : List (List Char)}
    (h : scanLines number offset (front ++ back) [] = .ok lines) :
    ∃ offset' earlier later, scanLines (number + front.length) offset' back [] = .ok later ∧
      lines = earlier ++ later := by
  induction front generalizing number offset lines with
  | nil => exact ⟨offset, [], lines, h, rfl⟩
  | cons cs front ih =>
    obtain ⟨tokens, later, -, hlater, rfl⟩ := scanLines_cons_eq_ok_iff.mp h
    obtain ⟨offset', earlier, later, hback, rfl⟩ := ih hlater
    refine ⟨offset', lineOf number tokens ++ earlier, later, ?_, (List.append_assoc ..).symm⟩
    rw [List.length_cons, Nat.add_comm front.length, ← Nat.add_assoc]
    exact hback

/-- A line that is written as pieces. -/
theorem exists_of_scanLines_spells {text : String} {piece : Piece} {pieces : List Piece}
    {rest : List (List Char)} (htext : Spells text (piece :: pieces))
    (h : scanLines number offset (text.toList :: rest) [] = .ok lines) :
    ∃ offset' line later, line.number = number ∧ Reads line (piece :: pieces) ∧
      scanLines (number + 1) offset' rest [] = .ok later ∧ lines = line :: later := by
  obtain ⟨tokens, later, hscan, hlater, rfl⟩ := scanLines_cons_eq_ok_iff.mp h
  obtain ⟨tokens', hscan', hreads⟩ := htext.2 offset
  obtain rfl : tokens = tokens' := Except.ok.inj (hscan.symm.trans hscan')
  have hsome : tokens.isEmpty = false := by
    cases tokens with
    | nil => cases hreads
    | cons => rfl
  refine ⟨_, ⟨number, tokens⟩, later, rfl, hreads, hlater, ?_⟩
  rw [lineOf, hsome]
  rfl

end TeachingCpu.Source
