import TeachingCpu.Proofs.Source.Places

/-!
# What the scan passes

A step of the scan passes one separator, one newline, one comment, one word or one literal
(`Passes`). Only one of these can be passed at a place (`passes_unique`), and one of them can, save
at the end of the text and in front of a quote whose literal is not closed on its line
(`passes_or_unclosed`). A line is scanned by such steps (`scanLine_passes`).
-/

namespace TeachingCpu.Source

/-! ## Quotes -/

/-- A literal is what stands between its quotes, behind the characters that were passed. -/
theorem eq_of_splitAtQuote {quote : Char} {cs done body rest : List Char}
    (h : splitAtQuote quote cs done = some (body, rest)) :
    ∃ used text, body = done.reverse ++ used ∧ cs = used ++ quote :: rest ∧
      Quoted quote used text := by
  fun_induction splitAtQuote quote cs done with
  | case1 => cases h
  | case2 c rest' done ih =>
    obtain ⟨used, text, rfl, rfl, hused⟩ := ih h
    exact ⟨'\\' :: c :: used, _, by simp, rfl, hused.escape c⟩
  | case3 =>
    cases h
    exact ⟨[], [], (List.append_nil _).symm, rfl, .nil⟩
  | case4 c rest' done hbackslash hquote ih =>
    obtain ⟨used, text, rfl, rfl, hused⟩ := ih h
    refine ⟨c :: used, c :: text, by simp, rfl, hused.plain hquote fun hc => ?_⟩
    cases used with
    | nil => exact hbackslash quote rest hc rfl
    | cons c' used => exact hbackslash c' _ hc rfl

theorem eq_of_splitAtQuote_nil {quote : Char} {cs body rest : List Char}
    (h : splitAtQuote quote cs [] = some (body, rest)) : cs = body ++ quote :: rest := by
  obtain ⟨used, -, rfl, hcs, -⟩ := eq_of_splitAtQuote h
  exact hcs

theorem quoted_of_splitAtQuote {quote : Char} {cs body rest : List Char}
    (h : splitAtQuote quote cs [] = some (body, rest)) : ∃ text, Quoted quote body text := by
  obtain ⟨used, text, rfl, -, hused⟩ := eq_of_splitAtQuote h
  exact ⟨text, hused⟩

/-! ## What is passed -/

/-- A text in front of which a line ends. -/
def EndsLine (rest : List Char) : Prop := ∀ c ∈ rest.head?, c = '\n'

/-- The text of a token in a source, and what the token says. -/
inductive Lexeme : List Char → TokenKind × List Char → Prop
  | word {word : List Char} (h : IsWord word) : Lexeme word (.word, word)
  | literal {quote : Char} {body text : List Char} (hquote : IsQuote quote)
    (hbody : Quoted quote body text) (hline : '\n' ∉ body) :
    Lexeme (quote :: (body ++ [quote])) (literalKind quote, text)

/-- The text that the scan passes in one step in front of a rest, and what it says. A comment goes
on to the end of its line and a word as far as it can; a literal goes on to its quote, whatever
follows. -/
inductive Passes : List Char → List Char → Option (TokenKind × List Char) → Prop
  | separator {c : Char} {rest : List Char} (hc : isSeparator c = true) : Passes [c] rest none
  | newline {rest : List Char} : Passes ['\n'] rest none
  | comment {text rest : List Char} (htext : '\n' ∉ text) (hrest : EndsLine rest) :
    Passes (';' :: text) rest none
  | token {raw rest : List Char} {said : TokenKind × List Char} (hraw : Lexeme raw said)
    (hrest : said.1 = .word → EndsWord rest) : Passes raw rest (some said)

theorem Passes.word {word rest : List Char} (h : IsWord word) (hrest : EndsWord rest) :
    Passes word rest (some (.word, word)) :=
  .token (.word h) fun _ => hrest

/-- A text that starts with a quote whose literal is not closed before its line ends. -/
def Unclosed (ahead : List Char) : Prop :=
  ∃ quote rest, IsQuote quote ∧ ahead = quote :: rest ∧
    ∀ body text after, Quoted quote body text → rest = body ++ quote :: after → '\n' ∈ body

theorem ne_nil_of_unclosed {ahead : List Char} (h : Unclosed ahead) : ahead ≠ [] := by
  obtain ⟨quote, rest, -, rfl, -⟩ := h
  exact List.cons_ne_nil quote rest

theorem literalKind_ne_word (quote : Char) : literalKind quote ≠ .word := by
  unfold literalKind
  split <;> exact TokenKind.noConfusion

theorem endsWord_of_endsLine {rest : List Char} (h : EndsLine rest) : EndsWord rest := by
  intro c hc
  rw [h c hc]
  rfl

theorem head_of_isQuote {c : Char} (h : IsQuote c) :
    isSeparator c = false ∧ c ≠ '\n' ∧ c ≠ ';' := by
  rcases h with rfl | rfl <;> decide

/-- A token starts with a character that neither separates nor starts a comment. -/
theorem head_of_lexeme {raw : List Char} {said : TokenKind × List Char} (h : Lexeme raw said) :
    ∃ c cs, raw = c :: cs ∧ isSeparator c = false ∧ c ≠ '\n' ∧ c ≠ ';' := by
  cases h with
  | word h =>
    cases raw with
    | nil => exact absurd rfl h.ne_nil
    | cons c cs =>
      obtain ⟨hseparator, hnewline, hcomment, -⟩ := head_of_isWord h
      exact ⟨c, cs, rfl, hseparator, hnewline, hcomment⟩
  | literal hquote => exact ⟨_, _, rfl, head_of_isQuote hquote⟩

theorem newline_notMem_lexeme {raw : List Char} {said : TokenKind × List Char}
    (h : Lexeme raw said) : '\n' ∉ raw := by
  cases h with
  | word h => exact fun hmem => ne_newline_of_endsWord (h.plain _ hmem) rfl
  | literal hquote _ hline =>
    obtain ⟨-, hnewline, -⟩ := head_of_isQuote hquote
    simp only [List.mem_cons, List.mem_append, List.not_mem_nil, or_false, not_or]
    exact ⟨hnewline.symm, hline, hnewline.symm⟩

theorem passes_ne_nil {passed rest : List Char} {said : Option (TokenKind × List Char)}
    (h : Passes passed rest said) : passed ≠ [] := by
  cases h with
  | token hraw =>
    obtain ⟨c, cs, rfl, -⟩ := head_of_lexeme hraw
    exact List.cons_ne_nil c cs
  | _ => exact List.cons_ne_nil _ _

/-! ## One way to go on -/

/-- The longest beginning without some characters is determined. -/
theorem longest_unique {p : Char → Bool} {cs cs' rest rest' : List Char} (hcs : ∀ c ∈ cs, p c)
    (hcs' : ∀ c ∈ cs', p c) (hrest : ∀ c ∈ rest.head?, p c = false)
    (hrest' : ∀ c ∈ rest'.head?, p c = false) (h : cs ++ rest = cs' ++ rest') : cs = cs' := by
  obtain ⟨htake, -⟩ := List.takeWhile_dropWhile_append hcs hrest
  obtain ⟨htake', -⟩ := List.takeWhile_dropWhile_append hcs' hrest'
  rw [← htake, h, htake']

/-- The quote that closes a literal is determined, and so is its text. -/
theorem quoted_unique {quote : Char} (hquote : IsQuote quote) {body body' text text' : List Char}
    {rest rest' : List Char} (h : Quoted quote body text) (h' : Quoted quote body' text')
    (heq : body ++ quote :: rest = body' ++ quote :: rest') : body = body' ∧ text = text' := by
  have hsplit := splitAtQuote_quoted (ne_backslash_of_isQuote hquote) h rest []
  rw [heq, splitAtQuote_quoted (ne_backslash_of_isQuote hquote) h' rest' []] at hsplit
  have hbody : body = body' := (congrArg Prod.fst (Option.some.inj hsplit)).symm
  subst hbody
  exact ⟨rfl, by rw [← unescape_quoted h, ← unescape_quoted h']⟩

theorem lexeme_unique {raw raw' rest rest' : List Char} {said said' : TokenKind × List Char}
    (h : Lexeme raw said) (h' : Lexeme raw' said') (hrest : said.1 = .word → EndsWord rest)
    (hrest' : said'.1 = .word → EndsWord rest') (heq : raw ++ rest = raw' ++ rest') :
    raw = raw' ∧ said = said' := by
  have hmixed : ∀ {word quoted rest rest' : List Char} {quote : Char}, IsWord word →
      IsQuote quote → word ++ rest ≠ quote :: quoted ++ rest' := by
    intro word quoted rest rest' quote hword hquote heq
    cases word with
    | nil => exact hword.ne_nil rfl
    | cons c cs =>
      obtain ⟨-, -, -, hc⟩ := head_of_isWord hword
      rw [List.cons_append, List.cons_append, List.cons.injEq] at heq
      exact hc (heq.1 ▸ hquote)
  cases h with
  | word h =>
    cases h' with
    | word h' =>
      have hplain : ∀ {word : List Char}, IsWord word → ∀ c ∈ word, (!endsWord c) = true :=
        fun h c hc => by rw [h.plain c hc]; rfl
      have hends : ∀ {rest : List Char}, EndsWord rest →
          ∀ c ∈ rest.head?, (!endsWord c) = false := fun h c hc => by rw [h c hc]; rfl
      have hraw :=
        longest_unique (hplain h) (hplain h') (hends (hrest rfl)) (hends (hrest' rfl)) heq
      rw [hraw]
      exact ⟨rfl, rfl⟩
    | literal hquote => exact absurd heq (hmixed h hquote)
  | literal hquote hbody =>
    cases h' with
    | word h' => exact absurd heq.symm (hmixed h' hquote)
    | literal hquote' hbody' =>
      simp only [List.cons_append, List.append_assoc, List.nil_append, List.cons.injEq] at heq
      obtain ⟨rfl, heq⟩ := heq
      obtain ⟨rfl, rfl⟩ := quoted_unique hquote hbody hbody' heq
      exact ⟨rfl, rfl⟩

/-- A separator or a newline is passed alone, a comment with the rest of its line, and anything
else as a token. -/
theorem passes_cons {c : Char} {passed rest : List Char} {said : Option (TokenKind × List Char)}
    (h : Passes (c :: passed) rest said) :
    ((isSeparator c = true ∨ c = '\n') ∧ passed = [] ∧ said = none) ∨
      (c = ';' ∧ '\n' ∉ passed ∧ EndsLine rest ∧ said = none) ∨
      ((isSeparator c = false ∧ c ≠ '\n' ∧ c ≠ ';') ∧
        ∃ spelled, said = some spelled ∧ Lexeme (c :: passed) spelled ∧
          (spelled.1 = .word → EndsWord rest)) := by
  cases h with
  | separator hc => exact .inl ⟨.inl hc, rfl, rfl⟩
  | newline => exact .inl ⟨.inr rfl, rfl, rfl⟩
  | comment htext hrest => exact .inr (.inl ⟨rfl, htext, hrest, rfl⟩)
  | token hraw hrest =>
    obtain ⟨c', cs, heq, hhead⟩ := head_of_lexeme hraw
    cases heq
    exact .inr (.inr ⟨hhead, _, rfl, hraw, hrest⟩)

/-- What the scan passes at a place is determined by the text ahead. -/
theorem passes_unique {passed passed' rest rest' : List Char}
    {said said' : Option (TokenKind × List Char)} (h : Passes passed rest said)
    (h' : Passes passed' rest' said') (heq : passed ++ rest = passed' ++ rest') :
    passed = passed' ∧ said = said' := by
  obtain ⟨c, cs, rfl⟩ := List.exists_cons_of_ne_nil (passes_ne_nil h)
  obtain ⟨c', cs', rfl⟩ := List.exists_cons_of_ne_nil (passes_ne_nil h')
  rw [List.cons_append, List.cons_append, List.cons.injEq] at heq
  obtain ⟨rfl, heq⟩ := heq
  have hcomment : isSeparator ';' = false := rfl
  rcases passes_cons h with ⟨hc, rfl, rfl⟩ | ⟨rfl, hline, hends, rfl⟩ |
    ⟨⟨hseparator, hnewline, hc⟩, spelled, rfl, hraw, hrest⟩
  · rcases passes_cons h' with ⟨-, rfl, rfl⟩ | ⟨rfl, -⟩ | ⟨⟨hseparator', hnewline', -⟩, -⟩
    · exact ⟨rfl, rfl⟩
    · simp [hcomment] at hc
    · simp [hseparator', hnewline'] at hc
  · rcases passes_cons h' with ⟨hc', -⟩ | ⟨-, hline', hends', rfl⟩ | ⟨⟨-, -, hc'⟩, -⟩
    · simp [hcomment] at hc'
    · have hplain : ∀ {text : List Char}, '\n' ∉ text → ∀ c ∈ text, (c != '\n') = true :=
        fun htext c hc => bne_iff_ne.mpr fun hnewline => htext (hnewline ▸ hc)
      have hnext : ∀ {rest : List Char}, EndsLine rest → ∀ c ∈ rest.head?, (c != '\n') = false :=
        fun hends c hc => by rw [hends c hc]; rfl
      rw [longest_unique (hplain hline) (hplain hline') (hnext hends) (hnext hends') heq]
      exact ⟨rfl, rfl⟩
    · exact absurd rfl hc'
  · rcases passes_cons h' with ⟨hc', -⟩ | ⟨rfl, -⟩ | ⟨-, spelled', rfl, hraw', hrest'⟩
    · simp [hseparator, hnewline] at hc'
    · exact absurd rfl hc
    · obtain ⟨hpassed, rfl⟩ := lexeme_unique hraw hraw' hrest hrest' (congrArg (List.cons c) heq)
      exact ⟨hpassed, rfl⟩

/-- A text starts with its longest beginning of characters with a property. -/
theorem exists_longest (p : Char → Bool) (cs : List Char) :
    ∃ front back, cs = front ++ back ∧ (∀ c ∈ front, p c) ∧ ∀ c ∈ back.head?, p c = false := by
  refine ⟨cs.takeWhile p, cs.dropWhile p, List.takeWhile_append_dropWhile.symm,
    fun c hc => List.mem_takeWhile_imp hc, fun c hc => ?_⟩
  have hhead := List.head?_dropWhile_not p cs
  rw [hc] at hhead
  simpa using hhead

/-- The scan goes on until the end of the text, save in front of a literal that is not closed. -/
theorem passes_or_unclosed {ahead : List Char} (hne : ahead ≠ []) :
    (∃ passed rest said, ahead = passed ++ rest ∧ Passes passed rest said) ∨ Unclosed ahead := by
  obtain ⟨c, cs, rfl⟩ := List.exists_cons_of_ne_nil hne
  by_cases hseparator : isSeparator c = true
  · exact .inl ⟨[c], cs, none, rfl, .separator hseparator⟩
  by_cases hnewline : c = '\n'
  · exact .inl ⟨['\n'], cs, none, by rw [hnewline]; rfl, .newline⟩
  by_cases hcomment : c = ';'
  · obtain ⟨text, rest, rfl, htext, hrest⟩ := exists_longest (· != '\n') cs
    refine .inl ⟨';' :: text, rest, none, by rw [hcomment]; rfl, .comment ?_ ?_⟩
    · exact fun hmem => absurd (htext _ hmem) (by decide)
    · exact fun c hc => by simpa using hrest c hc
  by_cases hquote : IsQuote c
  · by_cases hclosed : ∃ body text after, Quoted c body text ∧ cs = body ++ c :: after ∧ '\n' ∉ body
    · obtain ⟨body, text, after, hbody, rfl, hline⟩ := hclosed
      refine .inl ⟨c :: (body ++ [c]), after, _, by simp, .token (.literal hquote hbody hline) ?_⟩
      exact fun hword => absurd hword (literalKind_ne_word c)
    · refine .inr ⟨c, cs, hquote, rfl, fun body text after hbody hcs => ?_⟩
      by_contra hline
      exact hclosed ⟨body, text, after, hbody, hcs, hline⟩
  · have hplain : endsWord c = false := by
      simp only [endsWord, Bool.or_eq_false_iff, beq_eq_false_iff_ne]
      exact ⟨⟨⟨Bool.not_eq_true _ ▸ hseparator, hnewline⟩, hcomment⟩, fun hc => hquote (.inl hc)⟩
    obtain ⟨word, rest, rfl, hword, hrest⟩ := exists_longest (!endsWord ·) cs
    refine .inl ⟨c :: word, rest, _, rfl, .token (.word ⟨List.cons_ne_nil c word, ?_, ?_⟩) ?_⟩
    · exact List.forall_mem_cons.mpr ⟨hplain, fun c hc => by simpa using hword c hc⟩
    · exact fun hc => hquote (.inr (Option.some.inj hc))
    · exact fun _ c hc => by simpa using hrest c hc

/-- What holds at the end of a text and in front of a literal that is not closed, and in front of
what is passed if it holds behind it, holds of every text. -/
theorem scan_induction {motive : List Char → Prop} (nil : motive [])
    (pass : ∀ {passed rest said}, Passes passed rest said → motive rest → motive (passed ++ rest))
    (unclosed : ∀ {ahead}, Unclosed ahead → motive ahead) (ahead : List Char) : motive ahead := by
  -- The scan moves on by at least one character, whatever it passes.
  induction hlength : ahead.length using Nat.strong_induction_on generalizing ahead with
  | h n ih =>
    by_cases hend : ahead = []
    · rw [hend]
      exact nil
    rcases passes_or_unclosed hend with ⟨passed, rest, said, rfl, hpasses⟩ | hopen
    · have hlt : rest.length < n := by
        have := List.length_pos_of_ne_nil (passes_ne_nil hpasses)
        rw [← hlength, List.length_append]
        omega
      exact pass hpasses (ih _ hlt rest rfl)
    · exact unclosed hopen

/-! ## Scanning a line -/

theorem utf8Size_of_isSeparator {c : Char} (h : isSeparator c = true) : c.utf8Size = 1 := by
  simp only [isSeparator, Bool.or_eq_true, beq_iff_eq] at h
  obtain ((rfl | rfl) | rfl) | rfl := h <;> rfl

theorem utf8Size_of_quote {c : Char} (h : IsQuote c) : c.utf8Size = 1 := by
  obtain rfl | rfl := h <;> rfl

/-- The token that is read from some text at a byte offset. -/
def tokenAt (offset : Nat) (raw : List Char) (said : TokenKind × List Char) : Token :=
  ⟨said.1, String.ofList said.2, .of offset (byteLength raw)⟩

theorem byteLength_literal {quote : Char} (hquote : IsQuote quote) (body : List Char) :
    byteLength (quote :: (body ++ [quote])) = byteLength body + 2 := by
  rw [byteLength_cons, byteLength_append, byteLength_singleton, utf8Size_of_quote hquote]
  omega

/-- A line is scanned on behind what is passed. -/
theorem scanLine_passes {passed rest : List Char} {said : Option (TokenKind × List Char)}
    (h : Passes passed rest said) (hline : '\n' ∉ passed ++ rest) (offset : Nat)
    (done : List Token) :
    scanLine offset (passed ++ rest) done =
      scanLine (offset + byteLength passed) rest
        ((said.map (tokenAt offset passed)).toList ++ done) := by
  cases h with
  | @separator c _ hc =>
    rw [byteLength_singleton, utf8Size_of_isSeparator hc, List.singleton_append, scanLine,
      if_pos hc]
    rfl
  | newline => exact absurd List.mem_cons_self hline
  | comment _ hrest =>
    cases rest with
    | nil =>
      rw [List.append_nil, scanLine_comment, scanLine_nil]
      rfl
    | cons c rest =>
      rw [hrest c rfl] at hline
      exact absurd (List.mem_append_right _ List.mem_cons_self) hline
  | token hraw hrest =>
    cases hraw with
    | word hword => exact scanLine_word hword (hrest rfl) _ done
    | @literal quote body text hquote hbody _ =>
      have hahead : quote :: (body ++ [quote]) ++ rest = quote :: (body ++ quote :: rest) := by simp
      rw [hahead, scanLine_literal hquote hbody, ← byteLength_literal hquote body]
      rfl

/-- A line that has a literal without its second quote is refused. -/
theorem scanLine_unclosed {ahead : List Char} (h : Unclosed ahead) (hline : '\n' ∉ ahead)
    (offset : Nat) (done : List Token) :
    scanLine offset ahead done =
      .error ((Error.of .unterminatedLiteral).atSpan (.of offset (byteLength ahead))) := by
  obtain ⟨quote, rest, hquote, rfl, hopen⟩ := h
  obtain ⟨hseparator, -, hcomment⟩ := head_of_isQuote hquote
  have hsplit : splitAtQuote quote rest [] = none := by
    rw [Option.eq_none_iff_forall_ne_some]
    rintro ⟨body, after⟩ hsome
    obtain ⟨text, hbody⟩ := quoted_of_splitAtQuote hsome
    have hrest := eq_of_splitAtQuote_nil hsome
    have hmem := hopen body text after hbody hrest
    rw [hrest] at hline
    exact hline (List.mem_cons_of_mem _ (List.mem_append_left _ hmem))
  unfold IsQuote at hquote
  rw [scanLine, if_neg (by simp [hseparator]), if_neg hcomment, if_pos hquote]
  split
  · rfl
  · next hsome =>
    rw [hsplit] at hsome
    cases hsome

/-- What is passed on a line is passed in front of the lines behind it. -/
theorem passes_append {passed rest back : List Char} {said : Option (TokenKind × List Char)}
    (h : Passes passed rest said) (hback : EndsLine back) : Passes passed (rest ++ back) said := by
  cases h with
  | separator hc => exact .separator hc
  | newline => exact .newline
  | comment htext hrest =>
    refine .comment htext ?_
    cases rest with
    | nil => exact hback
    | cons c rest => exact hrest
  | token hraw hrest =>
    refine .token hraw fun hword => ?_
    cases rest with
    | nil => exact endsWord_of_endsLine hback
    | cons c rest => exact hrest hword

/-- A literal that is not closed on its line is not closed by the lines behind it. -/
theorem unclosed_append {ahead back : List Char} (h : Unclosed ahead) (hback : EndsLine back) :
    Unclosed (ahead ++ back) := by
  obtain ⟨quote, rest, hquote, rfl, hopen⟩ := h
  obtain ⟨-, hnewline, -⟩ := head_of_isQuote hquote
  refine ⟨quote, rest ++ back, hquote, rfl, fun body text after hbody heq => ?_⟩
  rcases List.append_eq_append_iff.mp heq with ⟨used, rfl, rfl⟩ | ⟨used, rfl, hused⟩
  · cases used with
    | nil => exact absurd (hback quote rfl) hnewline
    | cons c used =>
      rw [hback c rfl]
      exact List.mem_append_right _ List.mem_cons_self
  · cases used with
    | nil =>
      rw [List.nil_append] at hused
      rw [← hused] at hback
      exact absurd (hback quote rfl) hnewline
    | cons c used =>
      obtain ⟨rfl, -⟩ := List.cons.inj hused
      exact hopen body text used hbody rfl

end TeachingCpu.Source
