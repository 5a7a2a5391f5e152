import Mathlib.Logic.Relation
import TeachingCpu.Proofs.Source.Lexemes
import TeachingCpu.Proofs.Text.Split

/-!
# The scan of a source

The scan moves a cursor over a source step by step, and it goes in one way only
(`step_rightUnique`). It ends at the end of the source or in front of a quote whose literal is not
closed on its line. `tokenize` gives the tokens that this scan passes, or fails where it stays in
front of such a quote (`scans_tokenize`).
-/

namespace TeachingCpu.Source

/-! ## Steps of the scan -/

/-- A place in a text, and the tokens in front of it with the numbers of their lines. -/
structure Cursor where
  behind : List Char
  ahead : List Char
  tokens : List (Nat × Token)

/-- A token with the number of its line, which the newlines behind it count. -/
def numberedAt (behind raw : List Char) (said : TokenKind × List Char) : Nat × Token :=
  (behind.count '\n' + 1, tokenAt (byteLength behind) raw said)

namespace Cursor

/-- The front of a text. -/
def start (text : List Char) : Cursor := ⟨[], text, []⟩

/-- The scan goes on by one step. -/
inductive Step : Cursor → Cursor → Prop
  | pass {passed rest : List Char} {said : Option (TokenKind × List Char)}
    (h : Passes passed rest said) (behind : List Char) (tokens : List (Nat × Token)) :
    Step ⟨behind, passed ++ rest, tokens⟩
      ⟨behind ++ passed, rest, tokens ++ (said.map (numberedAt behind passed)).toList⟩

/-- The scan goes on by some steps. -/
abbrev Run : Cursor → Cursor → Prop := Relation.ReflTransGen Step

/-- The scan leaves the text alone. -/
theorem text_of_run {c c' : Cursor} (h : Run c c') :
    c'.behind ++ c'.ahead = c.behind ++ c.ahead := by
  induction h with
  | refl => rfl
  | tail _ hstep ih =>
    cases hstep with
    | pass =>
      rw [List.append_assoc]
      exact ih

/-- A token that the scan passes stands in the text. -/
theorem exists_of_mem_tokens {text : List Char} {c : Cursor} (h : Run (start text) c)
    {p : Nat × Token} (hp : p ∈ c.tokens) :
    ∃ front raw said back, text = front ++ (raw ++ back) ∧ Lexeme raw said ∧
      p = numberedAt front raw said := by
  induction h with
  | refl => cases hp
  | tail hrun hstep ih =>
    cases hstep with
    | @pass passed rest said hpasses behind tokens =>
      have htext : behind ++ (passed ++ rest) = text := text_of_run hrun
      rcases List.mem_append.mp hp with hp | hp
      · exact ih hp
      · cases hpasses with
        | token hraw =>
          obtain rfl := List.mem_singleton.mp hp
          exact ⟨behind, passed, _, rest, htext.symm, hraw, rfl⟩
        | _ => cases hp

theorem step_rightUnique : Relator.RightUnique Step := by
  intro c c₁ c₂ h₁ h₂
  obtain ⟨behind, ahead, tokens⟩ := c
  generalize hahead : ahead = ahead' at h₂
  cases h₁ with
  | pass h =>
    cases h₂ with
    | pass h' =>
      obtain ⟨rfl, rfl⟩ := passes_unique h h' hahead
      rw [List.append_cancel_left hahead]

/-- Nothing is passed in front of a literal that is not closed. -/
theorem not_step_of_unclosed {c c' : Cursor} (h : Unclosed c.ahead) : ¬ Step c c' := by
  intro hstep
  cases hstep with
  | @pass passed rest said hpasses =>
    obtain ⟨quote, rest', hquote, hahead, hopen⟩ := h
    obtain ⟨hseparator, hnewline, hcomment⟩ := head_of_isQuote hquote
    obtain ⟨c, cs, rfl⟩ := List.exists_cons_of_ne_nil (passes_ne_nil hpasses)
    change c :: (cs ++ rest) = quote :: rest' at hahead
    rw [List.cons.injEq] at hahead
    obtain ⟨rfl, hahead⟩ := hahead
    rcases passes_cons hpasses with ⟨hc, -⟩ | ⟨hc, -⟩ | ⟨-, spelled, -, hraw, -⟩
    · simp [hseparator, hnewline] at hc
    · exact hcomment hc
    · cases hraw with
      | word hword => exact (head_of_isWord hword).2.2.2 hquote
      | literal _ hbody hline =>
        refine hline (hopen _ _ rest hbody ?_)
        rw [← hahead, List.append_assoc, List.singleton_append]

/-- The scan does not come to the end of a text and to a literal that is not closed. -/
theorem not_unclosed_of_run {c stop stuck : Cursor} (hstop : Run c stop) (hend : stop.ahead = [])
    (hstuck : Run c stuck) : ¬ Unclosed stuck.ahead := by
  intro hopen
  have hnostep : ∀ c', ¬ Step stop c' := by
    intro c' hstep
    obtain ⟨behind, ahead, tokens⟩ := stop
    cases hstep with
    | pass hpasses => exact passes_ne_nil hpasses (List.append_eq_nil_iff.mp hend).1
  have hsame : stop = stuck := by
    rcases hstop.total_of_right_unique step_rightUnique hstuck with h | h
    · rcases h.cases_head with heq | ⟨c', hstep, -⟩
      · exact heq
      · exact absurd hstep (hnostep c')
    · rcases h.cases_head with heq | ⟨c', hstep, -⟩
      · exact heq.symm
      · exact absurd hstep (not_step_of_unclosed hopen)
  rw [← hsame] at hopen
  exact ne_nil_of_unclosed hopen hend

end Cursor

/-! ## The scan of a line -/

/-- A cursor in front of a literal that is not closed, and the error that points at this literal up
to the end of its line. -/
structure Cursor.Refuses (stuck : Cursor) (e : Error) : Prop where
  unclosed : Unclosed stuck.ahead
  error : ∃ raw back, stuck.ahead = raw ++ back ∧ raw ≠ [] ∧ '\n' ∉ raw ∧ EndsLine back ∧
    e = ((Error.of .unterminatedLiteral).atSpan
      (.of (byteLength stuck.behind) (byteLength raw))).atLine (stuck.behind.count '\n' + 1)

/-- What the scan of a line comes to: its tokens in front of the rest of the source, or a literal
that is not closed. -/
def Cursor.ScansLine (start : Cursor) (line back : List Char) (done : List Token) :
    Except Error (List Token) → Prop
  | .ok tokens => ∃ new, tokens = done.reverse ++ new ∧
      Run start ⟨start.behind ++ line, back,
        start.tokens ++ new.map (start.behind.count '\n' + 1, ·)⟩
  | .error e => ∃ stuck, Run start stuck ∧ stuck.Refuses (e.atLine (start.behind.count '\n' + 1))

section ScansLine

open Cursor

variable {line back : List Char}

/-- What a line comes to behind the text that is passed, it comes to in front of it. -/
theorem scansLine_of_passes {behind passed rest : List Char} {tokens : List (Nat × Token)}
    {done : List Token} {said : Option (TokenKind × List Char)} {r : Except Error (List Token)}
    (hpasses : Passes passed (rest ++ back) said) (hpassed : '\n' ∉ passed)
    (h : ScansLine ⟨behind ++ passed, rest ++ back,
      tokens ++ (said.map (numberedAt behind passed)).toList⟩ rest back
      ((said.map (tokenAt (byteLength behind) passed)).toList ++ done) r) :
    ScansLine ⟨behind, passed ++ (rest ++ back), tokens⟩ (passed ++ rest) back done r := by
  have hstep := Step.pass hpasses behind tokens
  cases r with
  | error e =>
    obtain ⟨stuck, hrun, hrefuses⟩ := h
    rw [List.count_append, List.count_eq_zero.mpr hpassed, Nat.add_zero] at hrefuses
    exact ⟨stuck, hrun.head hstep, hrefuses⟩
  | ok result =>
    obtain ⟨new, rfl, hrun⟩ := h
    have hrun' := hrun.head hstep
    simp only [List.count_append, List.count_eq_zero.mpr hpassed, Nat.add_zero,
      List.append_assoc] at hrun'
    refine ⟨(said.map (tokenAt (byteLength behind) passed)).toList ++ new, ?_, ?_⟩
    · cases said <;> simp
    · cases said <;> exact hrun'

theorem scansLine_scanLine (hline : '\n' ∉ line) (hback : EndsLine back) (behind : List Char)
    (tokens : List (Nat × Token)) (done : List Token) :
    ScansLine ⟨behind, line ++ back, tokens⟩ line back done
      (scanLine (byteLength behind) line done) := by
  induction line using scan_induction generalizing behind tokens done with
  | nil =>
    rw [scanLine_nil, List.nil_append]
    refine ⟨[], (List.append_nil _).symm, ?_⟩
    rw [List.map_nil, List.append_nil, List.append_nil]
  | @pass passed rest said hpasses ih =>
    rw [scanLine_passes hpasses hline, ← byteLength_append, List.append_assoc]
    rw [List.mem_append, not_or] at hline
    exact scansLine_of_passes (passes_append hpasses hback) hline.1
      (ih hline.2 (behind ++ passed) _ _)
  | unclosed hopen =>
    rw [scanLine_unclosed hopen hline]
    exact ⟨_, .refl, unclosed_append hopen hback, _, back, rfl, ne_nil_of_unclosed hopen, hline,
      hback, rfl⟩

end ScansLine

/-! ## The scan of a source -/

/-- The lines of a text are what stands between its newlines. -/
theorem intercalate_splitLines (cs : List Char) :
    List.intercalate ['\n'] (splitLines cs) = cs ∧ splitLines cs ≠ [] ∧
      ∀ line ∈ splitLines cs, '\n' ∉ line := by
  obtain ⟨hjoin, hlines⟩ := Text.intercalate_splitAtChar '\n' cs
  exact ⟨hjoin, Text.splitAtChar_ne_nil '\n' cs, hlines⟩

/-- The tokens of lines with the numbers of the lines. -/
def numbered (lines : List Line) : List (Nat × Token) :=
  lines.flatMap fun line => line.tokens.map (line.number, ·)

/-- What the scan of a source comes to: the end and the tokens of all lines, or a literal that is
not closed. -/
def Cursor.Scans (start : Cursor) : Except Error (List Line) → Prop
  | .ok lines => Run start ⟨start.behind ++ start.ahead, [], numbered lines⟩
  | .error e => ∃ stuck, Run start stuck ∧ stuck.Refuses e

theorem Cursor.scans_of_run {start next : Cursor} {r : Except Error (List Line)}
    (hrun : Run start next) (h : next.Scans r) : start.Scans r := by
  cases r with
  | ok lines =>
    have hstop := hrun.trans h
    rwa [text_of_run hrun] at hstop
  | error e =>
    obtain ⟨stuck, hstuck, hrefuses⟩ := h
    exact ⟨stuck, hrun.trans hstuck, hrefuses⟩

theorem numbered_reverse_cons (number : Nat) (tokens : List Token) (done : List Line) :
    numbered (if tokens.isEmpty then done else ⟨number, tokens⟩ :: done).reverse =
      numbered done.reverse ++ tokens.map (number, ·) := by
  cases tokens with
  | nil => exact (List.append_nil _).symm
  | cons t tokens => simp [numbered]

open Cursor in
theorem scans_scanLines (front : List Char) {texts : List (List Char)} (done : List Line)
    (hne : texts ≠ []) (htexts : ∀ cs ∈ texts, '\n' ∉ cs) :
    Scans ⟨front, List.intercalate ['\n'] texts, numbered done.reverse⟩
      (scanLines (front.count '\n' + 1) (byteLength front) texts done) := by
  induction texts generalizing front done with
  | nil => exact absurd rfl hne
  | cons cs rest ih =>
    obtain ⟨hcs, hrest⟩ := List.forall_mem_cons.mp htexts
    obtain ⟨back, hjoin, hback, hlines⟩ : ∃ back,
        List.intercalate ['\n'] (cs :: rest) = cs ++ back ∧ EndsLine back ∧
        ∀ done', Scans ⟨front ++ cs, back, numbered done'.reverse⟩
          (scanLines (front.count '\n' + 1 + 1) (byteLength front + byteLength cs + 1) rest
            done') := by
      cases rest with
      | nil =>
        refine ⟨[], by rw [List.intercalate_singleton, List.append_nil], nofun, fun done' => ?_⟩
        change Run _ ⟨front ++ cs ++ [], [], _⟩
        rw [List.append_nil]
      | cons next rest =>
        refine ⟨'\n' :: List.intercalate ['\n'] (next :: rest), ?_, ?_, fun done' => ?_⟩
        · rw [List.intercalate_cons_cons, List.append_assoc]
          rfl
        · exact fun c hc => (Option.some.inj hc).symm
        · have hcount : (front ++ cs ++ ['\n']).count '\n' = front.count '\n' + 1 := by
            rw [List.count_append, List.count_append, List.count_eq_zero.mpr hcs]
            rfl
          have hlength : byteLength (front ++ cs ++ ['\n']) =
              byteLength front + byteLength cs + 1 := by
            rw [byteLength_append, byteLength_append]
            rfl
          have hscans := ih (front ++ cs ++ ['\n']) done' (List.cons_ne_nil next rest) hrest
          rw [hcount, hlength, ← List.append_nil (numbered done'.reverse)] at hscans
          exact scans_of_run (.single (.pass .newline _ _)) hscans
    have hline := scansLine_scanLine hcs hback front (numbered done.reverse) []
    rw [scanLines, hjoin]
    cases hscan : scanLine (byteLength front) cs [] with
    | error e =>
      rw [hscan] at hline
      exact hline
    | ok tokens =>
      rw [hscan] at hline
      obtain ⟨new, rfl, hrun⟩ := hline
      refine scans_of_run ?_ (hlines _)
      rwa [numbered_reverse_cons]

/-- The tokens of a source are those that the scan passes on its way to the end, and a source is
refused where the scan comes to a literal that is not closed on its line. -/
theorem scans_tokenize (source : String) :
    (Cursor.start source.toList).Scans (tokenize source) := by
  obtain ⟨hjoin, hne, htexts⟩ := intercalate_splitLines source.toList
  have hscans := scans_scanLines [] [] hne htexts
  rwa [hjoin] at hscans

/-- Every token of a source stands in it, and the newlines in front of it count its line. -/
theorem exists_of_tokenize {source : String} {lines : List Line} (h : tokenize source = .ok lines)
    {line : Line} (hline : line ∈ lines) {t : Token} (ht : t ∈ line.tokens) :
    ∃ front raw said back, source.toList = front ++ (raw ++ back) ∧ Lexeme raw said ∧
      line.number = front.count '\n' + 1 ∧ t = tokenAt (byteLength front) raw said := by
  have hscans := scans_tokenize source
  rw [h] at hscans
  have hmem : (line.number, t) ∈ numbered lines :=
    List.mem_flatMap.mpr ⟨line, hline, List.mem_map_of_mem ht⟩
  obtain ⟨front, raw, said, back, htext, hraw, hnumbered⟩ := Cursor.exists_of_mem_tokens hscans hmem
  obtain ⟨hnumber, htoken⟩ := Prod.mk.inj hnumbered
  exact ⟨front, raw, said, back, htext, hraw, hnumber, htoken⟩

/-- The lines of a source have tokens, and their numbers increase. -/
structure Ordered (lines : List Line) : Prop where
  ne_nil : ∀ line ∈ lines, line.tokens ≠ []
  numbers : lines.Pairwise fun earlier later => earlier.number < later.number

theorem ordered_scanLines {number offset : Nat} {texts : List (List Char)} {done lines : List Line}
    (hlt : ∀ line ∈ done, line.number < number) (hdone : Ordered done.reverse)
    (h : scanLines number offset texts done = .ok lines) : Ordered lines := by
  induction texts generalizing number offset done with
  | nil =>
    cases h
    exact hdone
  | cons cs rest ih =>
    rw [scanLines] at h
    cases hscan : scanLine offset cs [] with
    | error e =>
      rw [hscan] at h
      cases h
    | ok tokens =>
      rw [hscan] at h
      dsimp only at h
      by_cases hempty : tokens.isEmpty = true
      · rw [if_pos hempty] at h
        exact ih (fun line hline => Nat.lt_succ_of_lt (hlt line hline)) hdone h
      · rw [if_neg hempty] at h
        refine ih ?_ ⟨?_, ?_⟩ h
        · exact List.forall_mem_cons.mpr ⟨Nat.lt_succ_self _,
            fun line hline => Nat.lt_succ_of_lt (hlt line hline)⟩
        · rw [List.reverse_cons, List.forall_mem_append, List.forall_mem_singleton]
          exact ⟨hdone.ne_nil, fun hnil => hempty (List.isEmpty_iff.mpr hnil)⟩
        · rw [List.reverse_cons, List.pairwise_append]
          refine ⟨hdone.numbers, List.pairwise_singleton _ _, fun line hline last hlast => ?_⟩
          obtain rfl := List.mem_singleton.mp hlast
          exact hlt line (List.mem_reverse.mp hline)

theorem ordered_tokenize {source : String} {lines : List Line} (h : tokenize source = .ok lines) :
    Ordered lines :=
  ordered_scanLines (List.forall_mem_nil _) ⟨List.forall_mem_nil _, .nil⟩ h

end TeachingCpu.Source
