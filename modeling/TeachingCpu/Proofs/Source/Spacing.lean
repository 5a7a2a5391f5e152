import Mathlib.Logic.Relation
import TeachingCpu.Proofs.Attempt.Agree
import TeachingCpu.Proofs.Source.Cursor
import TeachingCpu.Proofs.Source.Rewrite

/-!
# Spacing, comments and blank lines

Edits of a source that change what stands between its tokens (`Edit`): a line without tokens comes
in, a comment is put at the end of a line, a run of separators becomes another one. A source that
was edited so says the same, or is refused for the same cause (`told_read_of_respaced`).
-/

namespace TeachingCpu.Source

open Cursor (Run)

/-! ## Lines that scan alike -/

/-- What tokens say. -/
def contentsOf (tokens : List Token) : List (TokenKind × String) := tokens.map Token.content

/-- Two texts whose scans, behind tokens that say the same, give tokens that say the same or fail
for one cause, wherever the texts stand. -/
def ScansAlike (cs cs' : List Char) : Prop :=
  ∀ offset offset' done done', contentsOf done = contentsOf done' →
    told contentsOf (scanLine offset cs done) = told contentsOf (scanLine offset' cs' done')

theorem contentsOf_tokenAt (offset offset' : Nat) {raw : List Char}
    (said : Option (TokenKind × List Char)) {done done' : List Token}
    (h : contentsOf done = contentsOf done') :
    contentsOf ((said.map (tokenAt offset raw)).toList ++ done) =
      contentsOf ((said.map (tokenAt offset' raw)).toList ++ done') := by
  cases said with
  | none => exact h
  | some said => exact congrArg (List.cons _) h

/-- Texts that scan alike do so behind a text that is passed in front of both. -/
theorem scansAlike_passes {passed rest rest' : List Char} {said : Option (TokenKind × List Char)}
    (h : Passes passed rest said) (h' : Passes passed rest' said) (hline : '\n' ∉ passed ++ rest)
    (hline' : '\n' ∉ passed ++ rest') (hrest : ScansAlike rest rest') :
    ScansAlike (passed ++ rest) (passed ++ rest') := by
  intro offset offset' done done' hdone
  rw [scanLine_passes h hline, scanLine_passes h' hline']
  exact hrest _ _ _ _ (contentsOf_tokenAt offset offset' said hdone)

theorem scansAlike_ended {cs cs' : List Char}
    (h : ∀ offset done, scanLine offset cs done = .ok done.reverse)
    (h' : ∀ offset done, scanLine offset cs' done = .ok done.reverse) : ScansAlike cs cs' := by
  intro offset offset' done done' hdone
  rw [h, h']
  refine congrArg Except.ok ?_
  rw [contentsOf, contentsOf, List.map_reverse, List.map_reverse]
  exact congrArg List.reverse hdone

/-- A line scans alike wherever it stands. -/
theorem scansAlike_refl {cs : List Char} (hline : '\n' ∉ cs) : ScansAlike cs cs := by
  induction cs using scan_induction with
  | nil => exact scansAlike_ended scanLine_nil scanLine_nil
  | pass hpasses ih =>
    refine scansAlike_passes hpasses hpasses hline hline (ih ?_)
    exact fun hmem => hline (List.mem_append_right _ hmem)
  | unclosed hopen =>
    intro offset offset' done done' _
    rw [scanLine_unclosed hopen hline, scanLine_unclosed hopen hline]
    rfl

/-! ## Edits of a line -/

/-- A run of separators that is not empty. -/
structure IsRun (run : List Char) : Prop where
  ne_nil : run ≠ []
  separators : ∀ c ∈ run, isSeparator c = true

instance (run : List Char) : Decidable (IsRun run) :=
  decidable_of_iff (run ≠ [] ∧ run.all isSeparator)
    ⟨fun h => ⟨h.1, List.all_eq_true.mp h.2⟩,
      fun h => ⟨h.ne_nil, List.all_eq_true.mpr h.separators⟩⟩

/-- A text without tokens: separators, and a comment behind them or none. -/
inductive Tokenless : List Char → Prop
  | blank {gap : List Char} (hgap : ∀ c ∈ gap, isSeparator c = true) : Tokenless gap
  | comment {gap : List Char} (hgap : ∀ c ∈ gap, isSeparator c = true) (text : List Char) :
    Tokenless (gap ++ ';' :: text)

/-- Edits between the tokens of a line. A comment comes in at the end of the line if the scan comes
to this end, so that it is not inside a literal; a run of separators is replaced if the scan comes
to it, so that it is in no literal and no comment. -/
inductive LineEdit : List Char → List Char → Prop
  | comment {line tail : List Char} {tokens : List (Nat × Token)}
    (h : Run (.start line) ⟨line, [], tokens⟩) (htail : Tokenless tail) :
    LineEdit line (line ++ tail)
  | separators {front run run' back : List Char} {tokens : List (Nat × Token)}
    (h : Run (.start (front ++ (run ++ back))) ⟨front, run ++ back, tokens⟩)
    (hrun : IsRun run) (hrun' : IsRun run') :
    LineEdit (front ++ (run ++ back)) (front ++ (run' ++ back))

theorem endsWord_of_isSeparator {c : Char} (h : isSeparator c = true) : endsWord c = true := by
  rw [endsWord, h]
  rfl

theorem ne_newline_of_isSeparator {c : Char} (h : isSeparator c = true) : c ≠ '\n' := by
  rintro rfl
  cases h

theorem scanLine_separators {run : List Char} (h : ∀ c ∈ run, isSeparator c = true)
    (back : List Char) (offset : Nat) (done : List Token) :
    scanLine offset (run ++ back) done = scanLine (offset + run.length) back done := by
  induction run generalizing offset with
  | nil => rfl
  | cons c run ih =>
    obtain ⟨hc, hrun⟩ := List.forall_mem_cons.mp h
    rw [List.cons_append, scanLine, if_pos hc, ih hrun, List.length_cons, Nat.add_right_comm,
      Nat.add_assoc]

theorem scanLine_tokenless {line : List Char} (h : Tokenless line) (offset : Nat)
    (done : List Token) : scanLine offset line done = .ok done.reverse := by
  cases h with
  | blank hgap =>
    have hscan := scanLine_separators hgap [] offset done
    rwa [List.append_nil, scanLine_nil] at hscan
  | comment hgap text => rw [scanLine_separators hgap, scanLine_comment]

/-- A word ends in front of a text without tokens. -/
theorem endsWord_of_tokenless {tail : List Char} (h : Tokenless tail) : EndsWord tail := by
  cases h with
  | blank hgap => exact fun c hc => endsWord_of_isSeparator (hgap c (List.mem_of_mem_head? hc))
  | @comment gap hgap text =>
    intro c hc
    cases gap with
    | nil =>
      cases hc
      rfl
    | cons c' gap =>
      cases hc
      exact endsWord_of_isSeparator (hgap c List.mem_cons_self)

/-- What follows a run of separators scans alike behind any run. -/
theorem scansAlike_separators {run run' back : List Char} (hrun : IsRun run) (hrun' : IsRun run')
    (hback : '\n' ∉ back) : ScansAlike (run ++ back) (run' ++ back) := by
  intro offset offset' done done' hdone
  rw [scanLine_separators hrun.separators, scanLine_separators hrun'.separators]
  exact scansAlike_refl hback _ _ _ _ hdone

/-- What is passed in front of a text is passed in front of another one that ends a word, unless it
is a comment. -/
theorem passes_replace {passed mid tail tail' : List Char} {said : Option (TokenKind × List Char)}
    (h : Passes passed (mid ++ tail) said) (hcomment : passed.head? ≠ some ';')
    (htail : EndsWord tail') : Passes passed (mid ++ tail') said := by
  cases h with
  | separator hc => exact .separator hc
  | newline => exact .newline
  | comment => exact absurd rfl hcomment
  | token hraw hrest =>
    refine .token hraw fun hword => ?_
    cases mid with
    | nil => exact htail
    | cons c mid => exact hrest hword

/-- A comment goes on to the end of its line. -/
theorem eq_nil_of_comment {passed rest : List Char} {said : Option (TokenKind × List Char)}
    (h : Passes passed rest said) (hcomment : passed.head? = some ';')
    (hline : '\n' ∉ passed ++ rest) : rest = [] ∧ ∃ text, passed = ';' :: text := by
  obtain ⟨c, text, rfl⟩ := List.exists_cons_of_ne_nil (passes_ne_nil h)
  obtain rfl : c = ';' := Option.some.inj hcomment
  refine ⟨?_, text, rfl⟩
  rcases passes_cons h with ⟨hc, -⟩ | ⟨-, -, hends, -⟩ | ⟨⟨-, -, hc⟩, -⟩
  · rcases hc with hc | hc <;> cases hc
  · cases rest with
    | nil => rfl
    | cons c rest =>
      rw [hends c rfl] at hline
      exact absurd (List.mem_append_right _ List.mem_cons_self) hline
  · exact absurd rfl hc

theorem scansAlike_append {c stop : Cursor} {tail : List Char} (h : Run c stop)
    (hend : stop.ahead = []) (hline : '\n' ∉ c.ahead) (htail : Tokenless tail)
    (hnewline : '\n' ∉ tail) : ScansAlike c.ahead (c.ahead ++ tail) := by
  induction h using Relation.ReflTransGen.head_induction_on with
  | refl =>
    rw [hend]
    exact scansAlike_ended scanLine_nil (scanLine_tokenless htail)
  | head hstep _ ih =>
    cases hstep with
    | @pass passed rest said hpasses behind tokens =>
      dsimp only at hline ih ⊢
      have hrest : '\n' ∉ rest := fun hmem => hline (List.mem_append_right _ hmem)
      by_cases hcomment : passed.head? = some ';'
      · obtain ⟨rfl, comment, rfl⟩ := eq_nil_of_comment hpasses hcomment hline
        rw [List.append_nil]
        exact scansAlike_ended (scanLine_comment · comment) (scanLine_comment · (comment ++ tail))
      · have hpasses' : Passes passed (rest ++ tail) said := by
          rw [← List.append_nil rest] at hpasses
          exact passes_replace hpasses hcomment (endsWord_of_tokenless htail)
        have hline' : '\n' ∉ passed ++ (rest ++ tail) := by
          simp only [List.mem_append, not_or] at hline ⊢
          exact ⟨hline.1, hline.2, hnewline⟩
        rw [List.append_assoc]
        exact scansAlike_passes hpasses hpasses' hline hline' (ih hrest)

theorem scansAlike_respaced {c : Cursor} {front run run' back : List Char}
    {tokens : List (Nat × Token)} (h : Run c ⟨front, run ++ back, tokens⟩) (hrun : IsRun run)
    (hrun' : IsRun run') (hline : '\n' ∉ c.ahead) :
    ∃ mid, c.ahead = mid ++ (run ++ back) ∧
      ScansAlike (mid ++ (run ++ back)) (mid ++ (run' ++ back)) := by
  induction h using Relation.ReflTransGen.head_induction_on with
  | refl =>
    exact ⟨[], rfl, scansAlike_separators hrun hrun' fun hmem =>
      hline (List.mem_append_right _ hmem)⟩
  | head hstep _ ih =>
    cases hstep with
    | @pass passed rest said hpasses behind tokens =>
      dsimp only at hline ih ⊢
      obtain ⟨mid, rfl, halike⟩ := ih fun hmem => hline (List.mem_append_right _ hmem)
      refine ⟨passed ++ mid, by rw [List.append_assoc], ?_⟩
      have hcomment : passed.head? ≠ some ';' := by
        intro hhead
        have hnil := (eq_nil_of_comment hpasses hhead hline).1
        simp only [List.append_eq_nil_iff] at hnil
        exact hrun.ne_nil hnil.2.1
      have hends : EndsWord (run' ++ back) := by
        obtain ⟨c, cs, rfl⟩ := List.exists_cons_of_ne_nil hrun'.ne_nil
        intro c' hc'
        cases hc'
        exact endsWord_of_isSeparator (hrun'.separators c List.mem_cons_self)
      have hline' : '\n' ∉ passed ++ (mid ++ (run' ++ back)) := by
        simp only [List.mem_append, not_or] at hline ⊢
        exact ⟨hline.1, hline.2.1,
          fun hmem => ne_newline_of_isSeparator (hrun'.separators _ hmem) rfl, hline.2.2.2⟩
      rw [List.append_assoc, List.append_assoc]
      exact scansAlike_passes hpasses (passes_replace hpasses hcomment hends) hline hline' halike

/-- An edited line scans like the line. -/
theorem scansAlike_of_lineEdit {line line' : List Char} (h : LineEdit line line')
    (hline : '\n' ∉ line) (hline' : '\n' ∉ line') : ScansAlike line line' := by
  cases h with
  | comment h htail =>
    exact scansAlike_append h rfl hline htail fun hmem => hline' (List.mem_append_right _ hmem)
  | separators h hrun hrun' =>
    obtain ⟨mid, hahead, halike⟩ := scansAlike_respaced h hrun hrun' hline
    obtain rfl := List.append_cancel_right hahead
    exact halike

/-! ## Edits of lines -/

/-- Edits of the lines of a source: a line without tokens is inserted, or one line is edited. -/
inductive Edit : List (List Char) → List (List Char) → Prop
  | insert (front back : List (List Char)) {line : List Char} (h : Tokenless line) :
    Edit (front ++ back) (front ++ line :: back)
  | line (front back : List (List Char)) {line line' : List Char} (h : LineEdit line line') :
    Edit (front ++ line :: back) (front ++ line' :: back)

/-- Lines whose scans give lines that say the same or fail for one cause, wherever they stand. -/
def LinesAlike (texts texts' : List (List Char)) : Prop :=
  ∀ number number' offset offset' done done', contents done = contents done' →
    told contents (scanLines number offset texts done) =
      told contents (scanLines number' offset' texts' done')

theorem linesAlike_nil : LinesAlike [] [] := by
  intro number number' offset offset' done done' hdone
  refine congrArg Except.ok ?_
  rw [contents, contents, List.map_reverse, List.map_reverse]
  exact congrArg List.reverse hdone

theorem linesAlike_cons {cs cs' : List Char} {rest rest' : List (List Char)}
    (h : ScansAlike cs cs') (hrest : LinesAlike rest rest') :
    LinesAlike (cs :: rest) (cs' :: rest') := by
  intro number number' offset offset' done done' hdone
  rw [scanLines, scanLines]
  rcases told_eq_cases (h offset offset' [] [] rfl) with
    ⟨tokens, tokens', hscan, hscan', hsame⟩ | ⟨e, e', hscan, hscan', hcause⟩
  · rw [hscan, hscan']
    refine hrest _ _ _ _ _ _ ?_
    have hempty : tokens.isEmpty = tokens'.isEmpty := by
      rw [← List.isEmpty_map (f := Token.content), ← List.isEmpty_map (l := tokens')]
      exact congrArg List.isEmpty hsame
    rw [hempty]
    split
    · exact hdone
    · exact congrArg₂ List.cons hsame hdone
  · rw [hscan, hscan']
    exact congrArg Except.error hcause

/-- A line without tokens makes no difference. -/
theorem linesAlike_insert {line : List Char} {rest rest' : List (List Char)} (h : Tokenless line)
    (hrest : LinesAlike rest rest') : LinesAlike rest (line :: rest') := by
  intro number number' offset offset' done done' hdone
  rw [scanLines, scanLine_tokenless h]
  exact hrest _ _ _ _ _ _ hdone

theorem linesAlike_refl {texts : List (List Char)} (h : ∀ cs ∈ texts, '\n' ∉ cs) :
    LinesAlike texts texts := by
  induction texts with
  | nil => exact linesAlike_nil
  | cons cs rest ih =>
    obtain ⟨hcs, hrest⟩ := List.forall_mem_cons.mp h
    exact linesAlike_cons (scansAlike_refl hcs) (ih hrest)

/-- Lines that are alike are so behind other lines. -/
theorem linesAlike_append {front back back' : List (List Char)} (h : ∀ cs ∈ front, '\n' ∉ cs)
    (hback : LinesAlike back back') : LinesAlike (front ++ back) (front ++ back') := by
  induction front with
  | nil => exact hback
  | cons cs front ih =>
    obtain ⟨hcs, hfront⟩ := List.forall_mem_cons.mp h
    exact linesAlike_cons (scansAlike_refl hcs) (ih hfront)

theorem linesAlike_of_edit {texts texts' : List (List Char)} (h : Edit texts texts')
    (htexts : ∀ cs ∈ texts, '\n' ∉ cs) (htexts' : ∀ cs ∈ texts', '\n' ∉ cs) :
    LinesAlike texts texts' := by
  cases h with
  | insert front back h =>
    rw [List.forall_mem_append] at htexts
    exact linesAlike_append htexts.1 (linesAlike_insert h (linesAlike_refl htexts.2))
  | line front back h =>
    rw [List.forall_mem_append, List.forall_mem_cons] at htexts htexts'
    obtain ⟨hfront, hline, hback⟩ := htexts
    have halike := scansAlike_of_lineEdit h hline htexts'.2.1
    exact linesAlike_append hfront (linesAlike_cons halike (linesAlike_refl hback))

/-! ## Edits of sources -/

/-- A source that comes from another one by an edit of its lines. -/
def Respaced (source source' : String) : Prop :=
  Edit (splitLines source.toList) (splitLines source'.toList)

theorem told_tokenize_of_respaced {source source' : String} (h : Respaced source source') :
    told contents (tokenize source) = told contents (tokenize source') := by
  obtain ⟨-, -, htexts⟩ := intercalate_splitLines source.toList
  obtain ⟨-, -, htexts'⟩ := intercalate_splitLines source'.toList
  exact linesAlike_of_edit h htexts htexts' 1 1 0 0 [] [] rfl

/-! ## Canonical form -/

/-- Results of a pass over lists that say the same, element by element. -/
theorem told_mapM {α α' β β' γ : Type} {f : α → Except Error β} {f' : α' → Except Error β'}
    {view : β → γ} {view' : β' → γ} {as : List α} {as' : List α'}
    (h : List.Forall₂ (fun a a' => told view (f a) = told view' (f' a')) as as') :
    told (List.map view) (as.mapM f) = told (List.map view') (as'.mapM f') := by
  induction h with
  | nil => rfl
  | @cons a a' as as' hhead _ ih =>
    rw [List.mapM_cons, List.mapM_cons]
    rcases told_eq_cases hhead with ⟨b, b', hb, hb', hview⟩ | ⟨e, e', he, he', hcause⟩
    · rcases told_eq_cases ih with ⟨bs, bs', hbs, hbs', hviews⟩ | ⟨e, e', he, he', hcause⟩
      · rw [hb, hb', hbs, hbs']
        exact congrArg Except.ok (congrArg₂ List.cons hview hviews)
      · rw [hb, hb', he, he']
        exact congrArg Except.error hcause
    · rw [he, he']
      exact congrArg Except.error hcause

theorem told_canonicalToken {t t' : Token} (h : t.content = t'.content) :
    told Token.content (canonicalToken t) = told Token.content (canonicalToken t') := by
  obtain ⟨kind, text, span⟩ := t
  obtain ⟨kind', text', span'⟩ := t'
  cases h
  unfold canonicalToken
  dsimp only
  split
  · rfl
  · split <;> rfl
  · cases canonicalWord text <;> rfl

theorem told_canonicalLine {line line' : Line}
    (h : contentsOf line.tokens = contentsOf line'.tokens) :
    told (contentsOf ·.tokens) (canonicalLine line) =
      told (contentsOf ·.tokens) (canonicalLine line') := by
  have hplaced : ∀ (line : Line) (t : Token),
      told Token.content ((canonicalToken t).mapError fun e =>
        (e.atLine line.number).atSpan t.span) = told Token.content (canonicalToken t) := by
    intro line t
    cases canonicalToken t <;> rfl
  have htokens : told contentsOf (line.tokens.mapM fun t =>
        (canonicalToken t).mapError fun e => (e.atLine line.number).atSpan t.span) =
      told contentsOf (line'.tokens.mapM fun t =>
        (canonicalToken t).mapError fun e => (e.atLine line'.number).atSpan t.span) := by
    refine told_mapM ((List.forall₂_of_map_eq_map h).imp fun t t' ht => ?_)
    rw [hplaced, hplaced, told_canonicalToken ht]
  unfold canonicalLine
  rcases told_eq_cases htokens with ⟨ts, ts', hts, hts', hsame⟩ | ⟨e, e', he, he', hcause⟩
  · rw [hts, hts']
    exact congrArg Except.ok hsame
  · rw [he, he']
    exact congrArg Except.error hcause

/-- What a source says in canonical form is a matter of what its tokens say. -/
theorem told_read {source source' : String}
    (h : told contents (tokenize source) = told contents (tokenize source')) :
    told contents (read source) = told contents (read source') := by
  unfold read
  rcases told_eq_cases h with ⟨lines, lines', hlines, hlines', hsame⟩ | ⟨e, e', he, he', hcause⟩
  · rw [hlines, hlines']
    have hlines := List.forall₂_of_map_eq_map hsame
    exact told_mapM (hlines.imp fun _ _ hline => told_canonicalLine hline)
  · rw [he, he']
    exact congrArg Except.error hcause

/-- What a source says does not change by edits of its spacing. -/
theorem told_read_of_respaced {source source' : String}
    (h : Relation.EqvGen Respaced source source') :
    told contents (read source) = told contents (read source') := by
  induction h with
  | rel _ _ hedit => exact told_read (told_tokenize_of_respaced hedit)
  | refl => rfl
  | symm _ _ _ ih => exact ih.symm
  | trans _ _ _ _ _ ih ih' => exact ih.trans ih'

end TeachingCpu.Source
