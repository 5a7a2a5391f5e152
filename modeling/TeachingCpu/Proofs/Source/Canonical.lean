import TeachingCpu.Proofs.Listing.Pieces

/-!
# Words in canonical form

What the canonical form of a word can be: the word itself, or a number behind a sigil. Names and
dotted names are in canonical form, save for the named signals, and canonical words stay as they
are.
-/

namespace TeachingCpu

open Draft (isIdentifier)

/-- A named signal is a name, and a small number. -/
theorem isIdentifier_and_le_of_signal? {text : String} {n : Nat} (h : signal? text = some n) :
    isIdentifier text ∧ n ≤ 10 := by
  unfold signal? at h
  split at h
  · next interrupt hfind =>
    have hname := List.find?_some hfind
    rw [beq_iff_eq] at hname
    rw [← hname, ← Option.some.inj h]
    cases interrupt <;> exact ⟨rfl, by decide⟩
  · obtain ⟨operation, hfind, hcode⟩ := Option.map_eq_some_iff.mp h
    have hname := List.find?_some hfind
    rw [beq_iff_eq] at hname
    rw [← hname, ← hcode]
    cases operation <;> exact ⟨rfl, by decide⟩

namespace Source

theorem toList_sigiled (sigil : Char) (n : Nat) :
    (sigiled sigil n).toList = sigil :: (toString n).toList := by
  rw [sigiled, String.toList_append, Char.toString_eq_singleton, String.toList_singleton]
  rfl

theorem exists_of_map_integer {cs : List Char} {sigil : Char} {word : String}
    (h : (integer cs).map (sigiled sigil) = .ok word) : ∃ n, word = sigiled sigil n := by
  cases hinteger : integer cs with
  | error e =>
    rw [hinteger] at h
    cases h
  | ok n =>
    rw [hinteger] at h
    exact ⟨n, (Except.ok.inj h).symm⟩

/-- The canonical form of a word is the word, or a number behind a sigil. -/
theorem canonicalWord_cases {word word' : String} (h : canonicalWord word = .ok word') :
    word' = word ∨ ∃ sigil n, takesNumber sigil ∧ word' = sigiled sigil n := by
  unfold canonicalWord at h
  dsimp only at h
  split at h
  · obtain ⟨n, hn⟩ := exists_of_map_integer h
    exact .inr ⟨'$', n, rfl, hn⟩
  · split at h
    · obtain ⟨n, hn⟩ := exists_of_map_integer h
      exact .inr ⟨'&', n, rfl, hn⟩
    · split at h
      · exact .inl (Except.ok.inj h).symm
      · next c rest _ =>
        split at h
        · next hsigil =>
          split at h
          · obtain ⟨n, hn⟩ := exists_of_map_integer h
            exact .inr ⟨c, n, hsigil, hn⟩
          · exact .inl (Except.ok.inj h).symm
        · split at h
          · next n _ => exact .inr ⟨'$', n, rfl, (Except.ok.inj h).symm⟩
          · exact .inl (Except.ok.inj h).symm

/-- Only a named signal changes where a word starts neither as a number nor with a sigil. -/
theorem canonicalWord_of_head {word : String} {c : Char} {rest : List Char}
    (htext : word.toList = c :: rest) (hzero : c ≠ '0') (hbracket : c ≠ '[')
    (hsigil : takesNumber c = false) :
    canonicalWord word = .ok (((signal? word).map (sigiled '$')).getD word) := by
  have hhex : Text.startsHex word.toList = false := by
    rw [htext]
    exact startsHex_cons_of_ne hzero rest
  have hbrackets : bracketed? word.toList = none := by
    rw [htext]
    unfold bracketed?
    split
    · next heq => exact absurd (List.cons.inj heq).1 hbracket
    · rfl
  unfold canonicalWord
  simp only [hhex, hbrackets, Bool.false_eq_true, if_false]
  rw [htext]
  dsimp only
  rw [if_neg (by simp [hsigil])]
  cases signal? word <;> rfl

theorem canonicalWord_identifier {name : String} (h : isIdentifier name) :
    canonicalWord name = .ok (((signal? name).map (sigiled '$')).getD name) := by
  obtain ⟨c, rest, htext, hc, -⟩ := Draft.exists_of_isIdentifier h
  refine canonicalWord_of_head htext ?_ ?_ ?_
  · rintro rfl
    cases hc
  · rintro rfl
    cases hc
  · by_contra hsigil
    simp only [takesNumber, Bool.not_eq_false, Bool.or_eq_true, beq_iff_eq] at hsigil
    rcases hsigil with (rfl | rfl) | rfl <;> cases hc

/-- A name is written as it is, unless it is the name of a signal. -/
theorem canonical_of_isIdentifier {name : String} (h : isIdentifier name)
    (hsignal : signal? name = none) : (Piece.word name).Canonical := by
  have hword := canonicalWord_identifier h
  rw [hsignal] at hword
  refine ⟨⟨?_, fun c hc => ?_, ?_⟩, hword⟩
  · obtain ⟨c, rest, htext, -⟩ := Draft.exists_of_isIdentifier h
    rw [htext]
    exact List.cons_ne_nil c rest
  · exact endsWord_of_inName (Draft.inName_of_isIdentifier h c hc)
  · intro hquote
    have hname := Draft.inName_of_isIdentifier h charQuote (List.mem_of_head? hquote)
    cases hname

/-- A word with a dot in front stays as it is. -/
theorem canonicalWord_dotted {word : String} {rest : List Char}
    (htext : word.toList = '.' :: rest) : canonicalWord word = .ok word := by
  rw [canonicalWord_of_head htext (by decide) (by decide) rfl,
    signal?_of_head htext (by decide) (by decide)]
  rfl

theorem canonicalWord_sigiled {sigil : Char} (h : takesNumber sigil) (n : Nat) :
    (Piece.word (sigiled sigil n)).Canonical := by
  have hsigil : sigil.toString.toList = [sigil] := by
    rw [Char.toString_eq_singleton, String.toList_singleton]
  simp only [takesNumber, Bool.or_eq_true, beq_iff_eq] at h
  refine canonical_sigil_number rfl hsigil ?_ ?_
  · rcases h with (rfl | rfl) | rfl <;> decide
  · rcases h with (rfl | rfl) | rfl <;> decide

/-! ## Tokens -/

section Tokens

variable {t t' : Token} (h : canonicalToken t = .ok t')

include h

/-- The canonical form of a token is the token, or a number behind a sigil if the token is not in
canonical form. -/
theorem canonicalToken_cases :
    t' = t ∨ (t'.kind = .word ∧ ∃ sigil n, takesNumber sigil ∧ t'.text = sigiled sigil n) ∧
      (t.kind = .word → canonicalWord t.text ≠ .ok t.text) := by
  obtain ⟨kind, text, span⟩ := t
  cases kind with
  | str => exact .inl (Except.ok.inj h).symm
  | char =>
    unfold canonicalToken at h
    dsimp only at h
    split at h
    · next b _ =>
      cases h
      exact .inr ⟨⟨rfl, '$', b.toNat, rfl, rfl⟩, nofun⟩
    · cases h
  | word =>
    change (canonicalWord text).map _ = _ at h
    cases hword : canonicalWord text with
    | error e =>
      rw [hword] at h
      cases h
    | ok text' =>
      rw [hword] at h
      cases h
      by_cases hsame : text' = text
      · exact .inl (by rw [hsame])
      · refine .inr ⟨⟨rfl, (canonicalWord_cases hword).resolve_left hsame⟩, fun _ hok => ?_⟩
        exact hsame (Except.ok.inj hok)

/-- Words that are in canonical form and have no sigil come from no other token. -/
theorem isWord_of_canonicalToken {word : String} {c : Char} {rest : List Char}
    (hword : canonicalWord word = .ok word) (htext : word.toList = c :: rest)
    (hsigil : takesNumber c = false) : t'.isWord word = t.isWord word := by
  rcases canonicalToken_cases h with rfl | ⟨⟨-, sigil, n, hc, hnumber⟩, hother⟩
  · rfl
  · have hleft : t'.isWord word = false := by
      rw [Token.isWord, Bool.and_eq_false_iff]
      right
      rw [beq_eq_false_iff_ne, hnumber]
      rintro rfl
      rw [toList_sigiled] at htext
      rw [(List.cons.inj htext).1, hsigil] at hc
      cases hc
    have hright : t.isWord word = false := by
      by_contra hne
      simp only [Token.isWord, Bool.not_eq_false, Bool.and_eq_true, beq_iff_eq] at hne
      obtain ⟨hkind, rfl⟩ := hne
      exact hother hkind hword
    rw [hleft, hright]

end Tokens

/-- The lines of a source are those of its tokens, in canonical form. -/
theorem exists_tokenize_of_read {source : String} {lines : List Line}
    (h : read source = .ok lines) :
    ∃ raw, tokenize source = .ok raw ∧
      List.Forall₂ (fun line line' => line'.number = line.number ∧
        List.Forall₂ (fun t t' => canonicalToken t = .ok t') line.tokens line'.tokens)
        raw lines := by
  obtain ⟨raw, hraw, hlines⟩ := Except.bind_eq_ok_iff.mp h
  refine ⟨raw, hraw, (Except.forall₂_of_mapM hlines).imp fun line line' hline => ?_⟩
  obtain ⟨tokens, htokens, hsame⟩ := Except.bind_eq_ok_iff.mp hline
  cases hsame
  refine ⟨rfl, (Except.forall₂_of_mapM htokens).imp fun t t' ht => ?_⟩
  cases hcase : canonicalToken t with
  | ok t'' =>
    rw [hcase] at ht
    exact ht
  | error e =>
    rw [hcase] at ht
    cases ht

end Source

end TeachingCpu
