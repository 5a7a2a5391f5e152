import TeachingCpu.Proofs.Assembly.Lay
import TeachingCpu.Proofs.Attempt.Agree

/-!
# Lines that say the same

Where the tokens of a line stand matters for errors only. If the first pass takes a line into a data
block, it takes every line that says the same, and it does so whatever the code in front of the
block is: labels, statements and the length of the code are neither looked at nor changed
(`addData_setCode`).
-/

namespace TeachingCpu

namespace Draft

/-! ## Tokens -/

section Tokens

variable {t t' : Token}

theorem isWord_of_same (h : t'.content = t.content) (word : String) :
    t'.isWord word = t.isWord word := by
  have hkind : t'.kind = t.kind := congrArg Prod.fst h
  have htext : t'.text = t.text := congrArg Prod.snd h
  rw [Token.isWord, Token.isWord, hkind, htext]

theorem labelName?_of_same (h : t'.content = t.content) : labelName? t' = labelName? t := by
  have hkind : t'.kind = t.kind := congrArg Prod.fst h
  have htext : t'.text = t.text := congrArg Prod.snd h
  rw [labelName?, labelName?, hkind, htext]

/-- Whether a token opens a data block is a matter of what it says. -/
theorem opensData_iff_of_same (h : t'.content = t.content) :
    (t'.kind = .word ∧ Text.lower t'.text = dataWord) ↔
      (t.kind = .word ∧ Text.lower t.text = dataWord) := by
  have hkind : t'.kind = t.kind := congrArg Prod.fst h
  have htext : t'.text = t.text := congrArg Prod.snd h
  rw [hkind, htext]

/-- The number that a value denotes is a matter of what the token says. -/
theorem told_value (h : t'.content = t.content) (max : Nat) :
    told id (value t max) = told id (value t' max) := by
  obtain ⟨kind, text, span⟩ := t
  obtain ⟨kind', text', span'⟩ := t'
  cases h
  unfold value
  dsimp only
  split
  · split
    · split <;> rfl
    · rfl
  · rfl

/-- The bytes of a string are a matter of what the token says. -/
theorem told_stringBytes (h : t'.content = t.content) :
    told id (stringBytes t) = told id (stringBytes t') := by
  obtain ⟨kind, text, span⟩ := t
  obtain ⟨kind', text', span'⟩ := t'
  cases h
  unfold stringBytes
  dsimp only
  split <;> rfl

theorem value_of_same (h : t'.content = t.content) {max n : Nat} (hvalue : value t max = .ok n) :
    value t' max = .ok n :=
  eq_ok_of_told (told_value h max) hvalue

theorem stringBytes_of_same (h : t'.content = t.content) {bytes : List UInt8}
    (hbytes : stringBytes t = .ok bytes) : stringBytes t' = .ok bytes :=
  eq_ok_of_told (told_stringBytes h) hbytes

/-- Lines that say the same are of the same words up to one of them, and from there on. -/
theorem split_of_same {tokens tokens' : List Token} (word : String)
    (h : tokens'.map Token.content = tokens.map Token.content) :
    (tokens'.takeWhile (!Token.isWord · word)).map Token.content =
        (tokens.takeWhile (!Token.isWord · word)).map Token.content ∧
      (tokens'.dropWhile (!Token.isWord · word)).map Token.content =
        (tokens.dropWhile (!Token.isWord · word)).map Token.content := by
  have hword : (fun t : Token => !t.isWord word) =
      (fun said : TokenKind × String => !(said.1 == .word && said.2 == word)) ∘ Token.content := rfl
  rw [hword, ← List.takeWhile_map, ← List.takeWhile_map, ← List.dropWhile_map,
    ← List.dropWhile_map, h]
  exact ⟨rfl, rfl⟩

end Tokens

/-! ## Inside a data block -/

/-- A draft with other code. -/
def setCode (d : Draft) (c : SymbolTable × List Statement × Nat) : Draft :=
  { d with labels := c.1, statements := c.2.1, romLength := c.2.2 }

section Data

variable {d d' : Draft} (c : SymbolTable × List Statement × Nat)

theorem writeGroup_setCode {bytes : List UInt8} {anchor : Option Token} (anchor' : Option Token)
    (h : writeGroup bytes anchor d = .ok () d') :
    writeGroup bytes anchor' (d.setCode c) = .ok () (d'.setCode c) := by
  obtain ⟨hfits, rfl⟩ := writeGroup_eq_ok_iff.mp h
  exact writeGroup_eq_ok_iff.mpr ⟨hfits, rfl⟩

theorem writeValues_setCode {values values' : List Token}
    {group group' : Option (Token × List UInt8)}
    (hsame : values'.map Token.content = values.map Token.content)
    (hgroup : group'.map Prod.snd = group.map Prod.snd)
    (h : writeValues values group d = .ok () d') :
    writeValues values' group' (d.setCode c) = .ok () (d'.setCode c) := by
  induction values generalizing values' group group' d with
  | nil =>
    obtain rfl := List.map_eq_nil_iff.mp hsame
    cases group with
    | none =>
      obtain rfl := Option.map_eq_none_iff.mp hgroup
      cases h
      rfl
    | some numbers =>
      obtain ⟨numbers', rfl, hnumbers⟩ := Option.map_eq_some_iff.mp hgroup
      rw [writeValues, hnumbers]
      exact writeGroup_setCode c _ h
  | cons t rest ih =>
    obtain ⟨t', rest', rfl, ht, hrest⟩ := List.map_eq_cons_iff.mp hsame
    have hkind : t'.kind = t.kind := congrArg Prod.fst ht
    by_cases hstr : t.kind = .str
    · obtain ⟨d₁, bytes, hnone, hpending, hbytes, hfits, hafter⟩ := exists_writeGroup_of_str hstr h
      have hput : writeGroup bytes none d₁ = .ok () (d₁.putGroup bytes) :=
        writeGroup_eq_ok_iff.mpr ⟨hfits, rfl⟩
      have hstring : (do
          let bytes ← Attempt.ofExcept (stringBytes t')
          writeGroup bytes (some t')
          writeValues rest' none) (d₁.setCode c) = .ok () (d'.setCode c) := by
        rw [stringBytes_of_same ht hbytes, Attempt.ofExcept_ok_bind_apply,
          Attempt.bind_of_ok (writeGroup_setCode c (some t') hput)]
        exact ih hrest rfl hafter
      unfold writeValues
      rw [if_pos (hkind.trans hstr)]
      cases group with
      | none =>
        obtain rfl := Option.map_eq_none_iff.mp hgroup
        rw [hnone rfl] at hstring
        exact hstring
      | some numbers =>
        obtain ⟨numbers', rfl, hnumbers⟩ := Option.map_eq_some_iff.mp hgroup
        have hwrite := writeGroup_setCode c (some t') (hpending numbers rfl)
        rw [← hnumbers] at hwrite
        dsimp only
        rw [Attempt.bind_of_ok hwrite]
        exact hstring
    · obtain ⟨n, hvalue, hafter⟩ := exists_value_of_number hstr h
      unfold writeValues
      rw [if_neg (hkind ▸ hstr), value_of_same ht hvalue, Attempt.ofExcept_ok_bind_apply]
      cases group with
      | none =>
        obtain rfl := Option.map_eq_none_iff.mp hgroup
        refine ih hrest ?_ hafter
        rfl
      | some pending =>
        obtain ⟨⟨anchor', numbers⟩, rfl, hnumbers⟩ := Option.map_eq_some_iff.mp hgroup
        obtain ⟨anchor, _⟩ := pending
        cases hnumbers
        refine ih hrest ?_ hafter
        rfl

theorem writeAll_setCode {values values' : List Token}
    (hsame : values'.map Token.content = values.map Token.content)
    (h : writeAll values d = .ok () d') :
    writeAll values' (d.setCode c) = .ok () (d'.setCode c) := by
  have hempty : values'.isEmpty = values.isEmpty := by
    rw [← List.isEmpty_map (f := Token.content), hsame, List.isEmpty_map]
  unfold writeAll at h ⊢
  rw [hempty]
  split at h
  · next hnone =>
    rw [if_pos hnone]
    exact writeGroup_setCode c none h
  · next hsome =>
    rw [if_neg hsome]
    exact writeValues_setCode c hsame rfl h

theorem closeData_setCode {rest rest' : List Token}
    (hsame : rest'.map Token.content = rest.map Token.content)
    (h : closeData rest d = .ok () d') :
    closeData rest' (d.setCode c) = .ok () (d'.setCode c) := by
  obtain ⟨rfl, rfl⟩ := closeData_eq_ok h
  obtain rfl := List.map_eq_nil_iff.mp hsame
  exact closeData_nil _

theorem finishVariable_setCode {rest rest' : List Token}
    (hsame : rest'.map Token.content = rest.map Token.content)
    (h : finishVariable rest d = .ok () d') :
    finishVariable rest' (d.setCode c) = .ok () (d'.setCode c) := by
  have hdrop := (split_of_same endWord hsame).2
  unfold finishVariable at h ⊢
  cases hcase : rest.dropWhile (!Token.isWord · endWord) with
  | nil =>
    rw [hcase] at h hdrop
    rw [List.map_eq_nil_iff.mp hdrop]
    cases h
    rfl
  | cons word after =>
    rw [hcase] at h hdrop
    obtain ⟨word', after', hcase', -, hafter⟩ := List.map_eq_cons_iff.mp hdrop
    rw [hcase']
    exact closeData_setCode c hafter h

/-- What the first pass takes inside a data block, it takes behind other code as well. -/
theorem addData_setCode {tokens tokens' : List Token}
    (hsame : tokens'.map Token.content = tokens.map Token.content)
    (h : addData tokens d = .ok () d') :
    addData tokens' (d.setCode c) = .ok () (d'.setCode c) := by
  induction tokens using addData.induct generalizing tokens' d with
  | case1 =>
    obtain rfl := List.map_eq_nil_iff.mp hsame
    cases h
    rfl
  | case2 first rest hend =>
    obtain ⟨first', rest', rfl, hfirst, hrest⟩ := List.map_eq_cons_iff.mp hsame
    rw [addData_end rest hend] at h
    rw [addData_end rest' ((isWord_of_same hfirst _).trans hend)]
    exact closeData_setCode c hrest h
  | case3 first hend horigin =>
    rw [addData, if_neg hend, if_pos horigin] at h
    cases h
  | case4 first hend horigin address rest ih =>
    obtain ⟨first', _, rfl, hfirst, hbehind⟩ := List.map_eq_cons_iff.mp hsame
    obtain ⟨address', rest', rfl, haddress, hrest⟩ := List.map_eq_cons_iff.mp hbehind
    rw [Bool.not_eq_true] at hend
    obtain ⟨base, hvalue, hbase, hafter⟩ := (addData_origin_eq_ok_iff hend horigin).mp h
    have hvalue' := value_of_same haddress hvalue
    exact (addData_origin_eq_ok_iff ((isWord_of_same hfirst _).trans hend)
      ((isWord_of_same hfirst _).trans horigin)).mpr ⟨base, hvalue', hbase, ih hrest hafter⟩
  | case5 first rest hend horigin =>
    obtain ⟨first', rest', rfl, hfirst, hrest⟩ := List.map_eq_cons_iff.mp hsame
    rw [Bool.not_eq_true] at hend horigin
    rw [addData_variable rest hend horigin] at h
    rw [addData_variable rest' ((isWord_of_same hfirst _).trans hend)
      ((isWord_of_same hfirst _).trans horigin)]
    have hkind : first'.kind = first.kind := congrArg Prod.fst hfirst
    have htext : first'.text = first.text := congrArg Prod.snd hfirst
    obtain ⟨hname, d₁, hwrite, hfinish⟩ := addVariable_eq_ok_iff.mp h
    rw [addVariable_eq_ok_iff, hkind, htext]
    exact ⟨hname, d₁.setCode c, writeAll_setCode c (split_of_same endWord hrest).1 hwrite,
      finishVariable_setCode c hrest hfinish⟩

/-- Data leave the code alone. -/
theorem code_of_addData {tokens : List Token} (h : addData tokens d = .ok () d') :
    d'.code = d.code := by
  have hsame := addData_setCode d.code rfl h
  change addData tokens d = .ok () (d'.setCode d.code) at hsame
  rw [h] at hsame
  obtain ⟨-, hdraft⟩ := EStateM.Result.ok.inj hsame
  have hcode : d'.code = (d'.setCode d.code).code := congrArg code hdraft
  exact hcode

end Data

end Draft

end TeachingCpu
