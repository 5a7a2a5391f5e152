import TeachingCpu.Proofs.Assembly.Draft
import TeachingCpu.Proofs.Listing.Pieces

/-!
# Laying out lines that were written

`Lays P pieces Q` says that the first pass takes the lines that some pieces make up, and leads
from a draft with `P` to one with `Q`. There is one such rule for each kind of line: the ends of a
data block, a declaration, a label, and a statement.
-/

namespace TeachingCpu

open Source (Piece Reads)

theorem Token.isWord_of_content {t : Token} {text : String} (h : t.content = (.word, text))
    (word : String) : t.isWord word = (text == word) := by
  obtain ⟨kind, text', span⟩ := t
  cases h
  rfl

theorem Token.kind_of_content {t : Token} {kind : TokenKind} {text : String}
    (h : t.content = (kind, text)) : t.kind = kind := congrArg Prod.fst h

theorem Token.text_of_content {t : Token} {kind : TokenKind} {text : String}
    (h : t.content = (kind, text)) : t.text = text := congrArg Prod.snd h

namespace Draft

/-- The first pass takes the lines that some pieces make up, and leads from a draft with one
property to one with another. Lines without pieces are left out. -/
def Lays (P : Draft → Prop) (pieces : List (List Piece)) (Q : Draft → Prop) : Prop :=
  ∀ lines d, List.Forall₂ Reads lines (pieces.filter (!List.isEmpty ·)) → P d →
    ∃ d', lines.forM addLine d = .ok () d' ∧ Q d'

section Lays

variable {P Q R : Draft → Prop}

theorem lays_nil (h : ∀ d, P d → Q d) : Lays P [] Q := by
  intro lines d hlines hd
  cases hlines
  exact ⟨d, rfl, h d hd⟩

theorem forM_append (front back : List Line) (d : Draft) :
    (front ++ back).forM addLine d =
      (front.forM addLine >>= fun _ => back.forM addLine) d := by
  induction front generalizing d with
  | nil => rfl
  | cons line rest ih =>
    change (addLine line >>= fun _ => (rest ++ back).forM addLine) d =
      ((addLine line >>= fun _ => rest.forM addLine) >>= fun _ => back.forM addLine) d
    rw [bind_assoc]
    cases hline : addLine line d with
    | ok _ d₁ =>
      rw [Attempt.bind_of_ok hline, Attempt.bind_of_ok hline]
      exact ih d₁
    | error e d₁ => rw [Attempt.bind_of_error hline, Attempt.bind_of_error hline]

theorem Lays.append {front back : List (List Piece)} (h : Lays P front Q) (h' : Lays Q back R) :
    Lays P (front ++ back) R := by
  intro lines d hlines hd
  rw [List.filter_append] at hlines
  obtain ⟨d₁, hfront, hd₁⟩ := h _ d (List.forall₂_take_append lines _ _ hlines) hd
  obtain ⟨d₂, hback, hd₂⟩ := h' _ d₁ (List.forall₂_drop_append lines _ _ hlines) hd₁
  refine ⟨d₂, ?_, hd₂⟩
  rw [← List.take_append_drop (front.filter (!List.isEmpty ·)).length lines, forM_append,
    Attempt.bind_of_ok hfront]
  exact hback

theorem Lays.cons {line : List Piece} {rest : List (List Piece)} (h : Lays P [line] Q)
    (h' : Lays Q rest R) : Lays P (line :: rest) R :=
  h.append h'

theorem Lays.imp {pieces : List (List Piece)} (h : Lays P pieces Q) (hQ : ∀ d, Q d → R d) :
    Lays P pieces R := by
  intro lines d hlines hd
  obtain ⟨d', hrun, hd'⟩ := h lines d hlines hd
  exact ⟨d', hrun, hQ d' hd'⟩

/-- Groups of lines, one for each element of a list, keep an invariant on the elements so far. -/
theorem lays_flatMap {α : Type} {f : α → List (List Piece)} (I : List α → Draft → Prop)
    {xs : List α} (h : ∀ done x rest, xs = done ++ x :: rest →
      Lays (I done) (f x) (I (done ++ [x]))) :
    Lays (I []) (xs.flatMap f) (I xs) := by
  have hfrom : ∀ done rest, xs = done ++ rest → Lays (I done) (rest.flatMap f) (I xs) := by
    intro done rest
    induction rest generalizing done with
    | nil =>
      intro hxs
      rw [List.append_nil] at hxs
      rw [hxs]
      exact lays_nil fun d hd => hd
    | cons x rest ih =>
      intro hxs
      refine (h done x rest hxs).append (ih (done ++ [x]) ?_)
      rw [hxs, List.append_assoc]
      rfl
  exact hfrom [] xs rfl

/-- A single line. -/
theorem lays_line {piece : Piece} {rest : List Piece}
    (h : ∀ line d, Reads line (piece :: rest) → P d →
      ∃ d', addLine line d = .ok () d' ∧ Q d') : Lays P [piece :: rest] Q := by
  intro lines d hlines hd
  obtain ⟨line, none, hline, hnone, rfl⟩ := List.forall₂_cons_right_iff.mp hlines
  cases hnone
  obtain ⟨d', hadd, hd'⟩ := h line d hline hd
  refine ⟨d', ?_, hd'⟩
  change (addLine line >>= fun _ => pure ()) d = _
  rw [Attempt.bind_of_ok hadd]
  rfl

theorem lays_empty_line (h : ∀ d, P d → Q d) : Lays P [[]] Q := by
  intro lines d hlines hd
  cases hlines
  exact ⟨d, rfl, h d hd⟩

/-! ## Inside a data block -/

theorem addLine_data {line : Line} {d : Draft} (h : d.position.isSome) :
    addLine line d = Attempt.mapError (·.atLine line.number) (addData line.tokens) d := by
  unfold addLine Attempt.mapError
  rw [Attempt.get_bind_apply, if_pos h]

theorem addLine_data_eq_ok_iff {line : Line} {d d' : Draft} (h : d.position.isSome) :
    addLine line d = .ok () d' ↔ addData line.tokens d = .ok () d' := by
  rw [addLine_data h, Attempt.mapError_eq_ok]

/-- A number that is written without a sigil. -/
theorem value_of_content {t : Token} {n max : Nat} (h : t.content = (.word, toString n))
    (hle : n ≤ max) (hbound : n < Text.integerBound) : value t max = .ok n := by
  have hdigit : ∀ c ∈ (toString n).toList, c.isDigit := fun c hc =>
    Text.isDigit_of_mem_toString hc
  have hread := Text.readIntegerChars?_toString hbound
  rw [← Token.text_of_content h] at hdigit hread
  unfold value
  dsimp only
  rw [if_pos (Token.kind_of_content h)]
  generalize t.text.toList = cs at hdigit hread
  -- The text starts with a digit, so it has no sigil.
  have hnosigil : ∀ rest, cs ≠ '$' :: rest := by
    intro rest heq
    subst heq
    exact absurd (hdigit '$' List.mem_cons_self) (by decide)
  split
  · next m hm =>
    split at hm
    · exact absurd rfl (hnosigil _)
    · rw [hread] at hm
      cases hm
      exact if_pos hle
  · next hm =>
    split at hm
    · exact absurd rfl (hnosigil _)
    · rw [hread] at hm
      cases hm

/-- A line that moves the position. -/
theorem addData_origin_of_content {first address : Token} {a : Nat} {d : Draft}
    (hfirst : first.content = (.word, "org")) (haddress : address.content = (.word, toString a))
    (ha : a ≤ 65535) (hlast : a ≤ d.memory.layout.lastAddressable.toNat) :
    addData [first, address] d = .ok () { d with position := some a } := by
  have hend : first.isWord endWord = false := first.isWord_of_content hfirst _
  have horigin : first.isWord originWord = true := first.isWord_of_content hfirst _
  rw [addData_origin_eq_ok_iff hend horigin]
  exact ⟨a, value_of_content haddress ha (Text.lt_integerBound ha), hlast, rfl⟩

/-- A byte that is written as a number. -/
theorem value_of_byte {t : Token} {b : UInt8} (h : t.content = (.word, toString b.toNat)) :
    t.kind ≠ .str ∧ value t 255 = .ok b.toNat := by
  have hb := b.toNat_lt
  refine ⟨?_, value_of_content h (by omega) (Text.toNat_lt_integerBound b)⟩
  rw [Token.kind_of_content h]
  exact TokenKind.noConfusion

/-- Numbers that are values are one group. -/
theorem writeValues_numbers {bytes : List UInt8} {values : List Token}
    (h : values.map Token.content = bytes.map fun b => (.word, toString b.toNat))
    (last : Token) (numbers : List UInt8) :
    ∃ anchor, writeValues values (some (last, numbers)) =
      writeGroup (numbers.reverse ++ bytes) anchor := by
  induction bytes generalizing values last numbers with
  | nil =>
    rw [List.map_nil, List.map_eq_nil_iff] at h
    subst h
    exact ⟨some last, by rw [writeValues, List.append_nil]⟩
  | cons b bytes ih =>
    cases values with
    | nil => cases h
    | cons t values =>
      rw [List.map_cons, List.map_cons, List.cons.injEq] at h
      obtain ⟨hkind, hvalue⟩ := value_of_byte h.1
      obtain ⟨anchor, hrest⟩ := ih h.2 t (b :: numbers)
      refine ⟨anchor, ?_⟩
      rw [writeValues, if_neg hkind, hvalue]
      change writeValues values (some (t, b.toNat.toUInt8 :: numbers)) = _
      rw [Nat.toUInt8_eq, UInt8.ofNat_toNat, hrest, List.reverse_cons, List.append_assoc]
      rfl

theorem stringBytes_of_content {t : Token} {bytes : List UInt8}
    (h : t.content = (.str, Text.ofBytes bytes)) : stringBytes t = .ok bytes := by
  unfold stringBytes
  rw [Token.text_of_content h, Text.toBytes_ofBytes]

/-- A string literal is one group. -/
theorem writeAll_literal {bytes : List UInt8} {t : Token}
    (h : t.content = (.str, Text.ofBytes bytes)) :
    writeAll [t] = writeGroup bytes (some t) := by
  have hbytes : Attempt.ofExcept (stringBytes t) = (pure bytes : Attempt Draft _) := by
    rw [stringBytes_of_content h]
    rfl
  have hdone : writeValues [] none = pure () := rfl
  show writeValues [t] none = _
  rw [writeValues, if_pos (Token.kind_of_content h), hbytes, hdone]
  simp only [pure_bind, bind_pure_unit]

/-- Numbers are one group. -/
theorem writeAll_numbers {b : UInt8} {bytes : List UInt8} {values : List Token}
    (h : values.map Token.content = (b :: bytes).map fun b => (.word, toString b.toNat)) :
    ∃ anchor, writeAll values = writeGroup (b :: bytes) anchor := by
  cases values with
  | nil => cases h
  | cons t rest =>
    rw [List.map_cons, List.map_cons, List.cons.injEq] at h
    obtain ⟨hkind, hvalue⟩ := value_of_byte h.1
    obtain ⟨anchor, hrest⟩ := writeValues_numbers h.2 t [b]
    refine ⟨anchor, ?_⟩
    show writeValues (t :: rest) none = _
    rw [writeValues, if_neg hkind, hvalue]
    show writeValues rest (some (t, [b.toNat.toUInt8])) = _
    rw [Nat.toUInt8_eq, UInt8.ofNat_toNat, hrest]
    rfl

/-- Values that were written for some bytes are one group. -/
theorem writeAll_valuePieces {bytes : List UInt8} {values : List Token}
    (h : values.map Token.content = (Listing.valuePieces bytes).map Piece.content) :
    ∃ anchor, writeAll values = writeGroup bytes anchor := by
  unfold Listing.valuePieces at h
  by_cases hempty : bytes.isEmpty = true
  · rw [if_pos hempty, List.map_nil, List.map_eq_nil_iff] at h
    rw [List.isEmpty_iff] at hempty
    subst h hempty
    exact ⟨none, rfl⟩
  · rw [if_neg hempty] at h
    by_cases htext : bytes.all Listing.isTextByte = true
    · rw [if_pos htext] at h
      cases values with
      | nil => cases h
      | cons t rest =>
        rw [List.map_cons, List.map_cons, List.cons.injEq, List.map_nil,
          List.map_eq_nil_iff] at h
        obtain ⟨ht, rfl⟩ := h
        exact ⟨some t, writeAll_literal ht⟩
    · rw [if_neg htext, List.map_map] at h
      cases bytes with
      | nil => exact absurd rfl hempty
      | cons b bytes => exact writeAll_numbers h

theorem takeWhile_valuePieces {bytes : List UInt8} {values : List Token}
    (h : values.map Token.content = (Listing.valuePieces bytes).map Piece.content) :
    values.takeWhile (!Token.isWord · endWord) = values ∧
      values.dropWhile (!Token.isWord · endWord) = [] := by
  have hall : ∀ t ∈ values, (!t.isWord endWord) = true := by
    intro t ht
    have hcontent : t.content ∈ (Listing.valuePieces bytes).map Piece.content := by
      rw [← h]
      exact List.mem_map_of_mem ht
    obtain ⟨piece, hpiece, heq⟩ := List.mem_map.mp hcontent
    unfold Listing.valuePieces at hpiece
    split at hpiece
    · cases hpiece
    · split at hpiece
      · rw [List.mem_singleton] at hpiece
        rw [hpiece] at heq
        rw [Token.isWord, Token.kind_of_content heq.symm]
        rfl
      · obtain ⟨b, -, rfl⟩ := List.mem_map.mp hpiece
        rw [Token.isWord_of_content heq.symm, Bool.not_eq_true', beq_eq_false_iff_ne]
        intro hword
        have he : 'e' ∈ (toString b.toNat).toList := by
          rw [hword]
          decide
        exact absurd (Text.isDigit_of_mem_toString he) (by decide)
  exact ⟨List.takeWhile_eq_self_iff.mpr hall, List.dropWhile_eq_nil_iff.mpr hall⟩

section Lines

variable {line : Line} {d : Draft}

/-- The tokens of a line that starts with a word. -/
theorem exists_tokens_of_reads {text : String} {rest : List Piece}
    (h : Reads line (.word text :: rest)) :
    ∃ first tokens, line.tokens = first :: tokens ∧ first.content = (.word, text) ∧
      tokens.map Token.content = rest.map Piece.content := by
  unfold Reads at h
  cases htokens : line.tokens with
  | nil =>
    rw [htokens] at h
    cases h
  | cons first tokens =>
    rw [htokens, List.map_cons, List.map_cons, List.cons.injEq] at h
    exact ⟨first, tokens, rfl, h⟩

/-- The line that moves the position. -/
theorem addLine_origin {a : Nat} (h : Reads line [.word "org", .word (toString a)])
    (hopen : d.position.isSome) (ha : a ≤ 65535)
    (hlast : a ≤ d.memory.layout.lastAddressable.toNat) :
    addLine line d = .ok () { d with position := some a } := by
  obtain ⟨first, tokens, htokens, hfirst, hrest⟩ := exists_tokens_of_reads h
  cases tokens with
  | nil => cases hrest
  | cons address rest =>
    rw [List.map_cons, List.map_cons, List.cons.injEq, List.map_nil, List.map_eq_nil_iff] at hrest
    obtain ⟨haddress, rfl⟩ := hrest
    rw [addLine_data_eq_ok_iff hopen, htokens]
    exact addData_origin_of_content hfirst haddress ha hlast

/-- The line that names a variable and gives its bytes. -/
theorem addLine_variable {name : String} {bytes : List UInt8}
    (h : Reads line (.word name :: Listing.valuePieces bytes)) (hopen : d.position.isSome)
    (hname : isIdentifier name) (hend : name ≠ endWord) (horigin : name ≠ originWord)
    (hnew : d.vars.find? name = none) (hfits : d.Fits bytes) :
    addLine line d = .ok ()
      (putGroup { d with vars := d.vars.define name (d.position.getD 0) } bytes) := by
  obtain ⟨first, values, htokens, hfirst, hvalues⟩ := exists_tokens_of_reads h
  have htext := Token.text_of_content hfirst
  obtain ⟨htake, hdrop⟩ := takeWhile_valuePieces hvalues
  obtain ⟨anchor, hwrite⟩ := writeAll_valuePieces hvalues
  rw [addLine_data_eq_ok_iff hopen, htokens, addData_variable]
  · rw [addVariable_eq_ok_iff, htext]
    refine ⟨⟨Token.kind_of_content hfirst, hname, hnew⟩,
      putGroup { d with vars := d.vars.define name (d.position.getD 0) } bytes, ?_, ?_⟩
    · rw [htake, hwrite]
      exact writeGroup_eq_ok_iff.mpr ⟨hfits, rfl⟩
    · rw [finishVariable, hdrop]
      rfl
  · rw [Token.isWord_of_content hfirst]
    exact beq_eq_false_iff_ne.mpr hend
  · rw [Token.isWord_of_content hfirst]
    exact beq_eq_false_iff_ne.mpr horigin

/-- The line that closes a data block. -/
theorem addLine_end (h : Reads line [.word "end"]) (hopen : d.position.isSome) :
    ∃ overruns, addLine line d = .ok () { d with position := none, overruns } := by
  obtain ⟨first, tokens, htokens, hfirst, hrest⟩ := exists_tokens_of_reads h
  rw [List.map_nil, List.map_eq_nil_iff] at hrest
  have hend : first.isWord endWord = true := first.isWord_of_content hfirst _
  have hclose := closeData_nil d
  rw [← addData_end [] hend, ← hrest, ← htokens] at hclose
  exact ⟨_, (addLine_data_eq_ok_iff hopen).mpr hclose⟩

/-- The line that opens a data block. -/
theorem addLine_dataWord (h : Reads line [.word ".DATA"]) (hclosed : d.position = none) :
    addLine line d = .ok () { d with position := some 0 } := by
  obtain ⟨first, tokens, htokens, hfirst, hrest⟩ := exists_tokens_of_reads h
  rw [List.map_nil, List.map_eq_nil_iff] at hrest
  have hdata : first.kind = .word ∧ Text.lower first.text = dataWord := by
    rw [Token.text_of_content hfirst]
    exact ⟨Token.kind_of_content hfirst, by decide⟩
  have hopen : ¬ d.position.isSome := by simp [hclosed]
  unfold addLine
  rw [Attempt.mapError_eq_ok, Attempt.get_bind_apply, htokens, hrest, if_neg hopen]
  dsimp only
  rw [if_pos hdata]
  rfl

/-- What the first pass does at a line outside of data blocks whose first word does not open
one. -/
theorem addLine_code {first : Token} {rest : List Token} (htokens : line.tokens = first :: rest)
    (hclosed : d.position = none) (hdata : Text.lower first.text ≠ dataWord) {d' : Draft} :
    addLine line d = .ok () d' ↔
      (match labelName? first with
        | none => addStatement line.number first rest
        | some name => do
          addLabel name first
          match rest with
          | [] => pure ()
          | mnemonic :: operands => addStatement line.number mnemonic operands) d = .ok () d' := by
  have hopen : ¬ d.position.isSome := by simp [hclosed]
  have hword : ¬ (first.kind = .word ∧ Text.lower first.text = dataWord) := fun h => hdata h.2
  unfold addLine
  rw [Attempt.mapError_eq_ok, Attempt.get_bind_apply, htokens, if_neg hopen]
  exact iff_of_eq (congrArg (fun act : Attempt Draft Unit => act d = .ok () d') (if_neg hword))

theorem labelName?_of_content {t : Token} {name : String} (h : t.content = (.word, "." ++ name))
    (hname : isIdentifier name) : labelName? t = some name := by
  obtain ⟨c, rest, htext, -, -⟩ := exists_of_isIdentifier hname
  unfold labelName?
  rw [Token.kind_of_content h, Token.text_of_content h, String.toList_append, htext]
  change some (String.ofList (c :: rest)) = some name
  rw [← htext, String.ofList_toList]

/-- The line of a label. -/
theorem addLine_label {name : String} (h : Reads line [.word ("." ++ name)])
    (hclosed : d.position = none) (hname : isIdentifier name)
    (hdata : Text.lower ("." ++ name) ≠ dataWord) (hnew : d.labels.find? name = none) :
    addLine line d = .ok () { d with labels := d.labels.define name d.romLength } := by
  obtain ⟨first, tokens, htokens, hfirst, hrest⟩ := exists_tokens_of_reads h
  rw [List.map_nil, List.map_eq_nil_iff] at hrest
  subst hrest
  have htext := Token.text_of_content hfirst
  rw [addLine_code htokens hclosed (by rwa [htext]), labelName?_of_content hfirst hname]
  dsimp only
  have hadd : addLabel name first d =
      .ok () { d with labels := d.labels.define name d.romLength } :=
    addLabel_eq_ok_iff.mpr ⟨⟨hname, hnew⟩, rfl⟩
  rw [Attempt.bind_of_ok hadd]
  rfl

/-- The line of a statement. -/
theorem addLine_statement {mnemonic : String} {operands : List Piece}
    (h : Reads line (.word mnemonic :: operands)) (hclosed : d.position = none)
    (hdata : Text.lower mnemonic ≠ dataWord) (hdot : mnemonic.toList.head? ≠ some '.')
    (hlength : operands.length ≤ 2)
    (hspace : d.romLength + (1 + 2 * operands.length) ≤ maxRomLength) :
    ∃ s : Statement, s.mnemonic.content = (.word, mnemonic) ∧
      s.operands.map Token.content = operands.map Piece.content ∧
      addLine line d = .ok ()
        { d with
          statements := s :: d.statements
          romLength := d.romLength + (1 + 2 * operands.length) } := by
  obtain ⟨first, tokens, htokens, hfirst, hrest⟩ := exists_tokens_of_reads h
  have htext := Token.text_of_content hfirst
  have hlengths : tokens.length = operands.length := by
    have := congrArg List.length hrest
    rwa [List.length_map, List.length_map] at this
  have hlabel : labelName? first = none := by
    unfold labelName?
    rw [Token.kind_of_content hfirst, htext]
    split
    · next heq =>
      rw [heq] at hdot
      exact absurd rfl hdot
    · rfl
  refine ⟨⟨line.number, d.romLength, first, tokens⟩, hfirst, hrest, ?_⟩
  rw [addLine_code htokens hclosed (by rwa [htext]), hlabel]
  rw [← hlengths] at hlength hspace ⊢
  exact addStatement_eq_ok_iff.mpr ⟨⟨hlength, Token.kind_of_content hfirst, hspace⟩, rfl⟩

end Lines

end Lays

end Draft

end TeachingCpu
