import TeachingCpu.Proofs.Text.Number
import TeachingCpu.Text.Blank
import TeachingCpu.Text.Styled

/-!
# Texts and their colours

A text that is put together from plain pieces and painted ones is, without its control sequences,
the text that is shown where colours are off (`decolored_of_faithful`). The pieces are composed by
`Strips`, which says that control sequences are complete and stand between the characters of a plain
text.
-/

namespace TeachingCpu.Text

/-! ## Plain texts -/

/-- No character of a text starts a control sequence. -/
def Plain (s : String) : Prop := '\x1b' ∉ s.toList

instance (s : String) : Decidable (Plain s) := inferInstanceAs (Decidable ('\x1b' ∉ s.toList))

@[simp] theorem plain_append {s t : String} : Plain (s ++ t) ↔ Plain s ∧ Plain t := by
  simp [Plain, not_or]

@[simp] theorem plain_ofList {cs : List Char} : Plain (String.ofList cs) ↔ '\x1b' ∉ cs := by
  rw [Plain, String.toList_ofList]

theorem plain_char {c : Char} (h : c ≠ '\x1b') : Plain c.toString := by
  change '\x1b' ∉ (String.singleton c).toList
  rw [String.toList_singleton, List.mem_singleton]
  exact h.symm

theorem plain_join {ss : List String} (h : ∀ s ∈ ss, Plain s) : Plain (String.join ss) := by
  intro hmem
  rw [String.toList_join, List.mem_flatMap] at hmem
  obtain ⟨s, hs, hesc⟩ := hmem
  exact h s hs hesc

theorem plain_intercalate {separator : String} {ss : List String} (hseparator : Plain separator)
    (h : ∀ s ∈ ss, Plain s) : Plain (String.intercalate separator ss) := by
  induction ss with
  | nil => simp [Plain]
  | cons s ss ih =>
    obtain ⟨hfirst, hrest⟩ := List.forall_mem_cons.mp h
    cases ss with
    | nil => simpa using hfirst
    | cons t ss =>
      rw [String.intercalate_cons_cons, plain_append, plain_append]
      exact ⟨⟨hfirst, hseparator⟩, ih hrest⟩

@[simp] theorem plain_toString (n : Nat) : Plain (toString n) := fun hmem =>
  absurd (isDigit_of_mem_toString hmem) (by decide)

@[simp] theorem plain_toString_int (i : Int) : Plain (toString i) := by
  cases i with
  | ofNat n => exact plain_toString n
  | negSucc n =>
    change Plain ("-" ++ toString (n + 1))
    exact plain_append.mpr ⟨by decide, plain_toString _⟩

theorem not_mem_leftpad {c fill : Char} {cs : List Char} (hfill : c ≠ fill) (h : c ∉ cs)
    (n : Nat) : c ∉ cs.leftpad n fill := by
  rw [List.leftpad, List.mem_append, List.mem_replicate]
  rintro (⟨-, hc⟩ | hmem)
  · exact hfill hc
  · exact h hmem

@[simp] theorem plain_padLeft {s : String} (h : Plain s) (width : Nat) :
    Plain (padLeft width ' ' s) :=
  plain_ofList.mpr (not_mem_leftpad (by decide) h width)

theorem digitChar_ne_escape {d : Nat} (h : d < 16) : d.digitChar ≠ '\x1b' := by
  interval_cases d <;> decide

theorem not_mem_toDigits {base : Nat} (hone : 1 < base) (hbase : base ≤ 16) (n : Nat) :
    '\x1b' ∉ Nat.toDigits base n := by
  induction n using Nat.strong_induction_on with
  | _ n ih =>
    rcases Nat.lt_or_ge n base with hlt | hge
    · rw [Nat.toDigits_of_lt_base hlt, List.mem_singleton]
      exact (digitChar_ne_escape (by omega)).symm
    · have hlast : n % base < 16 := Nat.lt_of_lt_of_le (Nat.mod_lt n (by omega)) hbase
      rw [Nat.toDigits_of_base_le hone hge, List.mem_append, List.mem_singleton]
      rintro (hfront | heq)
      · exact ih (n / base) (Nat.div_lt_self (by omega) hone) hfront
      · exact digitChar_ne_escape hlast heq.symm

@[simp] theorem plain_hex (width n : Nat) : Plain (hex width n) :=
  plain_ofList.mpr
    (not_mem_leftpad (by decide) (not_mem_toDigits (by decide) (by decide) n) width)

@[simp] theorem plain_binary (width n : Nat) : Plain (binary width n) :=
  plain_ofList.mpr
    (not_mem_leftpad (by decide) (not_mem_toDigits (by decide) (by decide) n) width)

@[simp] theorem plain_padRight {s : String} (h : Plain s) (width : Nat) :
    Plain (padRight width s) := by
  rw [padRight, plain_ofList, List.rightpad, List.mem_append, List.mem_replicate]
  rintro (hmem | ⟨-, hc⟩)
  · exact h hmem
  · exact absurd hc (by decide)

/-! ### Words of a plain line -/

theorem mem_of_mem_splitWords {cs word : List Char} (h : word ∈ splitWords cs) : word ⊆ cs := by
  fun_induction splitWords cs with
  | case1 => cases h
  | case2 cs c rest heq ih =>
    have hsuffix : c :: rest ⊆ cs := heq ▸ (List.dropWhile_suffix _).subset
    rcases List.mem_cons.mp h with rfl | hrest
    · intro x hx
      rcases List.mem_cons.mp hx with rfl | hx
      · exact hsuffix List.mem_cons_self
      · exact hsuffix (List.mem_cons_of_mem _ ((List.takeWhile_prefix _).subset hx))
    · intro x hx
      exact hsuffix (List.mem_cons_of_mem _ ((List.dropWhile_suffix _).subset (ih hrest hx)))

theorem plain_of_mem_words {s word : String} (h : Plain s) (hword : word ∈ words s) :
    Plain word := by
  obtain ⟨cs, hcs, rfl⟩ := List.mem_map.mp hword
  exact plain_ofList.mpr fun hmem => h (mem_of_mem_splitWords hcs hmem)

theorem plain_trim {s : String} (h : Plain s) : Plain (trim s) := by
  refine plain_ofList.mpr fun hmem => h ?_
  have hback := (List.dropWhile_suffix _).subset (List.mem_reverse.mp hmem)
  exact (List.dropWhile_suffix _).subset (List.mem_reverse.mp hback)

theorem toLower_ne_escape {c : Char} (h : c ≠ '\x1b') : c.toLower ≠ '\x1b' := by
  intro hlower
  unfold Char.toLower at hlower
  split at hlower
  · next hcapital =>
    have hle : c.val.toNat ≤ 90 := UInt32.le_iff_toNat_le.mp hcapital.2
    have hval : (c.val.toNat + 32) % 2 ^ 32 = 27 :=
      (UInt32.toNat_add c.val 32).symm.trans (congrArg (fun c => c.val.toNat) hlower)
    omega
  · exact h hlower

theorem plain_lower {s : String} (h : Plain s) : Plain (lower s) := by
  refine plain_ofList.mpr fun hmem => ?_
  obtain ⟨c, hc, hlower⟩ := List.mem_map.mp hmem
  refine toLower_ne_escape ?_ hlower
  rintro rfl
  exact h hc

/-! ## Control sequences -/

/-- Characters of which others remain if the control sequences among them, all of them complete,
are taken out. -/
inductive Strips : List Char → List Char → Prop where
  | nil : Strips [] []
  | char {c : Char} {cs cs' : List Char} (hc : c ≠ '\x1b') (h : Strips cs cs') :
    Strips (c :: cs) (c :: cs')
  | sequence {inner cs cs' : List Char} (hinner : 'm' ∉ inner) (h : Strips cs cs') :
    Strips ('\x1b' :: (inner ++ 'm' :: cs)) cs'

variable {cs cs' ds ds' : List Char} {s t : String}

theorem strips_of_not_mem (h : '\x1b' ∉ cs) : Strips cs cs := by
  induction cs with
  | nil => exact .nil
  | cons c cs ih =>
    obtain ⟨hc, hcs⟩ := List.ne_and_not_mem_of_not_mem_cons h
    exact .char hc.symm (ih hcs)

theorem Strips.append (h : Strips cs cs') (h' : Strips ds ds') :
    Strips (cs ++ ds) (cs' ++ ds') := by
  induction h with
  | nil => exact h'
  | char hc _ ih => exact .char hc ih
  | @sequence inner cs cs' hinner _ ih =>
    rw [List.cons_append, List.append_assoc, List.cons_append]
    exact .sequence hinner ih

/-- What remains has no control sequences. -/
theorem Strips.remains (h : Strips cs cs') : Strips cs' cs' := by
  induction h with
  | nil => exact .nil
  | char hc _ ih => exact .char hc ih
  | sequence _ _ ih => exact ih

theorem foldl_add_skipping {inner : List Char} (h : 'm' ∉ inner) (kept : List Char) :
    inner.foldl Stripped.add ⟨true, kept⟩ = ⟨true, kept⟩ := by
  induction inner with
  | nil => rfl
  | cons c inner ih =>
    obtain ⟨hc, hinner⟩ := List.ne_and_not_mem_of_not_mem_cons h
    have hskip : Stripped.add ⟨true, kept⟩ c = ⟨true, kept⟩ := by simp [Stripped.add, hc.symm]
    rw [List.foldl_cons, hskip]
    exact ih hinner

theorem foldl_add_of_strips (h : Strips cs cs') (kept : List Char) :
    cs.foldl Stripped.add ⟨false, kept⟩ = ⟨false, cs'.reverse ++ kept⟩ := by
  induction h generalizing kept with
  | nil => rfl
  | @char c cs cs' hc _ ih =>
    have hkeep : Stripped.add ⟨false, kept⟩ c = ⟨false, c :: kept⟩ := by simp [Stripped.add, hc]
    rw [List.foldl_cons, hkeep, ih, List.reverse_cons, List.append_assoc]
    rfl
  | sequence hinner _ ih =>
    rw [List.foldl_cons, List.foldl_append]
    change List.foldl Stripped.add (List.foldl Stripped.add ⟨true, kept⟩ _) _ = _
    rw [foldl_add_skipping hinner]
    exact ih kept

theorem decolored_of_strips (h : Strips s.toList t.toList) : decolored s = t := by
  unfold decolored
  rw [foldl_add_of_strips h []]
  simp

/-! ## Painted texts -/

theorem renewAfterResets_of_not_mem (start : List Char) (h : '\x1b' ∉ cs) :
    renewAfterResets start cs = cs := by
  fun_induction renewAfterResets start cs with
  | case1 => exact absurd List.mem_cons_self h
  | case2 c rest _ ih => exact congrArg (c :: ·) (ih (List.not_mem_of_not_mem_cons h))
  | case3 => rfl

theorem not_mem_code (style : Style) : 'm' ∉ style.code.toList := by
  cases style with
  | boldMixed r g b =>
    have hdigits : ∀ n : Nat, 'm' ∉ Nat.toDigits 10 n := fun n hmem =>
      absurd (Nat.isDigit_of_mem_toDigits (by decide) le_rfl hmem) (by decide)
    simp [Style.code, hdigits]
  | _ => decide

theorem strips_start (style : Style) : Strips style.start.toList [] := by
  have hstart : style.start.toList = '\x1b' :: (('[' :: style.code.toList) ++ 'm' :: []) := by
    simp [Style.start]
  rw [hstart]
  refine .sequence ?_ .nil
  simp [not_mem_code]

theorem strips_reset : Strips reset.toList [] := by
  change Strips ('\x1b' :: (['[', '0'] ++ 'm' :: [])) []
  exact .sequence (by decide) .nil

theorem strips_paint (style : Style) (display : Display) (h : Plain s) :
    Strips (style.paint display s).toList s.toList := by
  unfold Style.paint
  split
  · rw [renewAfterResets_of_not_mem _ h, String.toList_append, String.toList_append,
      String.toList_ofList]
    simpa using ((strips_start style).append (strips_of_not_mem h)).append strips_reset
  · exact strips_of_not_mem h

/-! ## Texts that depend on the display -/

/-- The display that shows no colours and is the same otherwise. -/
def Display.uncolored (display : Display) : Display := { display with colored := false }

/-- A text is, without its control sequences, what is shown where colours are off. -/
def Faithful (text : Display → String) : Prop :=
  ∀ display, Strips (text display).toList (text display.uncolored).toList

variable {f g : Display → String}

theorem decolored_of_faithful (h : Faithful f) (display : Display) :
    decolored (f display) = f display.uncolored := decolored_of_strips (h display)

theorem faithful_const (h : Plain s) : Faithful fun _ => s := fun _ => strips_of_not_mem h

theorem Faithful.append (hf : Faithful f) (hg : Faithful g) :
    Faithful fun display => f display ++ g display := by
  intro display
  simp only [String.toList_append]
  exact (hf display).append (hg display)

theorem Faithful.append_plain (hf : Faithful f) (h : Plain s) :
    Faithful fun display => f display ++ s := hf.append (faithful_const h)

theorem faithful_paint (style : Style) (h : Plain s) :
    Faithful fun display => style.paint display s := fun display => strips_paint style display h

theorem faithful_join {α : Type} {as : List α} {piece : α → Display → String}
    (h : ∀ a ∈ as, Faithful (piece a)) :
    Faithful fun display => String.join (as.map (piece · display)) := by
  intro display
  simp only [String.toList_join]
  induction as with
  | nil => exact .nil
  | cons a as ih =>
    obtain ⟨hfirst, hrest⟩ := List.forall_mem_cons.mp h
    simp only [List.map_cons, List.flatMap_cons]
    exact (hfirst display).append (ih hrest)

/-- Whether the plain form is wanted does not depend on the colours. -/
theorem faithful_minimal (hf : Faithful f) (hg : Faithful g) :
    Faithful fun display => if display.minimal then f display else g display := by
  intro display
  have hminimal : display.uncolored.minimal = display.minimal := rfl
  dsimp only
  rw [hminimal]
  split
  · exact hf display
  · exact hg display

end TeachingCpu.Text
