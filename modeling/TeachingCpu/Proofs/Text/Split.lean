import TeachingCpu.Proofs.Attempt
import TeachingCpu.Text.Split

/-!
# Texts split at a character

The pieces of a text are what stands between its separators: put behind each other with separators
in between, they are the text, and no separator is in any of them (`intercalate_splitAtChar`).
-/

namespace TeachingCpu.Text

variable {separator : Char}

theorem splitAtChar_cons (separator c : Char) (cs : List Char) :
    splitAtChar separator (c :: cs) = consPiece separator c (splitAtChar separator cs) := rfl

theorem splitAtChar_ne_nil (separator : Char) (cs : List Char) : splitAtChar separator cs ≠ [] := by
  cases cs with
  | nil => exact List.cons_ne_nil _ _
  | cons c cs =>
    rw [splitAtChar_cons]
    unfold consPiece
    split
    · exact List.cons_ne_nil _ _
    · split <;> exact List.cons_ne_nil _ _

/-- The pieces on both sides of a separator. -/
theorem splitAtChar_append_cons (separator : Char) (front back : List Char) :
    splitAtChar separator (front ++ separator :: back) =
      splitAtChar separator front ++ splitAtChar separator back := by
  induction front with
  | nil => exact if_pos rfl
  | cons c front ih =>
    rw [List.cons_append, splitAtChar_cons, splitAtChar_cons, ih]
    obtain ⟨piece, rest, hfront⟩ := List.exists_cons_of_ne_nil (splitAtChar_ne_nil separator front)
    rw [hfront]
    unfold consPiece
    split <;> rfl

theorem splitAtChar_of_notMem {piece : List Char} (h : separator ∉ piece) :
    splitAtChar separator piece = [piece] := by
  induction piece with
  | nil => rfl
  | cons c piece ih =>
    obtain ⟨hc, hpiece⟩ := not_or.mp (List.mem_cons.not.mp h)
    rw [splitAtChar_cons, ih hpiece, consPiece, if_neg (Ne.symm hc)]

/-- Lines that each end with a separator are the pieces in front of an empty one. -/
theorem splitAtChar_flatMap (separator : Char) {pieces : List (List Char)}
    (h : ∀ piece ∈ pieces, separator ∉ piece) :
    splitAtChar separator (pieces.flatMap (· ++ [separator])) = pieces ++ [[]] := by
  induction pieces with
  | nil => rfl
  | cons piece rest ih =>
    obtain ⟨hpiece, hrest⟩ := List.forall_mem_cons.mp h
    rw [List.flatMap_cons, List.append_assoc, List.singleton_append, splitAtChar_append_cons,
      splitAtChar_of_notMem hpiece, ih hrest]
    rfl

/-- The pieces of a text are what stands between its separators. -/
theorem intercalate_splitAtChar (separator : Char) (cs : List Char) :
    List.intercalate [separator] (splitAtChar separator cs) = cs ∧
      ∀ piece ∈ splitAtChar separator cs, separator ∉ piece := by
  induction cs with
  | nil => exact ⟨rfl, by simp [splitAtChar]⟩
  | cons c cs ih =>
    obtain ⟨hjoin, hpieces⟩ := ih
    rw [splitAtChar_cons]
    obtain ⟨first, rest, hsplit⟩ := List.exists_cons_of_ne_nil (splitAtChar_ne_nil separator cs)
    rw [hsplit] at hjoin hpieces ⊢
    obtain ⟨hfirst, hrest⟩ := List.forall_mem_cons.mp hpieces
    unfold consPiece
    split
    · next hc =>
      refine ⟨?_, List.forall_mem_cons.mpr ⟨List.not_mem_nil, hpieces⟩⟩
      rw [List.intercalate_cons_cons, hjoin, hc]
      rfl
    · next hc =>
      refine ⟨?_, List.forall_mem_cons.mpr ⟨?_, hrest⟩⟩
      · cases rest with
        | nil =>
          rw [List.intercalate_singleton] at hjoin ⊢
          rw [hjoin]
        | cons next rest =>
          rw [List.intercalate_cons_cons] at hjoin ⊢
          rw [← hjoin]
          rfl
      · exact List.mem_cons.not.mpr (not_or.mpr ⟨Ne.symm hc, hfirst⟩)

/-- The first piece is empty if the text is, or if a separator stands at its start. -/
theorem head?_splitAtChar (separator : Char) (cs : List Char) :
    (splitAtChar separator cs).head? = some [] ↔ cs = [] ∨ cs.head? = some separator := by
  cases cs with
  | nil => simp [splitAtChar]
  | cons c cs =>
    rw [splitAtChar_cons]
    unfold consPiece
    split
    · next hc => simp [hc]
    · next hc => split <;> simp [hc]

end TeachingCpu.Text
