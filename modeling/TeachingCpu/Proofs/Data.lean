import Mathlib

/-!
# Facts about lists, results and words

Facts that mention no machine: results that are composed, passes that make a result of every
element of a list, lists that are related element by element, and the parts of a list.
-/

section

variable {ε α β γ : Type}

/-! ## Results -/

/-- A composed result is a value exactly if both parts are. -/
theorem Except.bind_eq_ok_iff {x : Except ε α} {f : α → Except ε β} {b : β} :
    (x >>= f) = .ok b ↔ ∃ a, x = .ok a ∧ f a = .ok b := by
  cases x with
  | ok a =>
    change f a = .ok b ↔ _
    simp
  | error e =>
    change Except.error e = .ok b ↔ _
    simp

/-- What a property of an optional value says of a result. -/
theorem Except.exists_of_toOption_map {x : Except ε α} {f : α → β} {b : β}
    (h : x.toOption.map f = some b) : ∃ a, x = .ok a ∧ f a = b := by
  cases x with
  | ok a => exact ⟨a, rfl, Option.some.inj h⟩
  | error e => cases h

/-! ## Passes over a list -/

/-- Elements that a pass accepts, and what it makes of them. -/
theorem Except.forall₂_of_mapM {f : α → Except ε β} {as : List α} {bs : List β}
    (h : as.mapM f = .ok bs) : List.Forall₂ (fun a b => f a = .ok b) as bs := by
  induction as generalizing bs with
  | nil =>
    cases h
    exact .nil
  | cons a as ih =>
    rw [List.mapM_cons] at h
    obtain ⟨b, hfirst, h⟩ := Except.bind_eq_ok_iff.mp h
    obtain ⟨rest, hrest, h⟩ := Except.bind_eq_ok_iff.mp h
    cases h
    exact .cons hfirst (ih hrest)

/-- What a pass makes of some elements stands between what it makes of those in front of them and
of those behind them. -/
theorem Except.exists_of_mapM_append {f : α → Except ε β} {front mid back : List α}
    {bs mids : List β} (hmid : mid.mapM f = .ok mids)
    (h : (front ++ (mid ++ back)).mapM f = .ok bs) :
    ∃ fronts backs, bs = fronts ++ (mids ++ backs) := by
  rw [List.mapM_append, Except.bind_eq_ok_iff] at h
  obtain ⟨fronts, -, h⟩ := h
  obtain ⟨rest, hrest, hall⟩ := Except.bind_eq_ok_iff.mp h
  rw [List.mapM_append, hmid] at hrest
  obtain ⟨_, hmids, hrest⟩ := Except.bind_eq_ok_iff.mp hrest
  obtain ⟨backs, -, hbacks⟩ := Except.bind_eq_ok_iff.mp hrest
  cases hmids
  cases hbacks
  cases hall
  exact ⟨fronts, backs, rfl⟩

theorem List.forall_of_mapM_eq_some {f : α → Option β} {as : List α} {bs : List β}
    (h : as.mapM f = some bs) : ∀ a ∈ as, ∃ b, f a = some b := by
  induction as generalizing bs with
  | nil => simp
  | cons a as ih =>
    rw [List.mapM_cons] at h
    obtain ⟨b, hb, h⟩ := Option.bind_eq_some_iff.mp h
    obtain ⟨rest, hrest, -⟩ := Option.bind_eq_some_iff.mp h
    exact List.forall_mem_cons.mpr ⟨⟨b, hb⟩, ih hrest⟩

theorem List.mapM_eq_some_map {f : α → Option β} {g : α → β} {as : List α}
    (h : ∀ a ∈ as, f a = some (g a)) : as.mapM f = some (as.map g) := by
  induction as with
  | nil => rfl
  | cons a as ih =>
    rw [List.mapM_cons, h a List.mem_cons_self, ih fun b hb => h b (List.mem_cons_of_mem a hb)]
    rfl

/-! ## Lists that are related element by element -/

/-- An element on the left is related to one on the right. -/
theorem List.Forall₂.exists_right {R : α → β → Prop} {as : List α} {bs : List β}
    (h : List.Forall₂ R as bs) {a : α} (ha : a ∈ as) : ∃ b ∈ bs, R a b := by
  induction h with
  | nil => cases ha
  | @cons a' b' as bs hfirst _ ih =>
    rcases List.mem_cons.mp ha with rfl | hrest
    · exact ⟨b', List.mem_cons_self, hfirst⟩
    · obtain ⟨b, hb, hab⟩ := ih hrest
      exact ⟨b, List.mem_cons_of_mem b' hb, hab⟩

theorem List.Forall₂.exists_left {R : α → β → Prop} {as : List α} {bs : List β}
    (h : List.Forall₂ R as bs) {b : β} (hb : b ∈ bs) : ∃ a ∈ as, R a b :=
  h.flip.exists_right hb

theorem List.Forall₂.mem_right {R : α → β → Prop} {as : List α} {bs : List β}
    (h : List.Forall₂ R as bs) : List.Forall₂ (fun a b => b ∈ bs ∧ R a b) as bs :=
  ((List.forall₂_and_left _ _).mpr ⟨fun _ hb => hb, h.flip⟩).flip

/-- Elements that are related through a list in between. -/
theorem List.Forall₂.through {R : α → β → Prop} {S : β → γ → Prop}
    {T : α → γ → Prop} (h : ∀ a b c, R a b → S b c → T a c) {as : List α} {bs : List β}
    {cs : List γ} (hR : List.Forall₂ R as bs) (hS : List.Forall₂ S bs cs) :
    List.Forall₂ T as cs := by
  induction hR generalizing cs with
  | nil =>
    cases hS
    exact .nil
  | cons hfirst _ ih =>
    cases hS with
    | cons hfirst' hrest' => exact .cons (h _ _ _ hfirst hfirst') (ih hrest')

/-- A list that is related to one with an element in it falls apart at the same place. -/
theorem List.Forall₂.exists_split {R : α → β → Prop} {front back : List α} {a : α}
    {bs : List β} (h : List.Forall₂ R (front ++ a :: back) bs) :
    ∃ front' b back', bs = front' ++ b :: back' ∧ List.Forall₂ R front front' ∧ R a b := by
  induction front generalizing bs with
  | nil =>
    cases h with
    | @cons _ b _ back' hfirst _ => exact ⟨[], b, back', rfl, .nil, hfirst⟩
  | cons first front ih =>
    cases h with
    | @cons _ b _ bs hfirst hrest =>
      obtain ⟨front', b', back', rfl, hfront, hsplit⟩ := ih hrest
      exact ⟨b :: front', b', back', rfl, .cons hfirst hfront, hsplit⟩

/-- Lists with the same images agree element by element. -/
theorem List.forall₂_of_map_eq_map {f : α → γ} {g : β → γ} {as : List α}
    {bs : List β} (h : as.map f = bs.map g) : List.Forall₂ (fun a b => f a = g b) as bs := by
  rw [← List.forall₂_eq_eq_eq, List.forall₂_map_left_iff, List.forall₂_map_right_iff] at h
  exact h

/-! ## Parts of a list -/

/-- A list begins at an index if its first element stands there and the rest begins behind it. -/
theorem List.cons_prefix_drop_iff {a : α} {as bs : List α} {n : Nat} :
    a :: as <+: bs.drop n ↔ bs[n]? = some a ∧ as <+: bs.drop (n + 1) := by
  rw [← List.head?_drop, ← List.tail_drop]
  cases bs.drop n with
  | nil => simp
  | cons b rest =>
    rw [List.cons_prefix_cons, List.head?_cons, List.tail_cons, Option.some.injEq, eq_comm]

/-- The longest beginning with a property, where what stands behind it lacks the property. -/
theorem List.takeWhile_dropWhile_append {p : α → Bool} {as rest : List α} (has : ∀ a ∈ as, p a)
    (hrest : ∀ a ∈ rest.head?, p a = false) :
    (as ++ rest).takeWhile p = as ∧ (as ++ rest).dropWhile p = rest := by
  rw [List.takeWhile_append_of_pos has, List.dropWhile_append_of_pos has]
  cases rest with
  | nil => exact ⟨List.append_nil as, rfl⟩
  | cons a rest =>
    have ha : ¬ p a = true := by rw [hrest a rfl]; exact Bool.false_ne_true
    rw [List.takeWhile_cons_of_neg ha, List.dropWhile_cons_of_neg ha]
    exact ⟨List.append_nil as, rfl⟩

/-- A list cut into pieces of one length. -/
theorem List.flatMap_drop_take (as : List α) (width n : Nat) :
    (List.range n).flatMap (fun k => (as.drop (width * k)).take width) = as.take (width * n) := by
  induction n with
  | zero => rfl
  | succ n ih =>
    rw [List.range_succ, List.flatMap_append, ih, List.flatMap_singleton, Nat.mul_succ,
      List.take_add]

/-! ## Numbers -/

theorem List.le_foldl_max {n start : Nat} {ns : List Nat} (h : n ≤ start ∨ n ∈ ns) :
    n ≤ ns.foldl max start := by
  induction ns generalizing start with
  | nil => exact h.resolve_right List.not_mem_nil
  | cons first rest ih =>
    refine ih ?_
    rcases h with hstart | hmem
    · exact .inl (le_max_of_le_left hstart)
    · rcases List.mem_cons.mp hmem with rfl | hrest
      · exact .inl (le_max_right start n)
      · exact .inr hrest

theorem Nat.toNat_toUInt16_of_le {n : Nat} (h : n ≤ 65535) : n.toUInt16.toNat = n :=
  UInt16.toNat_ofNat_of_lt' (Nat.lt_succ_of_le h)

end
