import TeachingCpu.Proofs.Attempt
import TeachingCpu.Text.Latin1

/-!
# Bytes as characters

The text of some bytes has these bytes and no other text has. A text has bytes exactly if each of
its characters has one; otherwise the first that has none is told (`toBytes_eq_error_iff`).
-/

namespace TeachingCpu.Text

theorem toNat_charOfByte (b : UInt8) : (charOfByte b).toNat = b.toNat := by
  have hlt := b.toNat_lt
  have hvalid : b.toNat.isValidChar := .inl (by omega)
  unfold charOfByte Char.ofNat
  rw [dif_pos hvalid]
  simp [Char.toNat, Char.ofNatAux]

theorem charOfByte_ne {b : UInt8} {c : Char} (h : b.toNat ≠ c.toNat) : charOfByte b ≠ c := by
  intro heq
  subst heq
  exact h (toNat_charOfByte b).symm

theorem byteOfChar?_charOfByte (b : UInt8) : byteOfChar? (charOfByte b) = some b := by
  have hlt := b.toNat_lt
  unfold byteOfChar?
  rw [toNat_charOfByte, if_pos (by omega)]
  simp

/-- The text of some bytes has these bytes. -/
theorem toBytes_ofBytes (bytes : List UInt8) : toBytes (ofBytes bytes) = .ok bytes := by
  unfold toBytes ofBytes
  rw [String.toList_ofList]
  induction bytes with
  | nil => rfl
  | cons b rest ih =>
    rw [List.map_cons, List.mapM_cons, byteOfChar?_charOfByte, ih]
    rfl

theorem charOfByte_of_byteOfChar? {c : Char} {b : UInt8} (h : byteOfChar? c = some b) :
    charOfByte b = c := by
  unfold byteOfChar? at h
  split at h
  · next hle =>
    cases h
    apply Char.toNat_inj.mp
    rw [toNat_charOfByte, Nat.toUInt8_eq, UInt8.toNat_ofNat']
    omega
  · cases h

/-- A text that has bytes is the text of these bytes. -/
theorem ofBytes_of_toBytes {text : String} {bytes : List UInt8}
    (h : toBytes text = .ok bytes) : ofBytes bytes = text := by
  have hmap : ∀ {f : Char → Except Char UInt8}, (∀ c b, f c = .ok b → byteOfChar? c = some b) →
      ∀ {cs : List Char} {bytes : List UInt8}, cs.mapM f = .ok bytes →
        bytes.map charOfByte = cs := by
    intro f hf cs
    induction cs with
    | nil =>
      intro bytes h
      cases h
      rfl
    | cons c cs ih =>
      intro bytes h
      rw [List.mapM_cons] at h
      obtain ⟨b, hb, h⟩ := Except.bind_eq_ok_iff.mp h
      obtain ⟨rest, hrest, h⟩ := Except.bind_eq_ok_iff.mp h
      cases h
      rw [List.map_cons, charOfByte_of_byteOfChar? (hf c b hb), ih hrest]
  unfold ofBytes toBytes at *
  rw [hmap ?_ h, String.ofList_toList]
  intro c b hb
  cases hc : byteOfChar? c with
  | none =>
    rw [hc] at hb
    cases hb
  | some b' =>
    rw [hc] at hb
    cases hb
    rfl

theorem ofBytes_injective : Function.Injective ofBytes := by
  intro a b h
  have hbytes := toBytes_ofBytes a
  rw [h, toBytes_ofBytes] at hbytes
  exact (Except.ok.inj hbytes).symm

/-- The byte zero stands for the character with code point zero. -/
theorem nul_mem_ofBytes_iff {bytes : List UInt8} : '\x00' ∈ (ofBytes bytes).toList ↔ 0 ∈ bytes := by
  rw [ofBytes, String.toList_ofList, List.mem_map]
  constructor
  · rintro ⟨b, hb, hchar⟩
    have hnat : b.toNat = 0 := by
      by_contra hne
      exact charOfByte_ne (c := '\x00') hne hchar
    rwa [UInt8.toNat_inj.mp (hnat.trans UInt8.toNat_zero.symm)] at hb
  · intro hzero
    exact ⟨0, hzero, rfl⟩

theorem zero_notMem_of_toBytes {text : String} {bytes : List UInt8}
    (h : toBytes text = .ok bytes) (hnul : '\x00' ∉ text.toList) : 0 ∉ bytes := by
  rwa [← ofBytes_of_toBytes h, nul_mem_ofBytes_iff] at hnul

theorem length_of_toBytes {text : String} {bytes : List UInt8}
    (h : toBytes text = .ok bytes) : bytes.length = text.length := by
  have hbytes := (Except.forall₂_of_mapM h).length_eq
  rw [String.length_toList] at hbytes
  exact hbytes.symm

/-! ## Which texts have bytes -/

theorem toBytes_ofList_cons (c : Char) (cs : List Char) :
    toBytes (String.ofList (c :: cs)) =
      if c.toNat ≤ 0xff then (toBytes (String.ofList cs)).map (.ofNat c.toNat :: ·)
      else .error c := by
  unfold toBytes
  rw [String.toList_ofList, String.toList_ofList, List.mapM_cons]
  generalize List.mapM (m := Except Char) (β := UInt8) _ cs = rest
  by_cases hc : c.toNat ≤ 0xff
  · rw [byteOfChar?, if_pos hc, if_pos hc]
    cases rest <;> rfl
  · rw [byteOfChar?, if_neg hc, if_neg hc]
    rfl

/-- All characters of a text have a byte. -/
def SingleByte (text : String) : Prop := ∀ c ∈ text.toList, c.toNat ≤ 0xff

/-- The code points of the characters of a text, as bytes. -/
def codePoints (text : String) : List UInt8 := text.toList.map fun c => .ofNat c.toNat

/-- A character is the first of a text that has no byte. -/
def FirstWide (text : String) (c : Char) : Prop :=
  ∃ front back, text.toList = front ++ c :: back ∧ (∀ d ∈ front, d.toNat ≤ 0xff) ∧ 0xff < c.toNat

theorem toBytes_eq_ok_iff {text : String} {bytes : List UInt8} :
    toBytes text = .ok bytes ↔ SingleByte text ∧ bytes = codePoints text := by
  obtain ⟨cs, rfl⟩ : ∃ cs, text = String.ofList cs := ⟨_, String.ofList_toList.symm⟩
  unfold SingleByte codePoints
  rw [String.toList_ofList]
  induction cs generalizing bytes with
  | nil => exact ⟨fun h => ⟨nofun, (Except.ok.inj h).symm⟩, fun h => congrArg Except.ok h.2.symm⟩
  | cons c cs ih =>
    rw [toBytes_ofList_cons, List.forall_mem_cons, List.map_cons]
    by_cases hc : c.toNat ≤ 0xff
    · rw [if_pos hc]
      constructor
      · intro h
        cases hrest : toBytes (String.ofList cs) with
        | ok rest =>
          rw [hrest] at h
          cases h
          obtain ⟨hwide, rfl⟩ := ih.mp hrest
          exact ⟨⟨hc, hwide⟩, rfl⟩
        | error c' =>
          rw [hrest] at h
          cases h
      · rintro ⟨⟨-, hwide⟩, rfl⟩
        rw [ih.mpr ⟨hwide, rfl⟩]
        rfl
    · rw [if_neg hc]
      exact ⟨nofun, fun h => absurd h.1.1 hc⟩

theorem firstWide_cons_iff {c d : Char} {cs : List Char} :
    FirstWide (String.ofList (d :: cs)) c ↔
      if d.toNat ≤ 0xff then FirstWide (String.ofList cs) c else c = d := by
  unfold FirstWide
  rw [String.toList_ofList, String.toList_ofList]
  split
  · next hd =>
    constructor
    · rintro ⟨front, back, hsplit, hfront, hc⟩
      cases front with
      | nil =>
        obtain ⟨rfl, -⟩ := List.cons.inj hsplit
        omega
      | cons d' front =>
        obtain ⟨-, htail⟩ := List.cons.inj (hsplit.trans List.cons_append)
        exact ⟨front, back, htail, (List.forall_mem_cons.mp hfront).2, hc⟩
    · rintro ⟨front, back, rfl, hfront, hc⟩
      exact ⟨d :: front, back, rfl, List.forall_mem_cons.mpr ⟨hd, hfront⟩, hc⟩
  · next hd =>
    constructor
    · rintro ⟨front, back, hsplit, hfront, hc⟩
      cases front with
      | nil => exact (List.cons.inj hsplit).1.symm
      | cons d' front =>
        obtain ⟨rfl, -⟩ := List.cons.inj (hsplit.trans List.cons_append)
        exact absurd (hfront d List.mem_cons_self) hd
    · rintro rfl
      exact ⟨[], cs, rfl, nofun, Nat.lt_of_not_le hd⟩

theorem toBytes_eq_error_iff {text : String} {c : Char} :
    toBytes text = .error c ↔ FirstWide text c := by
  obtain ⟨cs, rfl⟩ : ∃ cs, text = String.ofList cs := ⟨_, String.ofList_toList.symm⟩
  induction cs with
  | nil =>
    refine ⟨nofun, ?_⟩
    rintro ⟨front, back, hsplit, -⟩
    rw [String.toList_ofList] at hsplit
    exact absurd hsplit.symm (List.append_ne_nil_of_right_ne_nil _ (List.cons_ne_nil _ _))
  | cons d cs ih =>
    rw [toBytes_ofList_cons, firstWide_cons_iff]
    split
    · rw [← ih]
      cases toBytes (String.ofList cs) with
      | ok bytes => exact iff_of_false nofun nofun
      | error c' => exact Iff.rfl
    · exact ⟨fun h => (Except.error.inj h).symm, fun h => congrArg Except.error h.symm⟩

end TeachingCpu.Text
