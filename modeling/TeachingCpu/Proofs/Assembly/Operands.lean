import TeachingCpu.Assembly.Encode
import TeachingCpu.Proofs.Text.Number

/-!
# Words that are operands

What the value of an operand can be, by its mode (`Denotes`), and how a word of each mode is read.
-/

namespace TeachingCpu

theorem Register.ofName?_name (r : Register) : ofName? r.name = some r := by
  cases r <;> decide

/-- The name of a register is not a number. -/
theorem Register.ofName?_eq_none {s : String} (h : ∀ c ∈ s.toList, c.isDigit) :
    ofName? s = none := by
  unfold ofName?
  rw [List.find?_eq_none]
  intro r _ hname
  rw [beq_iff_eq] at hname
  have hdigit : ∀ c ∈ r.name.toList, c.isDigit := by
    intro c hc
    rw [hname, Text.lower, String.toList_ofList] at hc
    obtain ⟨c', hc', rfl⟩ := List.mem_map.mp hc
    have hc' := h c' hc'
    unfold Char.toLower
    rw [dif_neg]
    · exact hc'
    · intro hupper
      simp only [Char.isDigit, Bool.and_eq_true, decide_eq_true_eq] at hc'
      have h₁ := hc'.2
      have h₂ := hupper.1
      exact absurd (Nat.le_trans h₂ h₁) (by decide)
  have hletter : r.name.toList.any (!·.isDigit) = true := by
    cases r <;> rfl
  obtain ⟨c, hc, hne⟩ := List.any_eq_true.mp hletter
  simp [hdigit c hc] at hne

theorem Opcode.ofMnemonic?_mnemonic (op : Opcode) : ofMnemonic? op.mnemonic = some op := by
  cases op <;> decide

namespace Draft

/-- The values that an operand of a mode can have. -/
def Denotes (d : Draft) (mode : Mode) (n : Nat) : Prop :=
  match mode with
  | .register => ∃ r : Register, n = r.id
  | .data => ∃ name, d.vars.find? name = some n
  | .label => ∃ name, d.labels.find? name = some n
  | .str => False
  | _ => True

theorem exists_register_of_registerId {text : String} {n : Nat} (h : registerId text = .ok n) :
    ∃ r : Register, n = r.id := by
  unfold registerId at h
  split at h
  · next r _ =>
    cases h
    exact ⟨r, rfl⟩
  · split at h
    · cases h
    · split at h
      · next r _ =>
        cases h
        exact ⟨r, rfl⟩
      · cases h

theorem map_mode_eq_ok {m mode : Mode} {x : Except Error Nat} {n : Nat}
    (h : x.map (m, ·) = .ok (mode, n)) : mode = m ∧ x = .ok n := by
  cases x with
  | error e => cases h
  | ok a =>
    cases h
    exact ⟨rfl, rfl⟩

theorem denotes_of_wordOperand {d : Draft} {text : String} {mode : Mode} {n : Nat}
    (h : d.wordOperand text = .ok (mode, n)) : d.Denotes mode n := by
  unfold wordOperand at h
  dsimp only at h
  cases hmode : (text.toList.head?.map Mode.ofSigil).getD .label with
  | register =>
    rw [hmode] at h
    obtain ⟨rfl, hid⟩ := map_mode_eq_ok h
    exact exists_register_of_registerId hid
  | direct =>
    rw [hmode] at h
    rw [(map_mode_eq_ok h).1]
    trivial
  | indirect =>
    rw [hmode] at h
    rw [(map_mode_eq_ok h).1]
    trivial
  | immediate =>
    rw [hmode] at h
    rw [(map_mode_eq_ok h).1]
    trivial
  | data =>
    rw [hmode] at h
    dsimp only at h
    split at h
    · next hfind =>
      cases h
      exact ⟨_, hfind⟩
    · cases h
  | str =>
    rw [hmode] at h
    cases h
  | label =>
    rw [hmode] at h
    dsimp only at h
    split at h
    · next hfind =>
      cases h
      exact ⟨_, hfind⟩
    · cases h

/-! ## Names -/

/-- A name is a first character and others. -/
theorem exists_of_isIdentifier {name : String} (h : isIdentifier name) :
    ∃ c rest, name.toList = c :: rest ∧ startsName c ∧ ∀ x ∈ rest, inName x := by
  unfold isIdentifier at h
  cases hname : name.toList with
  | nil =>
    rw [hname] at h
    cases h
  | cons c rest =>
    rw [hname] at h
    simp only [Bool.and_eq_true, List.all_eq_true] at h
    exact ⟨c, rest, rfl, h⟩

theorem inName_of_isIdentifier {name : String} (h : isIdentifier name) :
    ∀ x ∈ name.toList, inName x := by
  obtain ⟨c, rest, hname, hc, hrest⟩ := exists_of_isIdentifier h
  rw [hname, List.forall_mem_cons]
  refine ⟨?_, hrest⟩
  rw [startsName, Bool.or_eq_true] at hc
  rw [inName, Bool.or_eq_true, Char.isAlphanum, Bool.or_eq_true]
  tauto

theorem ofSigil_of_startsName {c : Char} (h : startsName c) : Mode.ofSigil c = .label := by
  unfold Mode.ofSigil
  cases hfind : Mode.all.find? (·.sigil? == some c) with
  | none => rfl
  | some mode =>
    have hsigil := List.find?_some hfind
    rw [beq_iff_eq] at hsigil
    cases mode <;> cases hsigil <;> cases h

theorem labelText_dotted (name : String) : labelText ("." ++ name) = name := by
  unfold labelText
  rw [String.toList_append]
  exact String.ofList_toList

theorem labelText_of_isIdentifier {name : String} (h : isIdentifier name) :
    labelText name = name := by
  obtain ⟨c, rest, hname, hc, -⟩ := exists_of_isIdentifier h
  unfold labelText
  split
  · next hdot =>
    rw [hname] at hdot
    rw [(List.cons.inj hdot).1] at hc
    cases hc
  · rfl

/-! ## Words that were written -/

section Written

variable (d : Draft)

/-- The parts of a word behind a sigil. -/
theorem toList_sigil {sigil : String} {c : Char} (h : sigil.toList = [c]) (rest : String) :
    (sigil ++ rest).toList.head? = some c ∧
      String.ofList ((sigil ++ rest).toList.drop 1) = rest := by
  rw [String.toList_append, h]
  exact ⟨rfl, String.ofList_toList⟩

theorem registerId_name (r : Register) : registerId r.name = .ok r.id := by
  unfold registerId
  rw [Register.ofName?_name]

theorem numberOrRegister_toString {n : Nat} (h : n < Text.integerBound) :
    numberOrRegister (toString n) = .ok n := by
  unfold numberOrRegister Text.readInteger?
  rw [Register.ofName?_eq_none fun c hc => Text.isDigit_of_mem_toString hc,
    Text.readIntegerChars?_toString h]

theorem wordOperand_register (r : Register) :
    d.wordOperand ("%" ++ r.name) = .ok (.register, r.id) := by
  have hsigil : "%".toList = ['%'] := rfl
  obtain ⟨hhead, hrest⟩ := toList_sigil hsigil r.name
  unfold wordOperand
  rw [hhead, hrest]
  show (registerId r.name).map (Mode.register, ·) = _
  rw [registerId_name]
  rfl

/-- A number behind the sigil of one of the three modes that take any number. -/
theorem wordOperand_number {sigil : String} {c : Char} (hsigil : sigil.toList = [c])
    (hc : Mode.ofSigil c ∈ [Mode.direct, .indirect, .immediate]) {n : Nat}
    (h : n < Text.integerBound) :
    d.wordOperand (sigil ++ toString n) = .ok (Mode.ofSigil c, n) := by
  obtain ⟨hhead, hrest⟩ := toList_sigil hsigil (toString n)
  unfold wordOperand
  rw [hhead, hrest]
  dsimp only [Option.map_some, Option.getD_some]
  simp only [List.mem_cons, List.not_mem_nil, or_false] at hc
  rcases hc with hc | hc | hc
  · rw [hc, numberOrRegister_toString h]
    rfl
  · rw [hc, numberOrRegister_toString h]
    rfl
  · rw [hc, numberOrRegister_toString h]
    rfl

theorem wordOperand_data {name : String} {n : Nat} (h : d.vars.find? name = some n) :
    d.wordOperand ("@" ++ name) = .ok (.data, n) := by
  have hsigil : "@".toList = ['@'] := rfl
  obtain ⟨hhead, hrest⟩ := toList_sigil hsigil name
  have hmode : Mode.ofSigil '@' = .data := rfl
  unfold wordOperand
  rw [hhead, hrest]
  dsimp only [Option.map_some, Option.getD_some]
  rw [hmode]
  dsimp only
  rw [h]

/-- A word without a sigil is a label. -/
theorem wordOperand_labelText {text : String} {c : Char} (hhead : text.toList.head? = some c)
    (hc : Mode.ofSigil c = .label) {n : Nat} (h : d.labels.find? (labelText text) = some n) :
    d.wordOperand text = .ok (.label, n) := by
  unfold wordOperand
  rw [hhead]
  dsimp only [Option.map_some, Option.getD_some]
  rw [hc]
  dsimp only
  rw [h]

/-- A name is the label of that name. -/
theorem wordOperand_label {name : String} (hname : isIdentifier name) {n : Nat}
    (h : d.labels.find? name = some n) : d.wordOperand name = .ok (.label, n) := by
  obtain ⟨c, rest, htext, hc, -⟩ := exists_of_isIdentifier hname
  refine d.wordOperand_labelText (by rw [htext]; rfl) (ofSigil_of_startsName hc) ?_
  rwa [labelText_of_isIdentifier hname]

/-- A name with a dot in front is the label of that name. -/
theorem wordOperand_dotted {name : String} {n : Nat} (h : d.labels.find? name = some n) :
    d.wordOperand ("." ++ name) = .ok (.label, n) := by
  have hdot : ("." ++ name).toList.head? = some '.' := by
    rw [String.toList_append]
    rfl
  refine d.wordOperand_labelText hdot rfl ?_
  rwa [labelText_dotted]

end Written

end Draft

end TeachingCpu
