import TeachingCpu.Assembly.Encode
import TeachingCpu.Proofs.Memory

/-!
# Invariants of the first pass

A draft is sound if its data and its code are. From the last zero byte of the data on, memory is
empty, and every variable lies in front of it. The statements follow each other without gaps, and
every label stands at one of them or behind the last. Each line keeps a draft sound
(`Sound.of_addLine`), so that `sound_of_read` gives all this for the draft of a source.
-/

namespace TeachingCpu

/-- Length of a statement in bytes. -/
def Statement.length (s : Statement) : Nat := 1 + 2 * s.operands.length

/-- Statements that follow each other from one code address to another. -/
def LaidOut (start : Nat) : List Statement → Nat → Prop
  | [], stop => start = stop
  | s :: rest, stop => s.offset = start ∧ LaidOut (start + s.length) rest stop

theorem laidOut_append_singleton {start stop : Nat} {statements : List Statement}
    (h : LaidOut start statements stop) {s : Statement} (hs : s.offset = stop) :
    LaidOut start (statements ++ [s]) (stop + s.length) := by
  induction statements generalizing start with
  | nil =>
    have hstart : start = stop := h
    exact ⟨hs.trans hstart.symm, congrArg (· + s.length) hstart⟩
  | cons first rest ih => exact ⟨h.1, ih h.2⟩

namespace Draft

/-! ## Data -/

/-- Every variable lies below an address. -/
def VarsBelow (d : Draft) (bound : Nat) : Prop :=
  ∀ name address, d.vars.find? name = some address → address < bound

/-- The data of a draft ends inside memory with a zero byte, and nothing lies behind it. -/
structure DataEnds (d : Draft) : Prop where
  bound : d.dataEnd ≤ d.memory.layout.lastAddressable.toNat + 1
  zero : ∀ k, d.dataEnd ≤ k + 1 → d.memory.byteAt k = 0

/-- The draft behind a group of bytes and its zero byte. -/
def putGroup (d : Draft) (bytes : List UInt8) : Draft :=
  { d with
    memory := d.memory.replace (d.position.getD 0) (bytes ++ [0])
    position := some (d.position.getD 0 + bytes.length + 1)
    dataEnd := max d.dataEnd (d.position.getD 0 + bytes.length + 1) }

/-- Whether a group of bytes and its zero byte lie inside memory. -/
def Fits (d : Draft) (bytes : List UInt8) : Prop :=
  d.position.getD 0 + bytes.length ≤ d.memory.layout.lastAddressable.toNat

theorem writeGroup_eq_ok_iff {bytes : List UInt8} {anchor : Option Token} {d d' : Draft} :
    writeGroup bytes anchor d = .ok () d' ↔ d.Fits bytes ∧ d' = d.putGroup bytes := by
  unfold writeGroup
  rw [Attempt.get_bind_apply]
  cases hwrite : d.memory.storeString (d.position.getD 0) bytes with
  | ok stored =>
    obtain ⟨hfits, rfl⟩ := Memory.storeString_eq_ok_iff.mp hwrite
    simp only [Attempt.set_apply, EStateM.Result.ok.injEq, true_and]
    exact ⟨fun h => ⟨hfits, h.symm⟩, fun h => h.2.symm⟩
  | error e =>
    refine iff_of_false (fun h => by cases anchor <;> cases h) ?_
    intro hparts
    rcases hparts with ⟨hfits, -⟩
    have hok := Memory.storeString_eq_ok_iff.mpr ⟨hfits, rfl⟩
    rw [hwrite] at hok
    cases hok

/-- One group after another, one at least. -/
inductive Puts : Draft → Draft → Prop where
  | one {d : Draft} (bytes : List UInt8) (h : d.Fits bytes) : Puts d (d.putGroup bytes)
  | cons {d d' : Draft} (bytes : List UInt8) (h : d.Fits bytes)
    (hrest : Puts (d.putGroup bytes) d') : Puts d d'

theorem puts_of_writeGroup {bytes : List UInt8} {anchor : Option Token} {d d' : Draft}
    (h : writeGroup bytes anchor d = .ok () d') : Puts d d' := by
  obtain ⟨hfits, rfl⟩ := writeGroup_eq_ok_iff.mp h
  exact .one bytes hfits

/-- A string among values is written behind the numbers that are pending. -/
theorem exists_writeGroup_of_str {t : Token} {rest : List Token}
    {group : Option (Token × List UInt8)} {d d' : Draft} (hstr : t.kind = .str)
    (h : writeValues (t :: rest) group d = .ok () d') :
    ∃ d₁ bytes, (group = none → d₁ = d) ∧
      (∀ pending ∈ group, writeGroup pending.2.reverse (some t) d = .ok () d₁) ∧
      stringBytes t = .ok bytes ∧ d₁.Fits bytes ∧
      writeValues rest none (d₁.putGroup bytes) = .ok () d' := by
  have hstring : ∀ {e : Draft}, (do
      let bytes ← Attempt.ofExcept (stringBytes t)
      writeGroup bytes (some t)
      writeValues rest none) e = .ok () d' →
      ∃ bytes, stringBytes t = .ok bytes ∧ e.Fits bytes ∧
        writeValues rest none (e.putGroup bytes) = .ok () d' := by
    intro e he
    obtain ⟨bytes, e₁, hresult, he⟩ := Attempt.bind_eq_ok.mp he
    obtain ⟨hbytes, rfl⟩ := Attempt.ofExcept_eq_ok.mp hresult
    obtain ⟨_, e₂, hwrite, hrest⟩ := Attempt.bind_eq_ok.mp he
    obtain ⟨hfits, rfl⟩ := writeGroup_eq_ok_iff.mp hwrite
    exact ⟨bytes, hbytes, hfits, hrest⟩
  unfold writeValues at h
  rw [if_pos hstr] at h
  cases group with
  | none =>
    obtain ⟨bytes, hbytes⟩ := hstring h
    exact ⟨d, bytes, fun _ => rfl, by simp, hbytes⟩
  | some pending =>
    obtain ⟨_, d₁, hwrite, h⟩ := Attempt.bind_eq_ok.mp h
    obtain ⟨bytes, hbytes⟩ := hstring h
    exact ⟨d₁, bytes, nofun, by rintro _ ⟨⟩; exact hwrite, hbytes⟩

/-- A number among values is pending behind the numbers that are. -/
theorem exists_value_of_number {t : Token} {rest : List Token}
    {group : Option (Token × List UInt8)} {d d' : Draft} (hnumber : t.kind ≠ .str)
    (h : writeValues (t :: rest) group d = .ok () d') :
    ∃ n, value t 255 = .ok n ∧
      writeValues rest (some (t, n.toUInt8 :: (group.map Prod.snd).getD [])) d = .ok () d' := by
  unfold writeValues at h
  rw [if_neg hnumber] at h
  obtain ⟨n, d₁, hresult, h⟩ := Attempt.bind_eq_ok.mp h
  obtain ⟨hvalue, rfl⟩ := Attempt.ofExcept_eq_ok.mp hresult
  refine ⟨n, hvalue, ?_⟩
  cases group <;> exact h

/-- Values that are written are groups. -/
theorem puts_of_writeValues {values : List Token} {group : Option (Token × List UInt8)}
    {d d' : Draft} (hsome : values ≠ [] ∨ group ≠ none)
    (h : writeValues values group d = .ok () d') : Puts d d' := by
  induction values generalizing group d with
  | nil =>
    cases group with
    | none => simp at hsome
    | some numbers => exact puts_of_writeGroup h
  | cons t rest ih =>
    by_cases hstr : t.kind = .str
    · obtain ⟨d₁, bytes, hnone, hpending, -, hfits, hrest⟩ := exists_writeGroup_of_str hstr h
      have hstring : Puts d₁ d' := by
        cases rest with
        | nil =>
          cases hrest
          exact .one bytes hfits
        | cons t' rest' => exact .cons bytes hfits (ih (.inl (List.cons_ne_nil _ _)) hrest)
      cases group with
      | none => exact hnone rfl ▸ hstring
      | some pending =>
        obtain ⟨hnumbers, rfl⟩ := writeGroup_eq_ok_iff.mp (hpending pending rfl)
        exact .cons _ hnumbers hstring
    · obtain ⟨n, -, hrest⟩ := exists_value_of_number hstr h
      exact ih (.inr (Option.some_ne_none _)) hrest

theorem DataEnds.putGroup {d : Draft} (h : d.DataEnds) (hsize : d.memory.layout.size ≤ 65535)
    {bytes : List UInt8} (hfits : d.Fits bytes) : (d.putGroup bytes).DataEnds := by
  have hlast := Layout.lastAddressable_eq hsize
  have hbound := h.bound
  unfold Fits at hfits
  constructor
  · change max d.dataEnd (d.position.getD 0 + bytes.length + 1) ≤ _
    have hsame : (d.putGroup bytes).memory.layout = d.memory.layout := rfl
    rw [hsame]
    omega
  · intro k hk
    have hk' : max d.dataEnd (d.position.getD 0 + bytes.length + 1) ≤ k + 1 := hk
    change (d.memory.replace (d.position.getD 0) (bytes ++ [0])).byteAt k = 0
    rcases Nat.lt_or_ge k d.memory.layout.size with hin | hout
    · rw [Memory.byteAt_replace_string (by omega)]
      split
      · exact List.getD_eq_default _ _ (by omega)
      · exact h.zero k (by omega)
    · exact Memory.byteAt_of_size_le hout

theorem varsBelow_putGroup {d : Draft} {bytes : List UInt8}
    (h : d.VarsBelow (max d.dataEnd (d.position.getD 0 + 1))) :
    (d.putGroup bytes).VarsBelow (d.putGroup bytes).dataEnd := by
  intro name address hfind
  have hbelow := h name address hfind
  change address < max d.dataEnd (d.position.getD 0 + bytes.length + 1)
  omega

/-- The part of a draft that code goes to. -/
def code (d : Draft) : SymbolTable × List Statement × Nat := (d.labels, d.statements, d.romLength)

theorem Puts.sound {d d' : Draft} (h : Puts d d') (hsize : d.memory.layout.size ≤ 65535)
    (hdata : d.DataEnds) (hvars : d.VarsBelow (max d.dataEnd (d.position.getD 0 + 1))) :
    d'.memory.layout = d.memory.layout ∧ d'.code = d.code ∧ d'.DataEnds ∧
      d'.VarsBelow d'.dataEnd := by
  induction h with
  | one bytes hfits =>
    exact ⟨rfl, rfl, hdata.putGroup hsize hfits, varsBelow_putGroup hvars⟩
  | cons bytes hfits hrest ih =>
    have hvars' : (putGroup _ bytes).VarsBelow (putGroup _ bytes).dataEnd :=
      varsBelow_putGroup hvars
    apply ih hsize (hdata.putGroup hsize hfits)
    intro name address hfind
    exact lt_of_lt_of_le (hvars' name address hfind) (le_max_left _ _)

/-! ## Code -/

/-- The code of a draft has a length of sixteen bits, its statements follow each other, and its
labels stand at them or behind the last. -/
structure CodeLaidOut (d : Draft) : Prop where
  length : d.romLength ≤ maxRomLength
  laidOut : LaidOut 0 d.statementList d.romLength
  labels : ∀ name offset, d.labels.find? name = some offset →
    offset = d.romLength ∨ ∃ s ∈ d.statementList, s.offset = offset

theorem CodeLaidOut.of_code_eq {d d' : Draft} (h : d.CodeLaidOut) (hcode : d'.code = d.code) :
    d'.CodeLaidOut := by
  simp only [code, Prod.mk.injEq] at hcode
  obtain ⟨hlabels, hstatements, hlength⟩ := hcode
  have hlist : d'.statementList = d.statementList := congrArg List.reverse hstatements
  constructor
  · rw [hlength]
    exact h.length
  · rw [hlength, hlist]
    exact h.laidOut
  · rw [hlength, hlist, hlabels]
    exact h.labels

/-! ## Lines -/

/-- The draft of a source is sound all along the first pass. -/
structure Sound (layout : Layout) (d : Draft) : Prop where
  layout : d.memory.layout = layout
  data : d.DataEnds
  vars : d.VarsBelow d.dataEnd
  code : d.CodeLaidOut

section Lines

variable {layout : Layout} {d d' : Draft}

theorem sound_empty (layout : Layout) : Sound layout (empty layout) := by
  refine ⟨rfl, ⟨Nat.zero_le _, fun k _ => Memory.byteAt_zeroed layout k⟩, ?_,
    ⟨Nat.zero_le _, rfl, ?_⟩⟩
  · intro name address hfind
    cases hfind
  · intro name offset hfind
    cases hfind

/-- What else a draft keeps, its position and its overruns, is free. -/
theorem Sound.congr (h : Sound layout d) (hmemory : d'.memory = d.memory)
    (hvars : d'.vars = d.vars) (hend : d'.dataEnd = d.dataEnd) (hcode : d'.code = d.code) :
    Sound layout d' := by
  refine ⟨?_, ⟨?_, ?_⟩, ?_, h.code.of_code_eq hcode⟩
  · rw [hmemory]
    exact h.layout
  · rw [hmemory, hend]
    exact h.data.bound
  · rw [hmemory, hend]
    exact h.data.zero
  · intro name address hfind
    rw [hvars] at hfind
    rw [hend]
    exact h.vars name address hfind

/-- The block is closed where nothing follows. -/
theorem closeData_eq_ok {rest : List Token} (h : closeData rest d = .ok () d') :
    rest = [] ∧ d' = { d with
      position := none
      overruns := if d.memory.layout.dataStart.toNat < d.dataEnd then d.dataEnd :: d.overruns
        else d.overruns } := by
  unfold closeData at h
  rw [Attempt.modify_bind_apply] at h
  cases rest with
  | cons t rest => cases h
  | nil =>
    refine ⟨rfl, ?_⟩
    simp only [Attempt.get_bind_apply] at h
    split at h
    · next hover =>
      cases h
      rw [if_pos hover]
    · next hover =>
      cases h
      rw [if_neg hover]

theorem closeData_nil (d : Draft) :
    closeData [] d = .ok () { d with
      position := none
      overruns := if d.memory.layout.dataStart.toNat < d.dataEnd then d.dataEnd :: d.overruns
        else d.overruns } := by
  unfold closeData
  rw [Attempt.modify_bind_apply]
  simp only [Attempt.get_bind_apply]
  split <;> rfl

theorem Sound.of_closeData (h : Sound layout d) {rest : List Token}
    (hclose : closeData rest d = .ok () d') : Sound layout d' := by
  obtain ⟨-, rfl⟩ := closeData_eq_ok hclose
  exact h.congr rfl rfl rfl rfl

theorem Sound.of_puts (h : Sound layout d) (hsize : layout.size ≤ 65535) {name : String}
    (hputs : Puts { d with vars := d.vars.define name (d.position.getD 0) } d') :
    Sound layout d' := by
  have hbelow : VarsBelow { d with vars := d.vars.define name (d.position.getD 0) }
      (max d.dataEnd (d.position.getD 0 + 1)) := by
    intro other address hfind
    by_cases hname : other = name
    · subst hname
      rw [SymbolTable.find?_define_self] at hfind
      cases hfind
      omega
    · rw [SymbolTable.find?_define_of_ne _ hname] at hfind
      have := h.vars other address hfind
      omega
  obtain ⟨hlayout, hcode, hdata, hvars⟩ := hputs.sound (h.layout ▸ hsize)
    ⟨h.data.bound, h.data.zero⟩ hbelow
  exact ⟨hlayout.trans h.layout, hdata, hvars, h.code.of_code_eq hcode⟩

/-- Writes the values behind the name of a variable. Without any, the variable is a zero byte. -/
def writeAll (values : List Token) : Attempt Draft Unit :=
  if values.isEmpty then writeGroup [] none else writeValues values none

theorem puts_of_writeAll {values : List Token} (h : writeAll values d = .ok () d') :
    Puts d d' := by
  unfold writeAll at h
  split at h
  · exact puts_of_writeGroup h
  · next hsome => exact puts_of_writeValues (.inl (by simpa using hsome)) h

/-- What follows the values of a variable on its line: the end of the block, or nothing. -/
def finishVariable (rest : List Token) : Attempt Draft Unit :=
  match rest.dropWhile (!Token.isWord · endWord) with
  | _ :: after => closeData after
  | [] => pure ()

/-- The line ends with the values, or with the word that closes the block. -/
theorem finishVariable_cases {rest : List Token} (h : finishVariable rest d = .ok () d') :
    (rest.dropWhile (!Token.isWord · endWord) = [] ∧ d' = d) ∨
      ∃ word, rest.dropWhile (!Token.isWord · endWord) = [word] ∧ closeData [] d = .ok () d' := by
  unfold finishVariable at h
  cases hdrop : rest.dropWhile (!Token.isWord · endWord) with
  | nil =>
    rw [hdrop] at h
    cases h
    exact .inl ⟨rfl, rfl⟩
  | cons word after =>
    rw [hdrop] at h
    obtain ⟨rfl, -⟩ := closeData_eq_ok h
    exact .inr ⟨word, rfl, h⟩

theorem addVariable_of_new {name : Token} (rest : List Token) (hkind : name.kind = .word)
    (hidentifier : isIdentifier name.text) (hnew : d.vars.find? name.text = none) :
    addVariable name rest d =
      (writeAll (rest.takeWhile (!Token.isWord · endWord)) >>= fun _ => finishVariable rest)
        { d with vars := d.vars.define name.text (d.position.getD 0) } := by
  have hcontains : d.vars.contains name.text = false := by
    rw [SymbolTable.contains, hnew]
    rfl
  unfold addVariable writeAll
  rw [if_neg (by simp [hkind, hidentifier])]
  simp only [Attempt.get_bind_apply]
  rw [if_neg (by simp [hcontains])]
  simp only [Attempt.set_bind_apply]
  split <;> rfl

theorem addVariable_eq_ok_iff {name : Token} {rest : List Token} :
    addVariable name rest d = .ok () d' ↔
      (name.kind = .word ∧ isIdentifier name.text ∧ d.vars.find? name.text = none) ∧
        ∃ d₁, writeAll (rest.takeWhile (!Token.isWord · endWord))
            { d with vars := d.vars.define name.text (d.position.getD 0) } = .ok () d₁ ∧
          finishVariable rest d₁ = .ok () d' := by
  by_cases hnew : name.kind = .word ∧ isIdentifier name.text ∧ d.vars.find? name.text = none
  · rw [addVariable_of_new rest hnew.1 hnew.2.1 hnew.2.2, Attempt.bind_eq_ok]
    constructor
    · intro hparts
      rcases hparts with ⟨_, d₁, hwrite, hfinish⟩
      exact ⟨hnew, d₁, hwrite, hfinish⟩
    · intro hparts
      rcases hparts with ⟨-, d₁, hwrite, hfinish⟩
      exact ⟨(), d₁, hwrite, hfinish⟩
  · refine iff_of_false (fun h => hnew ?_) (fun h => hnew h.1)
    unfold addVariable at h
    by_cases hname : name.kind ≠ .word ∨ !isIdentifier name.text
    · rw [if_pos hname] at h
      cases h
    · rw [if_neg hname] at h
      simp only [Attempt.get_bind_apply] at h
      by_cases hcontains : d.vars.contains name.text = true
      · rw [if_pos hcontains] at h
        cases h
      · rw [not_or, not_not, Bool.not_eq_true, Bool.not_eq_false'] at hname
        rw [Bool.not_eq_true, SymbolTable.contains, Option.isSome_eq_false_iff,
          Option.isNone_iff_eq_none] at hcontains
        exact ⟨hname.1, hname.2, hcontains⟩

theorem Sound.of_addVariable (h : Sound layout d) (hsize : layout.size ≤ 65535) {name : Token}
    {rest : List Token} (hadd : addVariable name rest d = .ok () d') : Sound layout d' := by
  obtain ⟨-, d₁, hwrite, hfinish⟩ := addVariable_eq_ok_iff.mp hadd
  have hsound := h.of_puts hsize (puts_of_writeAll hwrite)
  rcases finishVariable_cases hfinish with ⟨-, rfl⟩ | ⟨-, -, hclose⟩
  · exact hsound
  · exact hsound.of_closeData hclose

theorem addData_end {first : Token} (rest : List Token) (hend : first.isWord endWord) :
    addData (first :: rest) = closeData rest := by
  rw [addData.eq_def]
  exact if_pos hend

theorem addData_variable {first : Token} (rest : List Token) (hend : first.isWord endWord = false)
    (horigin : first.isWord originWord = false) :
    addData (first :: rest) = addVariable first rest := by
  rw [addData.eq_def]
  dsimp only
  rw [if_neg (by simp [hend]), if_neg (by simp [horigin])]

theorem addData_origin_eq_ok_iff {first address : Token} {rest : List Token}
    (hend : first.isWord endWord = false) (horigin : first.isWord originWord) :
    addData (first :: address :: rest) d = .ok () d' ↔
      ∃ base, value address 65535 = .ok base ∧
        base ≤ d.memory.layout.lastAddressable.toNat ∧
        addData rest { d with position := some base } = .ok () d' := by
  rw [addData, if_neg (by simp [hend]), if_pos horigin, Attempt.bind_eq_ok]
  simp only [Attempt.ofExcept_eq_ok, Attempt.get_bind_apply]
  constructor
  · intro hparts
    rcases hparts with ⟨base, _, ⟨hvalue, rfl⟩, h⟩
    refine ⟨base, hvalue, ?_⟩
    by_cases hbase : d.memory.layout.lastAddressable.toNat < base
    · rw [if_pos hbase] at h
      cases h
    · rw [if_neg hbase] at h
      exact ⟨Nat.le_of_not_lt hbase, h⟩
  · intro hparts
    rcases hparts with ⟨base, hvalue, hbase, h⟩
    refine ⟨base, d, ⟨hvalue, rfl⟩, ?_⟩
    rw [if_neg (Nat.not_lt_of_le hbase)]
    exact h

theorem Sound.of_addData (h : Sound layout d) (hsize : layout.size ≤ 65535)
    {tokens : List Token} (hadd : addData tokens d = .ok () d') : Sound layout d' := by
  induction tokens using addData.induct generalizing d with
  | case1 =>
    cases hadd
    exact h
  | case2 first rest hend =>
    rw [addData_end rest hend] at hadd
    exact h.of_closeData hadd
  | case3 first hend horigin =>
    rw [addData, if_neg hend, if_pos horigin] at hadd
    cases hadd
  | case4 first hend horigin address rest ih =>
    rw [Bool.not_eq_true] at hend
    obtain ⟨base, -, -, hrest⟩ := (addData_origin_eq_ok_iff hend horigin).mp hadd
    refine ih ?_ hrest
    exact h.congr rfl rfl rfl rfl
  | case5 first rest hend horigin =>
    rw [Bool.not_eq_true] at hend horigin
    rw [addData_variable rest hend horigin] at hadd
    exact h.of_addVariable hsize hadd

theorem addLabel_eq_ok_iff {name : String} {t : Token} :
    addLabel name t d = .ok () d' ↔
      (isIdentifier name ∧ d.labels.find? name = none) ∧
        d' = { d with labels := d.labels.define name d.romLength } := by
  unfold addLabel
  by_cases hname : (!isIdentifier name) = true
  · rw [if_pos hname]
    apply iff_of_false
    · intro h
      cases h
    · intro hparts
      rcases hparts with ⟨⟨hidentifier, -⟩, -⟩
      simp [hidentifier] at hname
  · rw [if_neg hname]
    simp only [Attempt.get_bind_apply]
    by_cases hcontains : d.labels.contains name = true
    · rw [if_pos hcontains]
      apply iff_of_false
      · intro h
        cases h
      · intro hparts
        rcases hparts with ⟨⟨-, hnew⟩, -⟩
        simp [SymbolTable.contains, hnew] at hcontains
    · rw [if_neg hcontains]
      rw [Bool.not_eq_true, SymbolTable.contains, Option.isSome_eq_false_iff,
        Option.isNone_iff_eq_none] at hcontains
      simp only [Attempt.set_apply, EStateM.Result.ok.injEq, true_and]
      constructor
      · intro h
        exact ⟨⟨by simpa using hname, hcontains⟩, h.symm⟩
      · intro h
        exact h.2.symm

theorem addStatement_eq_ok_iff {line : Nat} {mnemonic : Token} {operands : List Token} :
    addStatement line mnemonic operands d = .ok () d' ↔
      (operands.length ≤ 2 ∧ mnemonic.kind = .word ∧
        d.romLength + (1 + 2 * operands.length) ≤ maxRomLength) ∧
        d' = { d with
          statements := ⟨line, d.romLength, mnemonic, operands⟩ :: d.statements
          romLength := d.romLength + (1 + 2 * operands.length) } := by
  unfold addStatement
  rcases Nat.lt_or_ge 2 operands.length with hextra | hlength
  · rw [statementLength?_of_gt hextra]
    apply iff_of_false
    · intro h
      cases h
    · intro hparts
      rcases hparts with ⟨⟨hle, -⟩, -⟩
      omega
  · rw [statementLength?_of_le hlength]
    dsimp only
    by_cases hkind : mnemonic.kind = .word
    · rw [if_neg (not_not.mpr hkind)]
      simp only [Attempt.get_bind_apply]
      by_cases hspace : maxRomLength < d.romLength + (1 + 2 * operands.length)
      · rw [if_pos hspace]
        apply iff_of_false
        · intro h
          cases h
        · intro hparts
          rcases hparts with ⟨⟨-, -, hle⟩, -⟩
          omega
      · rw [if_neg hspace]
        simp only [Attempt.set_apply, EStateM.Result.ok.injEq, true_and]
        constructor
        · intro h
          exact ⟨⟨hlength, hkind, Nat.le_of_not_lt hspace⟩, h.symm⟩
        · intro h
          exact h.2.symm
    · rw [if_pos hkind]
      apply iff_of_false
      · intro h
        cases h
      · intro hparts
        rcases hparts with ⟨⟨-, hword, -⟩, -⟩
        exact hkind hword

theorem Sound.of_addLabel (h : Sound layout d) {name : String} {t : Token}
    (hadd : addLabel name t d = .ok () d') : Sound layout d' := by
  obtain ⟨-, rfl⟩ := addLabel_eq_ok_iff.mp hadd
  refine ⟨h.layout, ⟨h.data.bound, h.data.zero⟩, h.vars, ⟨h.code.length, h.code.laidOut, ?_⟩⟩
  intro other offset hfind
  by_cases hname : other = name
  · subst hname
    rw [SymbolTable.find?_define_self] at hfind
    cases hfind
    exact .inl rfl
  · rw [SymbolTable.find?_define_of_ne _ hname] at hfind
    exact h.code.labels other offset hfind

theorem Sound.of_addStatement (h : Sound layout d) {line : Nat} {mnemonic : Token}
    {operands : List Token} (hadd : addStatement line mnemonic operands d = .ok () d') :
    Sound layout d' := by
  obtain ⟨⟨-, -, hlength⟩, rfl⟩ := addStatement_eq_ok_iff.mp hadd
  have hlist : statementList { d with
      statements := ⟨line, d.romLength, mnemonic, operands⟩ :: d.statements
      romLength := d.romLength + (1 + 2 * operands.length) } =
        d.statementList ++ [⟨line, d.romLength, mnemonic, operands⟩] := List.reverse_cons
  refine ⟨h.layout, ⟨h.data.bound, h.data.zero⟩, h.vars, ⟨hlength, ?_, ?_⟩⟩
  · rw [hlist]
    exact laidOut_append_singleton h.code.laidOut rfl
  · intro name offset hfind
    rw [hlist]
    rcases h.code.labels name offset hfind with hlast | ⟨s, hs, hoffset⟩
    · exact .inr ⟨_, List.mem_append_right _ (List.mem_singleton_self _), hlast.symm⟩
    · exact .inr ⟨s, List.mem_append_left _ hs, hoffset⟩

/-- What becomes of a draft with a line that is read without a failure. -/
inductive Adds (line : Line) (d d' : Draft) : Prop where
  | data (hopen : d.position.isSome) (h : addData line.tokens d = .ok () d')
  | blank (hclosed : d.position = none) (htokens : line.tokens = []) (h : d' = d)
  | block {first : Token} {rest : List Token} (hclosed : d.position = none)
    (htokens : line.tokens = first :: rest)
    (hdata : first.kind = .word ∧ Text.lower first.text = dataWord)
    (h : addData rest { d with position := some 0 } = .ok () d')
  | statement {mnemonic : Token} {operands : List Token} (hclosed : d.position = none)
    (htokens : line.tokens = mnemonic :: operands)
    (hcode : ¬ (mnemonic.kind = .word ∧ Text.lower mnemonic.text = dataWord))
    (hlabel : labelName? mnemonic = none)
    (h : addStatement line.number mnemonic operands d = .ok () d')
  | label {first : Token} {name : String} (hclosed : d.position = none)
    (htokens : line.tokens = [first])
    (hcode : ¬ (first.kind = .word ∧ Text.lower first.text = dataWord))
    (hlabel : labelName? first = some name) (h : addLabel name first d = .ok () d')
  | labelled {first mnemonic : Token} {operands : List Token} {name : String} {middle : Draft}
    (hclosed : d.position = none) (htokens : line.tokens = first :: mnemonic :: operands)
    (hcode : ¬ (first.kind = .word ∧ Text.lower first.text = dataWord))
    (hlabel : labelName? first = some name) (hfront : addLabel name first d = .ok () middle)
    (h : addStatement line.number mnemonic operands middle = .ok () d')

theorem adds_of_addLine {line : Line} (h : addLine line d = .ok () d') : Adds line d d' := by
  rw [addLine, Attempt.mapError_eq_ok, Attempt.get_bind_apply] at h
  cases hposition : d.position.isSome with
  | true =>
    rw [hposition, if_pos rfl] at h
    exact .data hposition h
  | false =>
    rw [hposition, if_neg Bool.false_ne_true] at h
    have hclosed : d.position = none := by simpa using hposition
    cases htokens : line.tokens with
    | nil =>
      rw [htokens] at h
      cases h
      exact .blank hclosed htokens rfl
    | cons first rest =>
      rw [htokens] at h
      dsimp only at h
      by_cases hdata : first.kind = .word ∧ Text.lower first.text = dataWord
      · rw [if_pos hdata, Attempt.set_bind_apply] at h
        exact .block hclosed htokens hdata h
      · rw [if_neg hdata] at h
        cases hlabel : labelName? first with
        | none =>
          rw [hlabel] at h
          exact .statement hclosed htokens hdata hlabel h
        | some name =>
          rw [hlabel] at h
          obtain ⟨_, middle, hfront, h⟩ := Attempt.bind_eq_ok.mp h
          cases rest with
          | nil =>
            cases h
            exact .label hclosed htokens hdata hlabel hfront
          | cons mnemonic operands => exact .labelled hclosed htokens hdata hlabel hfront h

theorem addLine_of_adds {line : Line} (h : Adds line d d') : addLine line d = .ok () d' := by
  rw [addLine, Attempt.mapError_eq_ok, Attempt.get_bind_apply]
  cases h with
  | data hopen h => rwa [if_pos hopen]
  | blank hclosed htokens h =>
    rw [hclosed, if_neg (by simp), htokens, h]
    rfl
  | block hclosed htokens hdata h =>
    rw [hclosed, if_neg (by simp), htokens]
    dsimp only
    rwa [if_pos hdata, Attempt.set_bind_apply]
  | statement hclosed htokens hcode hlabel h =>
    rw [hclosed, if_neg (by simp), htokens]
    dsimp only
    rwa [if_neg hcode, hlabel]
  | label hclosed htokens hcode hlabel h =>
    rw [hclosed, if_neg (by simp), htokens]
    dsimp only
    rw [if_neg hcode, hlabel]
    dsimp only
    rw [Attempt.bind_of_ok h]
    rfl
  | labelled hclosed htokens hcode hlabel hfront h =>
    rw [hclosed, if_neg (by simp), htokens]
    dsimp only
    rw [if_neg hcode, hlabel]
    dsimp only
    rwa [Attempt.bind_of_ok hfront]

theorem Sound.of_addLine (h : Sound layout d) (hsize : layout.size ≤ 65535) {line : Line}
    (hadd : addLine line d = .ok () d') : Sound layout d' := by
  cases adds_of_addLine hadd with
  | data _ hadd => exact h.of_addData hsize hadd
  | blank _ _ hsame =>
    rw [hsame]
    exact h
  | block _ _ _ hadd =>
    refine Sound.of_addData ?_ hsize hadd
    exact h.congr rfl rfl rfl rfl
  | statement _ _ _ _ hadd => exact h.of_addStatement hadd
  | label _ _ _ _ hadd => exact h.of_addLabel hadd
  | labelled _ _ _ _ hfront hadd => exact (h.of_addLabel hfront).of_addStatement hadd

theorem Sound.of_forM (h : Sound layout d) (hsize : layout.size ≤ 65535) {lines : List Line}
    (hadd : lines.forM addLine d = .ok () d') : Sound layout d' := by
  induction lines generalizing d with
  | nil =>
    cases hadd
    exact h
  | cons line rest ih =>
    change (addLine line >>= fun _ => rest.forM addLine) d = .ok () d' at hadd
    obtain ⟨_, d₁, hline, hrest⟩ := Attempt.bind_eq_ok.mp hadd
    exact ih (h.of_addLine hsize hline) hrest

theorem addLines_eq_ok_iff {lines : List Line} :
    addLines lines d = .ok () d' ↔ lines.forM addLine d = .ok () d' ∧ d'.position = none := by
  unfold addLines
  rw [Attempt.bind_eq_ok]
  constructor
  · intro h
    rcases h with ⟨_, d₁, hlines, hend⟩
    rw [Attempt.get_bind_apply] at hend
    by_cases hopen : d₁.position.isSome
    · rw [if_pos hopen] at hend
      cases hend
    · rw [if_neg hopen] at hend
      cases hend
      exact ⟨hlines, by simpa using hopen⟩
  · intro h
    rcases h with ⟨hlines, hclosed⟩
    refine ⟨(), d', hlines, ?_⟩
    rw [Attempt.get_bind_apply, if_neg (by simp [hclosed])]
    rfl

end Lines

theorem read_eq_ok_iff {source : String} {config : Config} {d : Draft} :
    read source config = .ok d ↔
      ∃ layout lines, config.layout = .ok layout ∧ Source.read source = .ok lines ∧
        addLines lines (empty layout) = .ok () d := by
  unfold read attempt
  simp only [Except.bind_eq_ok_iff]
  constructor
  · intro h
    rcases h with ⟨result, ⟨layout, hlayout, lines, hlines, hresult⟩, hd⟩
    cases hresult
    cases hadd : addLines lines (empty layout) with
    | ok _ d₁ =>
      rw [hadd] at hd
      cases hd
      exact ⟨layout, lines, hlayout, hlines, hadd⟩
    | error e d₁ =>
      rw [hadd] at hd
      cases hd
  · intro h
    rcases h with ⟨layout, lines, hlayout, hlines, hadd⟩
    refine ⟨_, ⟨layout, hlayout, lines, hlines, rfl⟩, ?_⟩
    rw [hadd]
    rfl

/-- The draft of a source is sound. -/
theorem sound_of_read {source : String} {config : Config} {d : Draft}
    (h : read source config = .ok d) :
    ∃ layout, config.layout = .ok layout ∧ Sound layout d := by
  obtain ⟨layout, lines, hlayout, -, hadd⟩ := read_eq_ok_iff.mp h
  have hsize := (Config.size_of_layout hlayout).2.2
  exact ⟨layout, hlayout, (sound_empty layout).of_forM hsize (addLines_eq_ok_iff.mp hadd).1⟩

end Draft

end TeachingCpu
