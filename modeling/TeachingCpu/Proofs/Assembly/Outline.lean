import TeachingCpu.Proofs.Assembly.Draft

/-!
# The outline of a source

The outline of a source is what its lines do, one thing after the other: open and close data
blocks, move the position in them, declare variables, define labels and add statements. It is read
off the tokens alone. The first pass over a source that it accepts places the items of the outline
one by one (`placed_outline_of_read`), and where labels, statements and variables are placed is the
sum of what stands in front of them.
-/

namespace TeachingCpu

namespace Draft

/-- What the lines of a source do, one thing after the other. -/
inductive Item where
  /-- Opens a data block. -/
  | block
  /-- Moves the position in a data block. -/
  | origin (address : Nat)
  /-- Declares a variable with the groups of its values. -/
  | var (name : String) (groups : List (List UInt8))
  /-- Closes a data block. -/
  | close
  | label (name : String)
  | statement (line : Nat) (mnemonic : Token) (operands : List Token)
deriving DecidableEq, Repr

/-! ## Reading an outline -/

/-- The number that a value denotes, zero if it denotes none. -/
def valueOf (t : Token) (max : Nat) : Nat := (value t max).toOption.getD 0

/-- The bytes of a string literal, none if a character has no byte. -/
def bytesOf (t : Token) : List UInt8 := (stringBytes t).toOption.getD []

/-- The group of some numbers in a row, which are reversed. -/
def numberGroup : List UInt8 → List (List UInt8)
  | [] => []
  | numbers => [numbers.reverse]

/-- The groups of some values after the numbers of a group, which is reversed: a string is a group
of its own, and numbers in a row are one. -/
def groupsAfter (numbers : List UInt8) : List Token → List (List UInt8)
  | [] => numberGroup numbers
  | t :: rest =>
    if t.kind = .str then numberGroup numbers ++ bytesOf t :: groupsAfter [] rest
    else groupsAfter ((valueOf t 255).toUInt8 :: numbers) rest

/-- The groups of the values of a variable. Without values, there is one without bytes. -/
def valueGroups (values : List Token) : List (List UInt8) :=
  if values.isEmpty then [[]] else groupsAfter [] values

/-- The items of a line, or of what is left of it, inside a data block. -/
def dataItems : List Token → List Item
  | [] => []
  | first :: rest =>
    if first.isWord endWord then [.close]
    else if first.isWord originWord then
      match rest with
      | [] => []
      | address :: rest => .origin (valueOf address 65535) :: dataItems rest
    else
      .var first.text (valueGroups (rest.takeWhile (!·.isWord endWord))) ::
        if rest.any (·.isWord endWord) then [.close] else []

theorem dataItems_end {first : Token} (rest : List Token) (hend : first.isWord endWord) :
    dataItems (first :: rest) = [.close] := by
  rw [dataItems.eq_def]
  exact if_pos hend

theorem dataItems_origin {first : Token} (hend : first.isWord endWord = false)
    (horigin : first.isWord originWord) (address : Token) (rest : List Token) :
    dataItems (first :: address :: rest) = .origin (valueOf address 65535) :: dataItems rest := by
  rw [dataItems, if_neg (by simp [hend]), if_pos horigin]

theorem dataItems_variable {first : Token} (rest : List Token)
    (hend : first.isWord endWord = false) (horigin : first.isWord originWord = false) :
    dataItems (first :: rest) =
      .var first.text (valueGroups (rest.takeWhile (!·.isWord endWord))) ::
        if rest.any (·.isWord endWord) then [.close] else [] := by
  rw [dataItems.eq_def]
  dsimp only
  rw [if_neg (by simp [hend]), if_neg (by simp [horigin])]

/-- The items of a line outside of data blocks. -/
def codeItems (line : Line) : List Item :=
  match line.tokens with
  | [] => []
  | first :: rest =>
    if first.kind = .word ∧ Text.lower first.text = dataWord then .block :: dataItems rest
    else match labelName? first with
      | none => [.statement line.number first rest]
      | some name =>
        .label name ::
          match rest with
          | [] => []
          | mnemonic :: operands => [.statement line.number mnemonic operands]

/-- Whether a data block is open behind an item. -/
def Item.leavesOpen (inBlock : Bool) : Item → Bool
  | .block => true
  | .close => false
  | _ => inBlock

/-- The outline of lines that begin inside or outside of a data block. -/
def outlineFrom (inBlock : Bool) : List Line → List Item
  | [] => []
  | line :: rest =>
    let items := if inBlock then dataItems line.tokens else codeItems line
    items ++ outlineFrom (items.foldl Item.leavesOpen inBlock) rest

/-- The outline of the lines of a source. -/
def outline (lines : List Line) : List Item := outlineFrom false lines

/-! ## Placing items -/

/-- The draft behind an item. -/
def place (d : Draft) : Item → Draft
  | .block => { d with position := some 0 }
  | .origin address => { d with position := some address }
  | .var name groups =>
    groups.foldl putGroup { d with vars := d.vars.define name (d.position.getD 0) }
  | .close =>
    { d with
      position := none
      overruns := if d.memory.layout.dataStart.toNat < d.dataEnd then d.dataEnd :: d.overruns
        else d.overruns }
  | .label name => { d with labels := d.labels.define name d.romLength }
  | .statement line mnemonic operands =>
    { d with
      statements := ⟨line, d.romLength, mnemonic, operands⟩ :: d.statements
      romLength := d.romLength + (1 + 2 * operands.length) }

/-- Whether groups of bytes lie inside memory, one behind the other. -/
def FitAll (d : Draft) : List (List UInt8) → Prop
  | [] => True
  | bytes :: rest => d.Fits bytes ∧ (d.putGroup bytes).FitAll rest

/-- What the first pass asks of an item. -/
def Accepts (d : Draft) : Item → Prop
  | .block => d.position = none
  | .origin address => d.position.isSome ∧ address ≤ d.memory.layout.lastAddressable.toNat
  | .var name groups =>
    d.position.isSome ∧ isIdentifier name ∧ d.vars.find? name = none ∧
      FitAll { d with vars := d.vars.define name (d.position.getD 0) } groups
  | .close => d.position.isSome
  | .label name => d.position = none ∧ isIdentifier name ∧ d.labels.find? name = none
  | .statement _ mnemonic operands =>
    d.position = none ∧ operands.length ≤ 2 ∧ mnemonic.kind = .word ∧
      d.romLength + (1 + 2 * operands.length) ≤ maxRomLength

/-- A draft that comes from another one by items that are accepted. -/
inductive Placed : Draft → List Item → Draft → Prop where
  | nil (d : Draft) : Placed d [] d
  | cons {d d' : Draft} {item : Item} {items : List Item} (hitem : d.Accepts item)
    (hrest : Placed (d.place item) items d') : Placed d (item :: items) d'

theorem Placed.one {d : Draft} {item : Item} (h : d.Accepts item) :
    Placed d [item] (d.place item) :=
  .cons h (.nil _)

theorem placed_append {d d' : Draft} {front back : List Item} :
    Placed d (front ++ back) d' ↔ ∃ middle, Placed d front middle ∧ Placed middle back d' := by
  induction front generalizing d with
  | nil =>
    constructor
    · intro h
      exact ⟨d, .nil d, h⟩
    · rintro ⟨_, ⟨⟩, h⟩
      exact h
  | cons item front ih =>
    constructor
    · rintro (_ | ⟨hitem, hrest⟩)
      obtain ⟨middle, hfront, hback⟩ := ih.mp hrest
      exact ⟨middle, .cons hitem hfront, hback⟩
    · rintro ⟨middle, _ | ⟨hitem, hfront⟩, hback⟩
      exact .cons hitem (ih.mpr ⟨middle, hfront, hback⟩)

/-! ## The first pass places the outline -/

theorem valueOf_eq {t : Token} {max n : Nat} (h : value t max = .ok n) : valueOf t max = n := by
  rw [valueOf, h]
  rfl

theorem bytesOf_eq {t : Token} {bytes : List UInt8} (h : stringBytes t = .ok bytes) :
    bytesOf t = bytes := by
  rw [bytesOf, h]
  rfl

theorem fitAll_append {d : Draft} {front back : List (List UInt8)} :
    d.FitAll (front ++ back) ↔ d.FitAll front ∧ (front.foldl putGroup d).FitAll back := by
  induction front generalizing d with
  | nil => simp [FitAll]
  | cons bytes front ih => simp [FitAll, ih, and_assoc]

section Lines

variable {d d' : Draft}

/-- The numbers in front of a string, or at the end, are written as one group. -/
theorem numberGroup_of_writeGroup {numbers : List UInt8} {anchor : Option Token}
    (hne : numbers ≠ []) (h : writeGroup numbers.reverse anchor d = .ok () d') :
    d.FitAll (numberGroup numbers) ∧ d' = (numberGroup numbers).foldl putGroup d := by
  obtain ⟨hfits, rfl⟩ := writeGroup_eq_ok_iff.mp h
  cases numbers with
  | nil => exact absurd rfl hne
  | cons n numbers => exact ⟨⟨hfits, trivial⟩, rfl⟩

/-- Values are written as their groups, one behind the other. -/
theorem groups_of_writeValues {values : List Token} {group : Option (Token × List UInt8)}
    (hgroup : ∀ pending ∈ group, pending.2 ≠ [])
    (h : writeValues values group d = .ok () d') :
    d.FitAll (groupsAfter ((group.map Prod.snd).getD []) values) ∧
      d' = (groupsAfter ((group.map Prod.snd).getD []) values).foldl putGroup d := by
  induction values generalizing group d with
  | nil =>
    cases group with
    | none =>
      cases h
      exact ⟨trivial, rfl⟩
    | some numbers => exact numberGroup_of_writeGroup (hgroup _ rfl) h
  | cons t rest ih =>
    by_cases hstr : t.kind = .str
    · obtain ⟨d₁, bytes, hnone, hpending, hbytes, hfits, hrest⟩ := exists_writeGroup_of_str hstr h
      obtain ⟨hall, rfl⟩ := ih (by simp) hrest
      rw [groupsAfter, if_pos hstr, bytesOf_eq hbytes, fitAll_append, List.foldl_append]
      cases group with
      | none =>
        rw [hnone rfl] at hfits hall ⊢
        exact ⟨⟨trivial, hfits, hall⟩, rfl⟩
      | some numbers =>
        obtain ⟨hnumbers, rfl⟩ := numberGroup_of_writeGroup (hgroup _ rfl) (hpending numbers rfl)
        exact ⟨⟨hnumbers, hfits, hall⟩, rfl⟩
    · obtain ⟨n, hvalue, hrest⟩ := exists_value_of_number hstr h
      rw [groupsAfter, if_neg hstr, valueOf_eq hvalue]
      exact ih (by simp) hrest

theorem groups_of_writeAll {values : List Token} (h : writeAll values d = .ok () d') :
    d.FitAll (valueGroups values) ∧ d' = (valueGroups values).foldl putGroup d := by
  unfold writeAll at h
  unfold valueGroups
  split at h
  · next hempty =>
    obtain ⟨hfits, rfl⟩ := writeGroup_eq_ok_iff.mp h
    rw [if_pos hempty]
    exact ⟨⟨hfits, trivial⟩, rfl⟩
  · next hempty =>
    rw [if_neg hempty]
    exact groups_of_writeValues (by simp) h

theorem placed_of_closeData {rest : List Token} (hopen : d.position.isSome)
    (h : closeData rest d = .ok () d') : Placed d [.close] d' := by
  obtain ⟨-, rfl⟩ := closeData_eq_ok h
  exact .one hopen

/-- A row of tokens goes on from a word exactly if the word is among them. -/
theorem any_isWord_of_dropWhile {tokens after : List Token} {word : String} {t : Token}
    (h : tokens.dropWhile (!Token.isWord · word) = t :: after) :
    tokens.any (·.isWord word) = true := by
  by_contra hnone
  have hempty : tokens.dropWhile (!Token.isWord · word) = [] := by simpa using hnone
  rw [h] at hempty
  cases hempty

/-- The block is closed behind the values of a variable where its line goes on. -/
theorem placed_of_finishVariable {rest : List Token} (hopen : d.position.isSome)
    (h : finishVariable rest d = .ok () d') :
    Placed d (if rest.any (·.isWord endWord) then [.close] else []) d' := by
  rcases finishVariable_cases h with ⟨hdrop, rfl⟩ | ⟨word, hdrop, hclose⟩
  · have hnone : rest.any (·.isWord endWord) = false := by simpa using hdrop
    rw [hnone]
    exact .nil d'
  · rw [any_isWord_of_dropWhile hdrop]
    exact placed_of_closeData hopen hclose

theorem position_putGroups (groups : List (List UInt8)) (d : Draft) (h : d.position.isSome) :
    (groups.foldl putGroup d).position.isSome := by
  induction groups generalizing d with
  | nil => exact h
  | cons bytes rest ih => exact ih (d.putGroup bytes) rfl

theorem placed_of_addData {tokens : List Token} (hopen : d.position.isSome)
    (h : addData tokens d = .ok () d') : Placed d (dataItems tokens) d' := by
  induction tokens using addData.induct generalizing d with
  | case1 =>
    cases h
    exact .nil _
  | case2 first rest hend =>
    rw [addData_end rest hend] at h
    rw [dataItems_end rest hend]
    exact placed_of_closeData hopen h
  | case3 first hend horigin =>
    rw [addData, if_neg hend, if_pos horigin] at h
    cases h
  | case4 first hend horigin address rest ih =>
    rw [Bool.not_eq_true] at hend
    obtain ⟨base, hvalue, hbase, hrest⟩ := (addData_origin_eq_ok_iff hend horigin).mp h
    rw [dataItems_origin hend horigin, valueOf_eq hvalue]
    exact .cons ⟨hopen, hbase⟩ (ih rfl hrest)
  | case5 first rest hend horigin =>
    rw [Bool.not_eq_true] at hend horigin
    rw [addData_variable rest hend horigin] at h
    rw [dataItems_variable rest hend horigin]
    obtain ⟨⟨-, hidentifier, hnew⟩, d₁, hwrite, hfinish⟩ := addVariable_eq_ok_iff.mp h
    obtain ⟨hfits, rfl⟩ := groups_of_writeAll hwrite
    refine .cons ⟨hopen, hidentifier, hnew, hfits⟩ (placed_of_finishVariable ?_ hfinish)
    exact position_putGroups _ _ hopen

theorem placed_of_addStatement {line : Nat} {mnemonic : Token} {operands : List Token}
    (hclosed : d.position = none) (h : addStatement line mnemonic operands d = .ok () d') :
    Placed d [.statement line mnemonic operands] d' := by
  obtain ⟨haccepts, rfl⟩ := addStatement_eq_ok_iff.mp h
  exact .one ⟨hclosed, haccepts⟩

theorem placed_of_addLine {line : Line} (h : addLine line d = .ok () d') :
    Placed d (if d.position.isSome then dataItems line.tokens else codeItems line) d' := by
  unfold codeItems
  cases adds_of_addLine h with
  | data hopen h =>
    rw [hopen, if_pos rfl]
    exact placed_of_addData hopen h
  | blank hclosed htokens hsame =>
    rw [hclosed, if_neg (by simp), htokens, hsame]
    exact .nil d
  | block hclosed htokens hdata h =>
    rw [hclosed, if_neg (by simp), htokens]
    dsimp only
    rw [if_pos hdata]
    exact .cons hclosed (placed_of_addData rfl h)
  | statement hclosed htokens hcode hlabel h =>
    rw [hclosed, if_neg (by simp), htokens]
    dsimp only
    rw [if_neg hcode, hlabel]
    exact placed_of_addStatement hclosed h
  | label hclosed htokens hcode hlabel h =>
    rw [hclosed, if_neg (by simp), htokens]
    dsimp only
    rw [if_neg hcode, hlabel]
    obtain ⟨haccepts, rfl⟩ := addLabel_eq_ok_iff.mp h
    exact .one ⟨hclosed, haccepts⟩
  | labelled hclosed htokens hcode hlabel hfront h =>
    rw [hclosed, if_neg (by simp), htokens]
    dsimp only
    rw [if_neg hcode, hlabel]
    obtain ⟨haccepts, rfl⟩ := addLabel_eq_ok_iff.mp hfront
    exact .cons ⟨hclosed, haccepts⟩ (placed_of_addStatement hclosed h)

theorem isSome_position_place {item : Item} (h : d.Accepts item) :
    (d.place item).position.isSome = item.leavesOpen d.position.isSome := by
  cases item with
  | var name groups =>
    rw [show (Item.var name groups).leavesOpen d.position.isSome = true from h.1]
    exact position_putGroups groups _ h.1
  | origin address => exact h.1.symm
  | _ => rfl

/-- Whether a data block is open can be told from the items. -/
theorem Placed.isSome_position {items : List Item} (h : Placed d items d') :
    d'.position.isSome = items.foldl Item.leavesOpen d.position.isSome := by
  induction h with
  | nil d => rfl
  | cons hitem _ ih => rw [ih, isSome_position_place hitem, List.foldl_cons]

/-- The first pass places the outline of the lines. -/
theorem placed_of_forM {lines : List Line} (h : lines.forM addLine d = .ok () d') :
    Placed d (outlineFrom d.position.isSome lines) d' := by
  induction lines generalizing d with
  | nil =>
    cases h
    exact .nil _
  | cons line rest ih =>
    change (addLine line >>= fun _ => rest.forM addLine) d = .ok () d' at h
    obtain ⟨_, d₁, hline, hrest⟩ := Attempt.bind_eq_ok.mp h
    have hplaced := placed_of_addLine hline
    have hlines := ih hrest
    rw [hplaced.isSome_position] at hlines
    exact placed_append.mpr ⟨d₁, hplaced, hlines⟩

end Lines

/-- The draft of a source consists of the items of its outline. -/
theorem placed_outline_of_read {source : String} {config : Config} {d : Draft}
    (h : read source config = .ok d) :
    ∃ layout lines, config.layout = .ok layout ∧ Source.read source = .ok lines ∧
      Placed (empty layout) (outline lines) d := by
  obtain ⟨layout, lines, hlayout, hlines, hadd⟩ := read_eq_ok_iff.mp h
  exact ⟨layout, lines, hlayout, hlines, placed_of_forM (addLines_eq_ok_iff.mp hadd).1⟩

end Draft

end TeachingCpu
