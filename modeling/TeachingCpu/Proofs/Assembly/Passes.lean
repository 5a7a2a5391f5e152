import TeachingCpu.Proofs.Assembly.Operands
import TeachingCpu.Proofs.Assembly.Outline
import TeachingCpu.Proofs.Assembly.Program

/-!
# Agreement of the two passes

The first pass measures statements by the number of their tokens and gives out addresses, and the
second pass encodes by the table of instructions. They agree (`passes_agree`): the instructions
stand where the first pass expected them, labels at the first instruction behind their definition,
variables where the lines in front of them end, and no address is too large for sixteen bits.
-/

namespace TeachingCpu

/-- What a statement was read from: its line, its mnemonic and its operands. -/
def Statement.source (s : Statement) : Nat × Token × List Token := (s.line, s.mnemonic, s.operands)

theorem laidOut_append {start stop : Nat} {front back : List Statement} :
    LaidOut start (front ++ back) stop ↔
      ∃ middle, LaidOut start front middle ∧ LaidOut middle back stop := by
  induction front generalizing start with
  | nil => simp [LaidOut]
  | cons s front ih => simp [LaidOut, ih, and_assoc]

theorem LaidOut.le {start stop : Nat} {statements : List Statement}
    (h : LaidOut start statements stop) : start ≤ stop := by
  induction statements generalizing start with
  | nil => exact Nat.le_of_eq h
  | cons s rest ih => exact Nat.le_trans (Nat.le_add_right _ _) (ih h.2)

theorem LaidOut.offset_le {start stop : Nat} {statements : List Statement}
    (h : LaidOut start statements stop) {s : Statement} (hs : s ∈ statements) :
    s.offset ≤ stop := by
  obtain ⟨front, back, rfl⟩ := List.append_of_mem hs
  obtain ⟨middle, -, hback⟩ := laidOut_append.mp h
  obtain ⟨hoffset, hrest⟩ := hback
  rw [hoffset]
  exact Nat.le_trans (Nat.le_add_right _ _) hrest.le

namespace Draft

/-! ## Measuring an outline -/

/-- The statement that an item is. -/
def Item.statement? : Item → Option (Nat × Token × List Token)
  | .statement line mnemonic operands => some (line, mnemonic, operands)
  | _ => none

/-- The length of the code of an item. -/
def Item.codeLength : Item → Nat
  | .statement _ _ operands => 1 + 2 * operands.length
  | _ => 0

/-- Where the next value goes behind an item. Every data block starts at address zero. -/
def Item.nextAddress (address : Nat) : Item → Nat
  | .block | .close => 0
  | .origin address => address
  | .var _ groups => address + (groups.map fun bytes => bytes.length + 1).sum
  | .label _ | .statement .. => address

/-- The statements of an outline, in order. -/
def statementsOf (items : List Item) : List (Nat × Token × List Token) :=
  items.filterMap Item.statement?

/-- The length of the code of an outline. -/
def codeLength (items : List Item) : Nat := (items.map Item.codeLength).sum

/-- Where the next value goes behind an outline. -/
def nextAddress (items : List Item) : Nat := items.foldl Item.nextAddress 0

section Place

variable (d : Draft)

theorem code_putGroups (groups : List (List UInt8)) :
    (groups.foldl putGroup d).code = d.code := by
  induction groups generalizing d with
  | nil => rfl
  | cons bytes rest ih => exact ih (d.putGroup bytes)

theorem vars_putGroups (groups : List (List UInt8)) :
    (groups.foldl putGroup d).vars = d.vars := by
  induction groups generalizing d with
  | nil => rfl
  | cons bytes rest ih => exact ih (d.putGroup bytes)

/-- Groups and their zero bytes stand one behind the other. -/
theorem getD_position_putGroups (groups : List (List UInt8)) :
    (groups.foldl putGroup d).position.getD 0 =
      d.position.getD 0 + (groups.map fun bytes => bytes.length + 1).sum := by
  induction groups generalizing d with
  | nil => rfl
  | cons bytes rest ih =>
    have hnext : (d.putGroup bytes).position.getD 0 = d.position.getD 0 + bytes.length + 1 := rfl
    rw [List.foldl_cons, ih, hnext, List.map_cons, List.sum_cons]
    omega

theorem code_place_var (name : String) (groups : List (List UInt8)) :
    (d.place (.var name groups)).code = d.code :=
  code_putGroups _ groups

theorem getD_position_place (item : Item) :
    (d.place item).position.getD 0 = item.nextAddress (d.position.getD 0) := by
  cases item with
  | var name groups => exact getD_position_putGroups _ groups
  | _ => rfl

/-- The statement of an item is placed at the end of the code. -/
theorem exists_statements_place (item : Item) :
    ∃ behind, (d.place item).statementList = d.statementList ++ behind ∧
      behind.map Statement.source = statementsOf [item] ∧
      LaidOut d.romLength behind (d.place item).romLength := by
  cases item with
  | statement line mnemonic operands =>
    exact ⟨[⟨line, d.romLength, mnemonic, operands⟩], List.reverse_cons, rfl, rfl, rfl⟩
  | var name groups =>
    have hcode := d.code_place_var name groups
    simp only [code, Prod.mk.injEq] at hcode
    obtain ⟨-, hstatements, hlength⟩ := hcode
    refine ⟨[], ?_, rfl, hlength.symm⟩
    rw [List.append_nil, statementList, hstatements, statementList]
  | _ => exact ⟨[], (List.append_nil _).symm, rfl, rfl⟩

theorem romLength_place (item : Item) :
    (d.place item).romLength = d.romLength + item.codeLength := by
  cases item with
  | var name groups => exact congrArg (·.2.2) (d.code_place_var name groups)
  | _ => rfl

end Place

section Placed

variable {d d' : Draft} {items : List Item}

/-- The statements of an outline are placed one behind the other. -/
theorem Placed.exists_statements (h : Placed d items d') :
    ∃ behind, d'.statementList = d.statementList ++ behind ∧
      behind.map Statement.source = statementsOf items ∧
      LaidOut d.romLength behind d'.romLength := by
  induction h with
  | nil d => exact ⟨[], (List.append_nil _).symm, rfl, rfl⟩
  | @cons d d' item items _ _ ih =>
    obtain ⟨first, hfirst, hsource, hlaidOut⟩ := d.exists_statements_place item
    obtain ⟨behind, hbehind, hsources, hlaidOuts⟩ := ih
    refine ⟨first ++ behind, ?_, ?_, laidOut_append.mpr ⟨_, hlaidOut, hlaidOuts⟩⟩
    · rw [hbehind, hfirst, List.append_assoc]
    · rw [List.map_append, hsource, hsources]
      exact List.filterMap_append.symm

theorem Placed.romLength (h : Placed d items d') :
    d'.romLength = d.romLength + codeLength items := by
  induction h with
  | nil d => rfl
  | @cons d d' item items _ _ ih =>
    rw [ih, romLength_place, codeLength, codeLength, List.map_cons, List.sum_cons, Nat.add_assoc]

theorem Placed.getD_position (h : Placed d items d') :
    d'.position.getD 0 = items.foldl Item.nextAddress (d.position.getD 0) := by
  induction h with
  | nil d => rfl
  | @cons d d' item items _ _ ih => rw [ih, getD_position_place, List.foldl_cons]

end Placed

/-! ## Names -/

/-- A symbol table of a draft: which items define a name in it, and as what. -/
structure Definitions where
  table : Draft → SymbolTable
  name? : Item → Option String
  value : Draft → Nat
  place_of_none : ∀ d item, name? item = none → table (d.place item) = table d
  place_of_some : ∀ d item name, name? item = some name →
    table (d.place item) = (table d).define name (value d)
  new : ∀ d item name, name? item = some name → d.Accepts item → (table d).find? name = none

/-- Labels stand at the end of the code. -/
def labelDefinitions : Definitions where
  table := labels
  name?
    | .label name => some name
    | _ => none
  value := romLength
  place_of_none d item h := by
    cases item with
    | label name => cases h
    | var name groups => exact congrArg (·.1) (d.code_place_var name groups)
    | _ => rfl
  place_of_some d item name h := by
    cases item <;> cases h
    rfl
  new d item name h haccepts := by
    cases item <;> cases h
    exact haccepts.2.2

/-- Variables stand where the next value goes. -/
def varDefinitions : Definitions where
  table := vars
  name?
    | .var name _ => some name
    | _ => none
  value d := d.position.getD 0
  place_of_none d item h := by
    cases item <;> first | rfl | cases h
  place_of_some d item name h := by
    cases item <;> cases h
    exact vars_putGroups _ _
  new d item name h haccepts := by
    cases item <;> cases h
    exact haccepts.2.2.1

namespace Definitions

variable (D : Definitions) {d d' : Draft} {items : List Item} {name : String} {n : Nat}

/-- An item among others that defines a name. -/
def Defines (d : Draft) (items : List Item) (name : String) (n : Nat) : Prop :=
  ∃ front item back middle, items = front ++ item :: back ∧ D.name? item = some name ∧
    Placed d front middle ∧ D.value middle = n

theorem defines_cons {item : Item} (hitem : d.Accepts item) :
    D.Defines d (item :: items) name n ↔
      (D.name? item = some name ∧ D.value d = n) ∨ D.Defines (d.place item) items name n := by
  constructor
  · rintro ⟨front, item', back, middle, heq, hname, hfront, hvalue⟩
    cases front with
    | nil =>
      cases heq
      cases hfront
      exact .inl ⟨hname, hvalue⟩
    | cons first front =>
      cases heq
      cases hfront with
      | cons _ hfront => exact .inr ⟨front, item', back, middle, rfl, hname, hfront, hvalue⟩
  · rintro (⟨hname, hvalue⟩ | ⟨front, item', back, middle, rfl, hname, hfront, hvalue⟩)
    · exact ⟨[], item, items, d, rfl, hname, .nil d, hvalue⟩
    · exact ⟨item :: front, item', back, middle, rfl, hname, .cons hitem hfront, hvalue⟩

/-- What a name stands for behind some items: what it stood for, or what one of them defines. -/
theorem find?_placed (h : Placed d items d') :
    (D.table d').find? name = some n ↔
      (D.table d).find? name = some n ∨ D.Defines d items name n := by
  induction h with
  | nil d =>
    have hnone : ¬ D.Defines d [] name n := by
      rintro ⟨front, item, back, middle, heq, -⟩
      simp at heq
    simp [hnone]
  | @cons d d' item items hitem _ ih =>
    rw [ih, D.defines_cons hitem, ← or_assoc]
    refine or_congr_left ?_
    cases hname : D.name? item with
    | none => simp [D.place_of_none d item hname]
    | some other =>
      rw [D.place_of_some d item other hname]
      by_cases hother : name = other
      · subst hother
        simp [D.new d item name hname hitem]
      · simp [SymbolTable.find?_define_of_ne _ hother, Ne.symm hother]

/-- In a draft of nothing no name is defined before. -/
theorem find?_of_empty (h : Placed d items d') (hempty : (D.table d).find? name = none) :
    (D.table d').find? name = some n ↔ D.Defines d items name n := by
  rw [D.find?_placed h, hempty]
  simp

end Definitions

section Outline

variable {layout : Layout} {d : Draft} {items : List Item} (h : Placed (empty layout) items d)
  {name : String} {n : Nat}

include h

/-- A label of the outline stands behind the code in front of it, and there are no others. -/
theorem find?_label_iff :
    d.labels.find? name = some n ↔
      ∃ front back, items = front ++ .label name :: back ∧ n = codeLength front := by
  refine (labelDefinitions.find?_of_empty h rfl).trans ?_
  constructor
  · rintro ⟨front, item, back, middle, rfl, hname, hfront, rfl⟩
    cases item <;> cases hname
    exact ⟨front, back, rfl, hfront.romLength.trans (Nat.zero_add _)⟩
  · rintro ⟨front, back, rfl, rfl⟩
    obtain ⟨middle, hfront, -⟩ := placed_append.mp h
    exact ⟨front, _, back, middle, rfl, rfl, hfront, hfront.romLength.trans (Nat.zero_add _)⟩

theorem isIdentifier_of_find?_label (hfind : d.labels.find? name = some n) :
    isIdentifier name := by
  obtain ⟨front, back, rfl, -⟩ := (find?_label_iff h).mp hfind
  obtain ⟨middle, -, hback⟩ := placed_append.mp h
  cases hback with
  | cons haccepts _ => exact haccepts.2.1

/-- A variable of the outline stands behind the values in front of it, and there are no others. -/
theorem find?_var_iff :
    d.vars.find? name = some n ↔
      ∃ front groups back, items = front ++ .var name groups :: back ∧
        n = nextAddress front := by
  refine (varDefinitions.find?_of_empty h rfl).trans ?_
  constructor
  · rintro ⟨front, item, back, middle, rfl, hname, hfront, rfl⟩
    cases item <;> cases hname
    exact ⟨front, _, back, rfl, hfront.getD_position⟩
  · rintro ⟨front, groups, back, rfl, rfl⟩
    obtain ⟨middle, hfront, -⟩ := placed_append.mp h
    exact ⟨front, _, back, middle, rfl, rfl, hfront, hfront.getD_position⟩

/-- The statements behind some items of the outline begin where the code in front of them ends. -/
theorem exists_statements_behind {front back : List Item} (hitems : items = front ++ back) :
    ∃ before behind, d.statementList = before ++ behind ∧
      before.length = (statementsOf front).length ∧
      LaidOut (codeLength front) behind d.romLength := by
  rw [hitems] at h
  obtain ⟨middle, hfront, hback⟩ := placed_append.mp h
  obtain ⟨before, hbefore, hsource, -⟩ := hfront.exists_statements
  obtain ⟨behind, hbehind, -, hlaidOut⟩ := hback.exists_statements
  rw [hfront.romLength.trans (Nat.zero_add _)] at hlaidOut
  refine ⟨middle.statementList, behind, hbehind, ?_, hlaidOut⟩
  rw [hbefore, ← hsource, List.length_map]
  rfl

end Outline

/-! ## Operands -/

/-- What an operand has to do with the token it was encoded from, if that names something. -/
structure Names (d : Draft) (t : Token) (o : Operand) : Prop where
  label : o.mode = .label → d.labels.find? (labelText t.text) = some o.value.toNat
  data : ∀ name, t.kind ≠ .str → t.text = "@" ++ name →
    o.mode = .data ∧ d.vars.find? name = some o.value.toNat

theorem find?_of_wordOperand_label {d : Draft} {text : String} {n : Nat}
    (h : d.wordOperand text = .ok (.label, n)) : d.labels.find? (labelText text) = some n := by
  unfold wordOperand at h
  dsimp only at h
  cases hmode : (text.toList.head?.map Mode.ofSigil).getD .label with
  | label =>
    rw [hmode] at h
    dsimp only at h
    split at h
    · next hfind =>
      cases h
      exact hfind
    · cases h
  | data =>
    rw [hmode] at h
    dsimp only at h
    split at h <;> cases h
  | str =>
    rw [hmode] at h
    cases h
  | _ =>
    rw [hmode] at h
    cases (map_mode_eq_ok h).1

theorem find?_of_wordOperand_data {d : Draft} {name : String} {mode : Mode} {n : Nat}
    (h : d.wordOperand ("@" ++ name) = .ok (mode, n)) :
    mode = .data ∧ d.vars.find? name = some n := by
  have hsigil : "@".toList = ['@'] := rfl
  obtain ⟨hhead, hrest⟩ := toList_sigil hsigil name
  have hmode : Mode.ofSigil '@' = .data := rfl
  unfold wordOperand at h
  rw [hhead, hrest] at h
  dsimp only [Option.map_some, Option.getD_some] at h
  rw [hmode] at h
  dsimp only at h
  split at h
  · next hfind =>
    cases h
    exact ⟨rfl, hfind⟩
  · cases h

theorem Encodes.names {d : Draft} {p : StringPool} {t : Token} {o : Operand}
    (h : d.Encodes p t o) : d.Names t o := by
  cases h with
  | literal hkind _ => exact ⟨nofun, fun _ hne _ => absurd hkind hne⟩
  | word _ hword =>
    constructor
    · rintro rfl
      exact find?_of_wordOperand_label hword
    · rintro name - htext
      rw [htext] at hword
      exact find?_of_wordOperand_data hword

/-- A token and an operand at the same place of a program: the token stands in a statement of the
source, and the operand in the instruction that the statement became. -/
def StandsFor (statements : List (Nat × Token × List Token)) (listed : List ListedInstruction)
    (t : Token) (o : Operand) : Prop :=
  ∃ s l, (s, l) ∈ statements.zip listed ∧ (t, o) ∈ s.2.2.zip l.instruction.operands

theorem StandsFor.rel {statements : List (Nat × Token × List Token)}
    {listed : List ListedInstruction} {R : Token → Operand → Prop}
    (hR : List.Forall₂ (fun s l => List.Forall₂ R s.2.2 l.instruction.operands) statements listed)
    {t : Token} {o : Operand} (h : StandsFor statements listed t o) : R t o := by
  obtain ⟨s, l, hstatement, hoperand⟩ := h
  have hrel := (List.forall₂_iff_zip.mp hR).2 hstatement
  exact (List.forall₂_iff_zip.mp hrel).2 hoperand

/-- What an instruction has to do with the statement it was encoded from. -/
structure Emits (d : Draft) (s : Statement) (l : ListedInstruction) : Prop where
  offset : l.offset.toNat = s.offset
  mnemonic : s.mnemonic.kind = .word ∧
    Text.lower s.mnemonic.text = l.instruction.opcode.mnemonic
  operands : List.Forall₂ d.Names s.operands l.instruction.operands

theorem mnemonic_of_opcode? {t : Token} {op : Opcode} (h : opcode? t = some op) :
    t.kind = .word ∧ Text.lower t.text = op.mnemonic := by
  unfold opcode? at h
  split at h
  · next hkind =>
    have hfind : Opcode.all.find? (·.mnemonic == Text.lower t.text) = some op := h
    have hname := List.find?_some hfind
    exact ⟨hkind, (beq_iff_eq.mp hname).symm⟩
  · cases h

end Draft

/-- The address of the first of some instructions, or of the end of the code behind the last. -/
def Listing.startOf (stop : Nat) : List ListedInstruction → Nat
  | [] => stop
  | l :: _ => l.offset.toNat

/-- Sixteen bits hold all of a number. -/
def FitsWord (n : Nat) : Prop := n.toUInt16.toNat = n

theorem fitsWord_of_le {n : Nat} (h : n ≤ 65535) : FitsWord n := Nat.toNat_toUInt16_of_le h

open Draft (Item Emits outline statementsOf nextAddress)

/-- What the first pass over the lines of a source recorded agrees with what the second pass
emitted. -/
structure PassesAgree (lines : List Line) (d : Draft) (p : StringPool) (image : Image)
    (listed : List ListedInstruction) : Prop where
  /-- The code has the length that was measured. -/
  length : image.rom.length = d.romLength
  /-- The statements that were recorded are those of the source, in order. -/
  statements : d.statementList.map Statement.source = statementsOf (outline lines)
  /-- Each of them became one instruction. -/
  instructions : List.Forall₂ d.Emits d.statementList listed
  /-- A label stands at the first instruction behind its definition, or at the end of the code. -/
  labels : ∀ name n, d.labels.find? name = some n ↔
    ∃ front back, outline lines = front ++ .label name :: back ∧
      n = Listing.startOf image.rom.length (listed.drop (statementsOf front).length)
  /-- A variable stands where the values in front of it end. -/
  vars : ∀ name n, d.vars.find? name = some n ↔
    ∃ front groups back, outline lines = front ++ .var name groups :: back ∧
      n = nextAddress front
  entry : d.labels.find? entryLabel = some image.entry.toNat
  /-- Every address that is recorded fits into sixteen bits. -/
  offset_fits : ∀ s ∈ d.statementList, FitsWord s.offset
  label_fits : ∀ name n, d.labels.find? name = some n → FitsWord n
  var_fits : ∀ name n, d.vars.find? name = some n → FitsWord n
  literal_fits : ∀ text n, p.interned.find? text = some n → FitsWord n

namespace Assembled

variable {source : String} {config : Config} {image : Image} {layout : Layout} {d : Draft}
  {p : StringPool} {instructions : List Instruction}
  (h : Assembled source config image layout d p instructions)

include h

theorem offset_le {s : Statement} (hs : s ∈ d.statementList) : s.offset ≤ 65535 :=
  Nat.le_trans (h.draft.code.laidOut.offset_le hs) h.draft.code.length

theorem forall₂_emits :
    List.Forall₂ d.Emits d.statementList (Listing.listFrom 0 instructions) := by
  have hlisted : List.Forall₂ (fun s l => s ∈ d.statementList ∧ Listed d p s l) d.statementList
      (Listing.listFrom 0 instructions) :=
    (List.forall₂_and_left _ _).mpr ⟨fun s hs => hs, h.listed⟩
  refine hlisted.imp fun s l hparts => ?_
  obtain ⟨hs, hl⟩ := hparts
  refine ⟨?_, Draft.mnemonic_of_opcode? hl.encodes.opcode,
    hl.encodes.operands.imp fun _ _ => Draft.Encodes.names⟩
  rw [hl.offset]
  exact fitsWord_of_le (h.offset_le hs)

/-- The code in front of some items of the outline ends where the instructions behind them
start. -/
theorem startOf_listed {lines : List Line} (hplaced : (Draft.empty layout).Placed (outline lines) d)
    {front back : List Item} (hitems : outline lines = front ++ back) :
    Listing.startOf image.rom.length
        ((Listing.listFrom 0 instructions).drop (statementsOf front).length) =
      Draft.codeLength front := by
  obtain ⟨before, behind, hstatements, hlength, hlaidOut⟩ :=
    Draft.exists_statements_behind hplaced hitems
  have hemits := h.forall₂_emits
  rw [hstatements] at hemits
  have hbehind := List.forall₂_drop before.length hemits
  rw [List.drop_left, hlength] at hbehind
  generalize (Listing.listFrom 0 instructions).drop (statementsOf front).length = listed
    at hbehind ⊢
  cases hbehind with
  | nil =>
    have hstop : Draft.codeLength front = d.romLength := hlaidOut
    rw [hstop]
    exact h.length_rom
  | cons hfirst _ => exact hfirst.offset.trans hlaidOut.1

/-- The draft of the program consists of the items of the outline of its lines. -/
theorem exists_outline :
    ∃ lines, Source.read source = .ok lines ∧ (Draft.empty layout).Placed (outline lines) d := by
  obtain ⟨layout', lines, hlayout, hlines, hplaced⟩ := Draft.placed_outline_of_read h.read
  obtain rfl : layout' = layout := Except.ok.inj (hlayout.symm.trans h.layout_eq)
  exact ⟨lines, hlines, hplaced⟩

theorem decodeRom_eq : Listing.decodeRom image.rom = .ok (Listing.listFrom 0 instructions) := by
  rw [h.rom]
  exact Listing.decodeRom_flatMap_toBytes h.complete

theorem encode_eq : d.encode = .ok (image, p) := by
  have hentry := Draft.entry_eq_ok_iff.mpr ⟨h.entry, h.entry_lt⟩
  refine Draft.encode_eq_ok_iff.mpr ⟨_, instructions, hentry, h.pass, ?_⟩
  rw [← h.rom, ← h.memory, ← h.width, Nat.toUInt16_eq, UInt16.ofNat_toNat]

theorem passesAgree {lines : List Line} (hplaced : (Draft.empty layout).Placed (outline lines) d) :
    PassesAgree lines d p image (Listing.listFrom 0 instructions) := by
  obtain ⟨-, -, hmax⟩ := Config.size_of_layout h.layout_eq
  have hlast := Layout.lastAddressable_eq hmax
  obtain ⟨behind, hbehind, hsources, -⟩ := hplaced.exists_statements
  refine ⟨h.length_rom, ?_, h.forall₂_emits, fun name n => ?_, fun _ _ =>
    Draft.find?_var_iff hplaced, h.entry, fun s hs => fitsWord_of_le (h.offset_le hs), ?_, ?_, ?_⟩
  · rw [hbehind]
    exact hsources
  · rw [Draft.find?_label_iff hplaced]
    refine exists_congr fun front => exists_congr fun back => and_congr_right fun hitems => ?_
    rw [h.startOf_listed hplaced hitems]
  · intro name n hfind
    rcases h.draft.code.labels name n hfind with rfl | ⟨s, hs, rfl⟩
    · exact fitsWord_of_le h.draft.code.length
    · exact fitsWord_of_le (h.offset_le hs)
  · intro name n hfind
    have hbelow := h.draft.vars name n hfind
    have hbound := h.draft.data.bound
    rw [h.draft.layout, hlast] at hbound
    exact fitsWord_of_le (by omega)
  · intro text n hfind
    obtain ⟨bytes, -, -, hbelow, -⟩ := h.pool.literals text n hfind
    have hbound := h.pool.bound
    rw [h.pool.layout, h.draft.layout, hlast] at hbound
    exact fitsWord_of_le (by omega)

/-- Operands are encoded from the tokens of the source that stand at the same places. -/
theorem forall₂_encodes {lines : List Line}
    (hplaced : (Draft.empty layout).Placed (outline lines) d) :
    List.Forall₂ (fun s l => List.Forall₂ (d.Encodes p) s.2.2 l.instruction.operands)
      (statementsOf (outline lines)) (Listing.listFrom 0 instructions) := by
  rw [← (h.passesAgree hplaced).statements, List.forall₂_map_left_iff]
  exact h.listed.imp fun s l hl => hl.encodes.operands

end Assembled

/-- The two passes over a source that is accepted agree. -/
theorem passes_agree {source : String} {config : Config} {image : Image}
    (h : assemble source config = .ok image) :
    ∃ lines d p listed, Source.read source = .ok lines ∧ Draft.read source config = .ok d ∧
      d.encode = .ok (image, p) ∧ Listing.decodeRom image.rom = .ok listed ∧
      PassesAgree lines d p image listed := by
  obtain ⟨layout, d, p, instructions, hA⟩ := exists_assembled h
  obtain ⟨layout', lines, hlayout, hlines, hplaced⟩ := Draft.placed_outline_of_read hA.read
  have hsame : layout' = layout := Except.ok.inj (hlayout.symm.trans hA.layout_eq)
  rw [hsame] at hplaced
  refine ⟨lines, d, p, Listing.listFrom 0 instructions, hlines, hA.read, hA.encode_eq, ?_,
    hA.passesAgree hplaced⟩
  rw [hA.rom]
  exact Listing.decodeRom_flatMap_toBytes hA.complete

/-- A program whose data stand among its code, with a label that is used before it is defined and
stands at the end, two labels at one place and an instruction in mixed case. -/
def mixedCodeAndData : String :=
  "jmp stop\n.data x 1 2 \"hi\" 3 end\n.MAIN\n.again\nMoV %al @y\n" ++
    ".DATA\norg 9 y 7\nend\nlea %di \"a\"\njmp .again\n.stop"

theorem passes_agree_mixedCodeAndData :
    ∃ image lines d p listed, assemble mixedCodeAndData { memorySize := 32 } = .ok image ∧
      image.rom = [17, 7, 16, 2, 1, 0, 5, 9, 35, 1, 22, 6, 11, 17, 7, 3] ∧
      Draft.read mixedCodeAndData { memorySize := 32 } = .ok d ∧
      Listing.decodeRom image.rom = .ok listed ∧ PassesAgree lines d p image listed := by
  have hassemble : assemble mixedCodeAndData { memorySize := 32 } =
      .ok ⟨[17, 7, 16, 2, 1, 0, 5, 9, 35, 1, 22, 6, 11, 17, 7, 3],
        [1, 2, 0, 104, 105, 0, 3, 0, 0, 7, 0, 97], .bits16, 3⟩ := by
    decide +kernel
  obtain ⟨lines, d, p, listed, -, hread, -, hdecode, hagree⟩ := passes_agree hassemble
  exact ⟨_, lines, d, p, listed, hassemble, rfl, hread, hdecode, hagree⟩

end TeachingCpu
