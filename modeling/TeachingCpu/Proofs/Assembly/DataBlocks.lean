import TeachingCpu.Proofs.Assembly.DataLayout

/-!
# Data blocks without origins

Every data block starts at address zero. Where no line moves the position, the variables of a block
stand one behind the other from there on, so that they never lie on each other. Variables of
different blocks do: what a variable declares is in memory where no variable of a later block lies
on it (`blocksStored_of_assemble`).
-/

namespace TeachingCpu

namespace Draft

/-! ## The data blocks of an outline -/

/-- What an item declares at a position. -/
def Item.declares (position : Nat) : Item → List Declaration
  | .var name groups => [⟨name, position, groups⟩]
  | _ => []

/-- What items declare, the first of them at a position. -/
def declaredBy (position : Nat) : List Item → List Declaration
  | [] => []
  | item :: rest => item.declares position ++ declaredBy (item.nextAddress position) rest

/-- Whether an item stands inside a data block. -/
def Item.isData : Item → Bool
  | .origin _ | .var _ _ => true
  | _ => false

/-- Whether an item moves the position in its data block. -/
def Item.isOrigin : Item → Bool
  | .origin _ => true
  | _ => false

/-- The items inside of each data block. -/
def dataBlocks : List Item → List (List Item)
  | [] => []
  | .block :: rest => rest.takeWhile Item.isData :: dataBlocks rest
  | _ :: rest => dataBlocks rest

/-- The variables of each data block. -/
def declaredBlocks (items : List Item) : List (List Declaration) :=
  (dataBlocks items).map (declaredBy 0)

theorem declaredBy_append (position : Nat) (front back : List Item) :
    declaredBy position (front ++ back) =
      declaredBy position front ++ declaredBy (front.foldl Item.nextAddress position) back := by
  induction front generalizing position with
  | nil => rfl
  | cons item front ih => simp [declaredBy, ih]

theorem mem_of_mem_dataBlocks {items block : List Item} (h : block ∈ dataBlocks items)
    {item : Item} (hitem : item ∈ block) : item ∈ items ∧ item.isData := by
  induction items with
  | nil => cases h
  | cons first rest ih =>
    have hlater : block ∈ dataBlocks rest → item ∈ first :: rest ∧ item.isData := by
      intro hblock
      obtain ⟨hmem, hdata⟩ := ih hblock
      exact ⟨List.mem_cons_of_mem first hmem, hdata⟩
    cases first with
    | block =>
      rcases List.mem_cons.mp h with rfl | hblock
      · exact ⟨List.mem_cons_of_mem _ (List.takeWhile_subset _ hitem),
          List.mem_takeWhile_imp hitem⟩
      · exact hlater hblock
    | _ => exact hlater h

section Placed

variable {d d' : Draft} {items : List Item}

/-- Outside of blocks there are no data. -/
theorem Placed.takeWhile_isData (h : Placed d items d') (hclosed : d.position = none) :
    items.takeWhile Item.isData = [] := by
  cases h with
  | nil => rfl
  | @cons _ _ item rest hitem _ =>
    cases item with
    | origin address => simp [Accepts, hclosed] at hitem
    | var name groups => simp [Accepts, hclosed] at hitem
    | _ => rfl

/-- All that is declared is declared in the block that is open at the start and the later ones. -/
theorem Placed.declaredBy_eq (h : Placed d items d') (position : Nat) :
    declaredBy position items = declaredBy position (items.takeWhile Item.isData) ++
      (declaredBlocks items).flatten := by
  induction h generalizing position with
  | nil d => rfl
  | @cons d d' item items hitem hrest ih =>
    -- behind an item that is not inside a block and opens none, none is open
    have hclosed : ∀ next, (d.place item).position = none →
        declaredBy next items = (declaredBlocks items).flatten := by
      intro next hnone
      rw [ih, hrest.takeWhile_isData hnone]
      rfl
    cases item with
    | block => exact ih 0
    | origin address => exact ih address
    | var name groups => exact congrArg (_ :: ·) (ih _)
    | close => exact hclosed 0 rfl
    | label name => exact hclosed position hitem.1
    | statement line mnemonic operands => exact hclosed position hitem.1

/-- All that a program declares is declared in its data blocks. -/
theorem Placed.declaredBy_eq_flatten (h : Placed d items d') (hclosed : d.position = none)
    (position : Nat) : declaredBy position items = (declaredBlocks items).flatten := by
  rw [h.declaredBy_eq, h.takeWhile_isData hclosed]
  rfl

end Placed

/-! ## Values that are read -/

theorem valueBytes_eq {t : Token} {bytes : List UInt8} (h : valueBytes? t = some bytes) :
    valueBytes t = bytes := by
  unfold valueBytes? at h
  split at h
  · next hstr =>
    rw [valueBytes_of_str hstr, bytesOf, h]
    rfl
  · next hnumber =>
    obtain ⟨n, hn, rfl⟩ := Option.map_eq_some_iff.mp h
    rw [valueBytes_of_number hnumber, valueOf, hn]
    rfl

/-- Where values have groups, these are the groups of the outline. -/
theorem valueGroups_eq {values : List Token} {groups : List (List UInt8)}
    (h : groups? values = some groups) : valueGroups values = groups := by
  have hbytes : ∀ t ∈ values, valueBytes? t = some (valueBytes t) := by
    intro t ht
    have hne : ¬ values.isEmpty := by simp [List.ne_nil_of_mem ht]
    rw [groups?, if_neg hne] at h
    rw [← List.flatten_splitBy sameGroup values] at ht
    obtain ⟨run, hrun, htrun⟩ := List.mem_flatten.mp ht
    obtain ⟨bytes, hall⟩ := List.forall_of_mapM_eq_some h run hrun
    obtain ⟨parts, hparts, -⟩ := Option.map_eq_some_iff.mp hall
    obtain ⟨b, hb⟩ := List.forall_of_mapM_eq_some hparts t htrun
    rw [hb, valueBytes_eq hb]
  rw [groups?_eq_some hbytes] at h
  exact Option.some.inj h

/-- Behind items, the position is none or a position, and a block is open if it is the latter. -/
def Reaches (position : Option Nat) (items : List Item) (stop : Option Nat) : Prop :=
  items.foldl Item.nextAddress (position.getD 0) = stop.getD 0 ∧
    items.foldl Item.leavesOpen position.isSome = stop.isSome

/-- A line that declares variables has them as its items. -/
theorem declaredBy_dataItems {position : Nat} {tokens : List Token} {declared : List Declaration}
    {stop : Option Nat} (h : declareData? position tokens = some (declared, stop)) :
    declaredBy position (dataItems tokens) = declared ∧
      Reaches (some position) (dataItems tokens) stop := by
  induction tokens using addData.induct generalizing position with
  | case1 =>
    cases h
    exact ⟨rfl, rfl, rfl⟩
  | case2 first rest hend =>
    rw [declareData?.eq_def] at h
    dsimp only at h
    rw [if_pos hend] at h
    rw [dataItems_end rest hend]
    split at h
    · cases h
      exact ⟨rfl, rfl, rfl⟩
    · cases h
  | case3 first hend horigin =>
    rw [declareData?, if_neg hend, if_pos horigin] at h
    cases h
  | case4 first hend horigin address rest ih =>
    rw [declareData?, if_neg hend, if_pos horigin] at h
    obtain ⟨base, hbase, hrest⟩ := Option.bind_eq_some_iff.mp h
    have hvalue : valueOf address 65535 = base := by rw [valueOf, hbase, Option.getD_some]
    rw [Bool.not_eq_true] at hend
    rw [dataItems_origin hend horigin, hvalue]
    exact ih hrest
  | case5 first rest hend horigin =>
    rw [declareData?.eq_def] at h
    dsimp only at h
    rw [if_neg hend, if_neg horigin] at h
    obtain ⟨groups, hgroups, h⟩ := Option.bind_eq_some_iff.mp h
    rw [Bool.not_eq_true] at hend horigin
    rw [dataItems_variable rest hend horigin, valueGroups_eq hgroups]
    cases hdrop : rest.dropWhile (!Token.isWord · endWord) with
    | nil =>
      have hnone : rest.any (·.isWord endWord) = false := by simpa using hdrop
      rw [hdrop] at h
      cases h
      rw [hnone]
      exact ⟨rfl, rfl, rfl⟩
    | cons word after =>
      have hsome := any_isWord_of_dropWhile hdrop
      rw [hdrop] at h
      cases after with
      | nil =>
        cases h
        rw [hsome]
        exact ⟨rfl, rfl, rfl⟩
      | cons _ _ => cases h

/-- The items of a line that is read at a position. -/
def lineItems (position : Option Nat) (line : Line) : List Item :=
  if position.isSome then dataItems line.tokens else codeItems line

/-- A line declares the variables among its items. -/
theorem declaredBy_lineItems {line : Line} {position stop : Option Nat}
    {declared : List Declaration} (h : declareLine? line position = some (declared, stop)) :
    declaredBy (position.getD 0) (lineItems position line) = declared ∧
      Reaches position (lineItems position line) stop := by
  cases position with
  | some position => exact declaredBy_dataItems h
  | none =>
    rw [lineItems, if_neg (by simp), codeItems]
    unfold declareLine? at h
    cases htokens : line.tokens with
    | nil =>
      rw [htokens] at h
      cases h
      exact ⟨rfl, rfl, rfl⟩
    | cons first rest =>
      rw [htokens] at h
      dsimp only at h ⊢
      by_cases hdata : first.kind = .word ∧ Text.lower first.text = dataWord
      · rw [if_pos hdata] at h ⊢
        exact declaredBy_dataItems h
      · rw [if_neg hdata] at h ⊢
        cases h
        cases labelName? first with
        | none => exact ⟨rfl, rfl, rfl⟩
        | some name => cases rest <;> exact ⟨rfl, rfl, rfl⟩

theorem declaredBy_outlineFrom {lines : List Line} {position stop : Option Nat}
    {declared : List Declaration} (h : declareLines? lines position = some (declared, stop)) :
    declaredBy (position.getD 0) (outlineFrom position.isSome lines) = declared := by
  induction lines generalizing position declared with
  | nil =>
    cases h
    rfl
  | cons line rest ih =>
    obtain ⟨⟨front, next⟩, hfront, h⟩ := Option.bind_eq_some_iff.mp h
    obtain ⟨⟨back, stop'⟩, hback, h⟩ := Option.bind_eq_some_iff.mp h
    cases h
    obtain ⟨hline, hposition, hopen⟩ := declaredBy_lineItems hfront
    change declaredBy (position.getD 0) (lineItems position line ++
      outlineFrom ((lineItems position line).foldl Item.leavesOpen position.isSome) rest) = _
    rw [declaredBy_append, hline, hposition, hopen, ih hback]

/-- What the data blocks of a source declare are the variables of its outline. -/
theorem declaredBy_outline {source : String} {lines : List Line} {declared : List Declaration}
    (hlines : Source.read source = .ok lines) (h : declarations? source = some declared) :
    declaredBy 0 (outline lines) = declared := by
  rw [declarations?, hlines] at h
  change (declareLines? lines none >>= _) = some declared at h
  obtain ⟨⟨declared', stop⟩, hdeclared, h⟩ := Option.bind_eq_some_iff.mp h
  cases stop with
  | some stop => cases h
  | none =>
    cases h
    exact declaredBy_outlineFrom hdeclared

/-! ## Blocks without origins -/

namespace Declaration

/-- The bytes of a variable: those of its groups, each with a zero byte behind it. -/
def bytes (v : Declaration) : List UInt8 := v.groups.flatMap (· ++ [0])

/-- Variables that do not lie on each other. -/
def Apart (v w : Declaration) : Prop := v.stop ≤ w.address ∨ w.stop ≤ v.address

instance (v w : Declaration) : Decidable (v.Apart w) := inferInstanceAs (Decidable (_ ∨ _))

/-- Memory that an image starts with holds what a variable declares at its address. -/
def StoredIn (v : Declaration) (image : Image) : Prop :=
  ∀ k < v.bytes.length, image.memory.getD (v.address + k) 0 = v.bytes.getD k 0

theorem address_add_length_bytes (v : Declaration) : v.address + v.bytes.length = v.stop := by
  simp [bytes, stop, List.length_flatMap]

end Declaration

/-- Variables that stand one behind the other from an address on. -/
def Consecutive : Nat → List Declaration → Prop
  | _, [] => True
  | address, v :: rest => v.address = address ∧ Consecutive v.stop rest

theorem Consecutive.le {address : Nat} {declared : List Declaration}
    (h : Consecutive address declared) : ∀ v ∈ declared, address ≤ v.address := by
  induction declared generalizing address with
  | nil => simp
  | cons v rest ih =>
    obtain ⟨rfl, hrest⟩ := h
    refine List.forall_mem_cons.mpr ⟨le_rfl, fun w hw => ?_⟩
    exact Nat.le_trans (Nat.le_add_right v.address _) (ih hrest w hw)

theorem Consecutive.pairwise {address : Nat} {declared : List Declaration}
    (h : Consecutive address declared) : declared.Pairwise fun v w => v.stop ≤ w.address := by
  induction declared generalizing address with
  | nil => exact .nil
  | cons v rest ih => exact .cons h.2.le (ih h.2)

/-- Where the position is not moved, variables stand one behind the other. -/
theorem consecutive_declaredBy {items : List Item}
    (hdata : ∀ item ∈ items, item.isData ∧ ¬ item.isOrigin) (position : Nat) :
    Consecutive position (declaredBy position items) := by
  induction items generalizing position with
  | nil => trivial
  | cons item rest ih =>
    obtain ⟨⟨hfirst, horigin⟩, hrest⟩ := List.forall_mem_cons.mp hdata
    cases item with
    | var name groups => exact ⟨rfl, ih hrest _⟩
    | origin address => exact absurd rfl horigin
    | _ => cases hfirst

theorem consecutive_of_mem_declaredBlocks {items : List Item}
    (horigin : ∀ item ∈ items, ¬ item.isOrigin) {declared : List Declaration}
    (h : declared ∈ declaredBlocks items) : Consecutive 0 declared := by
  obtain ⟨block, hblock, rfl⟩ := List.mem_map.mp h
  refine consecutive_declaredBy (fun item hitem => ?_) 0
  obtain ⟨hmem, hdata⟩ := mem_of_mem_dataBlocks hblock hitem
  exact ⟨hdata, horigin item hmem⟩

/-! ## Bytes in memory -/

/-- Groups are written between the address where they start and the one behind them. -/
theorem bounds_of_mem_writesFrom {address : Nat} {groups : List (List UInt8)} {w : DataWrite}
    (hw : w ∈ writesFrom address groups) :
    address ≤ w.address ∧ w.stop ≤ address + (groups.flatMap (· ++ [0])).length := by
  induction groups generalizing address with
  | nil => cases hw
  | cons bytes rest ih =>
    rw [List.flatMap_cons, List.length_append, ← Nat.add_assoc]
    rcases List.mem_cons.mp hw with rfl | hrest
    · exact ⟨le_rfl, Nat.le_add_right _ _⟩
    · obtain ⟨hstart, hstop⟩ := ih hrest
      rw [List.length_append, List.length_singleton]
      exact ⟨Nat.le_trans (Nat.le_add_right _ _) hstart, hstop⟩

/-- Some group ends behind each byte that is written. -/
theorem exists_lt_stop (address : Nat) {k : Nat} {groups : List (List UInt8)}
    (hk : k < (groups.flatMap (· ++ [0])).length) :
    ∃ w ∈ writesFrom address groups, address + k < w.stop := by
  induction groups generalizing address k with
  | nil => cases hk
  | cons bytes rest ih =>
    rw [List.flatMap_cons, List.length_append] at hk
    rcases Nat.lt_or_ge k (bytes ++ [0]).length with hfirst | hlater
    · exact ⟨_, List.mem_cons_self, Nat.add_lt_add_left hfirst address⟩
    · rw [List.length_append, List.length_singleton] at hk hlater
      have hrest : k - (bytes.length + 1) < (rest.flatMap (· ++ [0])).length := by omega
      obtain ⟨w, hw, hlt⟩ := ih (address + (bytes.length + 1)) hrest
      exact ⟨w, List.mem_cons_of_mem _ hw, by omega⟩

/-- A byte that no write lies on is as it was. -/
theorem byteAt_foldl_put {writes : List DataWrite} {k : Nat}
    (h : ∀ w ∈ writes, k < w.address ∨ w.stop ≤ k) (m : Memory) :
    (writes.foldl put m).byteAt k = m.byteAt k := by
  induction writes generalizing m with
  | nil => rfl
  | cons w writes ih =>
    obtain ⟨hfirst, hrest⟩ := List.forall_mem_cons.mp h
    rw [List.foldl_cons, ih hrest]
    exact Memory.byteAt_replace_outside hfirst

/-- Behind the groups of a variable, memory holds them. -/
theorem byteAt_writesFrom {address k : Nat} {groups : List (List UInt8)} {m : Memory}
    (hinside : ∀ w ∈ writesFrom address groups, w.stop ≤ m.layout.size)
    (hk : k < (groups.flatMap (· ++ [0])).length) :
    ((writesFrom address groups).foldl put m).byteAt (address + k) =
      (groups.flatMap (· ++ [0])).getD k 0 := by
  induction groups generalizing address k m with
  | nil => cases hk
  | cons bytes rest ih =>
    obtain ⟨hfirst, hrest⟩ := List.forall_mem_cons.mp hinside
    change address + (bytes ++ [0]).length ≤ m.layout.size at hfirst
    rw [List.flatMap_cons, List.length_append] at hk
    rw [List.flatMap_cons, writesFrom, List.foldl_cons]
    rcases Nat.lt_or_ge k (bytes ++ [0]).length with hnear | hfar
    · have hbehind : ∀ w ∈ writesFrom (address + (bytes.length + 1)) rest,
          address + k < w.address ∨ w.stop ≤ address + k := by
        intro w hw
        have hstart := (bounds_of_mem_writesFrom hw).1
        rw [List.length_append, List.length_singleton] at hnear
        exact .inl (by omega)
      rw [byteAt_foldl_put hbehind, List.getD_append _ _ _ _ hnear]
      exact Memory.byteAt_replace_inside hfirst hnear
    · have hnext : address + k =
          address + (bytes.length + 1) + (k - (bytes ++ [0]).length) := by
        rw [List.length_append, List.length_singleton] at hfar ⊢
        omega
      rw [List.getD_append_right _ _ _ _ hfar, hnext]
      exact ih hrest (by omega)

/-- A byte of a variable is what was declared, unless a variable that is declared later lies on
it. -/
theorem byteAt_declared {front back : List Declaration} {v : Declaration} {m : Memory}
    (hinside : ∀ w ∈ v.writes, w.stop ≤ m.layout.size) {k : Nat} (hk : k < v.bytes.length)
    (hfree : ∀ u ∈ back, v.address + k < u.address ∨ u.stop ≤ v.address + k) :
    ((writesOf (front ++ v :: back)).foldl put m).byteAt (v.address + k) = v.bytes.getD k 0 := by
  have hlater : ∀ w ∈ writesOf back, v.address + k < w.address ∨ w.stop ≤ v.address + k := by
    intro w hw
    obtain ⟨u, hu, hwu⟩ := List.mem_flatMap.mp hw
    obtain ⟨hstart, hstop⟩ := bounds_of_mem_writesFrom hwu
    have hend : w.stop ≤ u.stop := u.address_add_length_bytes ▸ hstop
    exact (hfree u hu).imp (Nat.lt_of_lt_of_le · hstart) (Nat.le_trans hend ·)
  have hwrites : writesOf (front ++ v :: back) = writesOf front ++ (v.writes ++ writesOf back) := by
    rw [writesOf, List.flatMap_append, List.flatMap_cons]
    rfl
  rw [hwrites, List.foldl_append, List.foldl_append, byteAt_foldl_put hlater]
  refine byteAt_writesFrom (fun w hw => ?_) hk
  rw [layout_foldl_put]
  exact hinside w hw

end Draft

open Draft (Item Declaration Consecutive outline declarations? declaredBlocks)

/-- How the variables of data blocks are in the memory of an image. -/
structure BlocksStored (blocks : List (List Declaration)) (image : Image) : Prop where
  /-- Variables of a block stand one behind the other, from zero on. -/
  consecutive : ∀ block ∈ blocks, Consecutive 0 block
  /-- Variables of a block are apart. -/
  apart : ∀ block ∈ blocks, block.Pairwise Declaration.Apart
  /-- Each byte of a variable is as declared, unless a variable of a later block lies on it. -/
  stored : ∀ front block back, blocks = front ++ block :: back → ∀ v ∈ block,
    ∀ k < v.bytes.length,
      (∀ u ∈ back.flatten, v.address + k < u.address ∨ u.stop ≤ v.address + k) →
        image.memory.getD (v.address + k) 0 = v.bytes.getD k 0

namespace Assembled

variable {source : String} {config : Config} {image : Image} {layout : Layout} {d : Draft}
  {p : StringPool} {instructions : List Instruction}
  (h : Assembled source config image layout d p instructions)

include h

/-- What an image holds where a variable was declared. -/
theorem getD_memory_declared {front back : List Declaration} {v : Declaration}
    (hdeclares : (Draft.empty layout).Declares (front ++ v :: back) d) {k : Nat}
    (hk : k < v.bytes.length)
    (hfree : ∀ u ∈ back, v.address + k < u.address ∨ u.stop ≤ v.address + k) :
    image.memory.getD (v.address + k) 0 = v.bytes.getD k 0 := by
  obtain ⟨-, hmin, hmax⟩ := Config.size_of_layout h.layout_eq
  have hwrites : ∀ w ∈ v.writes, w ∈ Draft.writesOf (front ++ v :: back) := fun w hw =>
    List.mem_flatMap.mpr ⟨v, List.mem_append_right front List.mem_cons_self, hw⟩
  have hdata : v.address + k < d.dataEnd := by
    obtain ⟨w, hw, hlt⟩ := Draft.exists_lt_stop v.address hk
    exact Nat.lt_of_lt_of_le hlt (hdeclares.stores.stop_le_dataEnd (hwrites w hw))
  rw [h.getD_memory, h.pool.data _ hdata, hdeclares.stores.memory]
  refine Draft.byteAt_declared (fun w hw => ?_) hk hfree
  have hinside : w.stop ≤ layout.lastAddressable.toNat + 1 :=
    hdeclares.stores.inside w (hwrites w hw)
  have hlast := Layout.lastAddressable_eq hmax
  change w.stop ≤ layout.size
  omega

theorem blocksStored {items : List Item}
    (hdeclares : (Draft.empty layout).Declares (declaredBlocks items).flatten d)
    (horigin : ∀ item ∈ items, ¬ item.isOrigin) :
    BlocksStored (declaredBlocks items) image where
  consecutive block hblock := Draft.consecutive_of_mem_declaredBlocks horigin hblock
  apart block hblock :=
    (Draft.consecutive_of_mem_declaredBlocks horigin hblock).pairwise.imp .inl
  stored front block back hblocks v hv k hk hfree := by
    have hblock : Consecutive 0 block := by
      refine Draft.consecutive_of_mem_declaredBlocks horigin ?_
      rw [hblocks]
      exact List.mem_append_right front List.mem_cons_self
    obtain ⟨before, behind, rfl⟩ := List.append_of_mem hv
    -- the rest of the block stands behind the variable
    have hbehind : ∀ u ∈ behind, v.stop ≤ u.address :=
      (List.pairwise_cons.mp (List.pairwise_append.mp hblock.pairwise).2.1).1
    have hflatten : (declaredBlocks items).flatten =
        (front.flatten ++ before) ++ v :: (behind ++ back.flatten) := by
      rw [hblocks, List.flatten_append, List.flatten_cons, List.append_assoc, List.append_assoc,
        List.cons_append]
    rw [hflatten] at hdeclares
    refine h.getD_memory_declared hdeclares hk fun u hu => ?_
    rcases List.mem_append.mp hu with hsame | hlater
    · have hstop := hbehind u hsame
      have hend := v.address_add_length_bytes
      exact .inl (by omega)
    · exact hfree u hlater

end Assembled

/-- Where the source does not move the position in its data blocks, variables of one block never
lie on each other, and a variable is stored but for what variables of later blocks cover. -/
theorem blocksStored_of_assemble {source : String} {config : Config} {image : Image}
    {lines : List Line} (h : assemble source config = .ok image)
    (hlines : Source.read source = .ok lines)
    (horigin : ∀ item ∈ outline lines, ¬ item.isOrigin) :
    ∃ d, Draft.read source config = .ok d ∧
      declarations? source = some (declaredBlocks (outline lines)).flatten ∧
      (∀ name n, d.vars.find? name = some n ↔
        ∃ v ∈ (declaredBlocks (outline lines)).flatten, v.name = name ∧ v.address = n) ∧
      BlocksStored (declaredBlocks (outline lines)) image := by
  obtain ⟨layout, d, p, instructions, hA⟩ := exists_assembled h
  obtain ⟨lines', hlines', hplaced⟩ := hA.exists_outline
  obtain rfl : lines' = lines := Except.ok.inj (hlines'.symm.trans hlines)
  obtain ⟨layout', declared, hlayout, hdeclared, hdeclares⟩ := Draft.declares_of_read hA.read
  obtain rfl : layout' = layout := Except.ok.inj (hlayout.symm.trans hA.layout_eq)
  have hblocks : declared = (declaredBlocks (outline lines')).flatten :=
    (Draft.declaredBy_outline hlines hdeclared).symm.trans (hplaced.declaredBy_eq_flatten rfl 0)
  subst hblocks
  refine ⟨d, hA.read, hdeclared, fun name n => ?_, hA.blocksStored hdeclares horigin⟩
  rw [hdeclares.vars]
  simp [Draft.empty, SymbolTable.find?]

/-- A block among code whose variables have several groups, none, and one, and a shorter block
behind it, whose variable lies on the first bytes of the longer one. -/
def blocksAmongCode : String :=
  ".MAIN\nmov %al @n\n.DATA\na 1 2 \"hi\" 3\nnone\nn 7\nend\nhalt\n.data z 9 end"

theorem blocksStored_blocksAmongCode :
    ∃ image lines, assemble blocksAmongCode { memorySize := 32 } = .ok image ∧
      image.memory = [9, 0, 0, 104, 105, 0, 3, 0, 0, 7] ∧
      Source.read blocksAmongCode = .ok lines ∧
      declarations? blocksAmongCode = some (declaredBlocks (outline lines)).flatten ∧
      declaredBlocks (outline lines) =
        [[⟨"a", 0, [[1, 2], [104, 105], [3]]⟩, ⟨"none", 8, [[]]⟩, ⟨"n", 9, [[7]]⟩],
          [⟨"z", 0, [[9]]⟩]] ∧
      BlocksStored (declaredBlocks (outline lines)) image := by
  have hassemble : assemble blocksAmongCode { memorySize := 32 } =
      .ok ⟨[2, 1, 0, 5, 9, 1], [9, 0, 0, 104, 105, 0, 3, 0, 0, 7], .bits16, 0⟩ := by
    decide +kernel
  have houtline : (Source.read blocksAmongCode).toOption.map
      (fun lines => ((outline lines).all (!·.isOrigin), declaredBlocks (outline lines))) =
        some (true, [[⟨"a", 0, [[1, 2], [104, 105], [3]]⟩, ⟨"none", 8, [[]]⟩, ⟨"n", 9, [[7]]⟩],
          [⟨"z", 0, [[9]]⟩]]) := by
    decide +kernel
  obtain ⟨lines, hread, hparts⟩ := Except.exists_of_toOption_map houtline
  obtain ⟨hall, hblocks⟩ := Prod.mk.inj hparts
  obtain ⟨_, -, hdeclared, -, hstored⟩ :=
    blocksStored_of_assemble hassemble hread (by simpa using hall)
  exact ⟨_, lines, hassemble, rfl, hread, hdeclared, hblocks, hstored⟩

/-- Two blocks with one variable each, both of them at zero. -/
def twoBlocks : String :=
  ".DATA\na 1\nend\n.DATA\nb 2\nend\n.MAIN\nmov %al @a\nmov %bl @b\nhalt"

/-- Variables of two blocks lie on each other, without any origin. -/
theorem not_apart_twoBlocks :
    ∃ image lines v w, assemble twoBlocks { memorySize := 32 } = .ok image ∧
      Source.read twoBlocks = .ok lines ∧ (∀ item ∈ outline lines, ¬ item.isOrigin) ∧
      declarations? twoBlocks = some [v, w] ∧ v.name ≠ w.name ∧
      ¬ v.Apart w ∧ ¬ v.StoredIn image := by
  have hassemble : assemble twoBlocks { memorySize := 32 } =
      .ok ⟨[2, 1, 0, 5, 0, 2, 1, 2, 5, 0, 1], [2], .bits16, 0⟩ := by
    decide +kernel
  have horigin : (Source.read twoBlocks).toOption.map
      (fun lines => (outline lines).all (!·.isOrigin)) = some true := by
    decide +kernel
  have hdeclared : declarations? twoBlocks = some [⟨"a", 0, [[1]]⟩, ⟨"b", 0, [[2]]⟩] := by
    decide +kernel
  obtain ⟨lines, hread, hall⟩ := Except.exists_of_toOption_map horigin
  refine ⟨_, lines, _, _, hassemble, hread, by simpa using hall, hdeclared, by decide,
    by decide, ?_⟩
  intro hstored
  exact absurd (hstored 0 (by decide)) (by decide)

end TeachingCpu
