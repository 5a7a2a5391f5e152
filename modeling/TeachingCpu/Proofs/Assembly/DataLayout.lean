import TeachingCpu.Proofs.Assembly.Passes

/-!
# Where the data of a source go

What the data blocks of a source declare is told here without a draft (`declarations?`): a line
inside a block is read at a position, and says which variables start where, what the groups of
their values are, and where the next line goes on. The groups are the runs of the values, in which
a string stands alone and numbers stand together.

The first pass does nothing else. The draft of a source that it accepts holds the groups that are
declared, written one after the other into empty memory, and every variable where its line started
(`holdsData_of_read`). As later groups can go over earlier ones, the order of the writes matters.
-/

namespace TeachingCpu

namespace Draft

/-! ## Values -/

/-- The bytes that a value stands for: those of a string, or the one of a number. -/
def valueBytes? (t : Token) : Option (List UInt8) :=
  if t.kind = .str then (stringBytes t).toOption
  else (value t 255).toOption.map fun n => [n.toUInt8]

/-- Whether two values that stand next to each other are of one group: both are numbers. -/
def sameGroup (t t' : Token) : Bool := t.kind != .str && t'.kind != .str

/-- The groups of values: the longest runs of numbers, and every string alone. Without values there
is one group, which is empty. -/
def groups? (values : List Token) : Option (List (List UInt8)) :=
  if values.isEmpty then some [[]]
  else (values.splitBy sameGroup).mapM fun run => (run.mapM valueBytes?).map List.flatten

/-! ## Declarations -/

/-- Bytes that are written at an address. -/
structure DataWrite where
  address : Nat
  bytes : List UInt8
deriving DecidableEq, Repr

/-- The address behind the bytes. -/
def DataWrite.stop (w : DataWrite) : Nat := w.address + w.bytes.length

/-- Groups from an address on, one behind the other, each with a zero byte. -/
def writesFrom (address : Nat) : List (List UInt8) → List DataWrite
  | [] => []
  | bytes :: rest => ⟨address, bytes ++ [0]⟩ :: writesFrom (address + (bytes.length + 1)) rest

/-- A variable, where its line starts, and the groups of its values. -/
structure Declaration where
  name : String
  address : Nat
  groups : List (List UInt8)
deriving DecidableEq, Repr

namespace Declaration

/-- What a variable writes. -/
def writes (v : Declaration) : List DataWrite := writesFrom v.address v.groups

/-- The address behind the values of a variable. -/
def stop (v : Declaration) : Nat := v.address + (v.groups.map fun bytes => bytes.length + 1).sum

end Declaration

/-- What variables write, in order. -/
def writesOf (declared : List Declaration) : List DataWrite := declared.flatMap Declaration.writes

/-- What a line, or what is left of it, declares inside a data block at a position, and the
position behind it, which is none if the line closes the block. -/
def declareData? (position : Nat) : List Token → Option (List Declaration × Option Nat)
  | [] => some ([], some position)
  | first :: rest =>
    if first.isWord endWord then
      if rest.isEmpty then some ([], none) else none
    else if first.isWord originWord then
      match rest with
      | [] => none
      | address :: rest => do declareData? (← (value address 65535).toOption) rest
    else do
      let declared : Declaration :=
        ⟨first.text, position, ← groups? (rest.takeWhile (!·.isWord endWord))⟩
      match rest.dropWhile (!·.isWord endWord) with
      | [] => some ([declared], some declared.stop)
      | [_] => some ([declared], none)
      | _ => none

/-- What a line declares, and the position behind it. A block starts at zero, and outside of blocks
nothing is declared. -/
def declareLine? (line : Line) : Option Nat → Option (List Declaration × Option Nat)
  | some position => declareData? position line.tokens
  | none =>
    match line.tokens with
    | [] => some ([], none)
    | first :: rest =>
      if first.kind = .word ∧ Text.lower first.text = dataWord then declareData? 0 rest
      else some ([], none)

/-- What lines declare one after the other, and the position behind them. -/
def declareLines? : List Line → Option Nat → Option (List Declaration × Option Nat)
  | [], position => some ([], position)
  | line :: rest, position => do
    let (front, position) ← declareLine? line position
    let (back, position) ← declareLines? rest position
    return (front ++ back, position)

/-- What the data blocks of a source declare. The last of them has to be closed. -/
def declarations? (source : String) : Option (List Declaration) := do
  let lines ← (Source.read source).toOption
  let (declared, none) ← declareLines? lines none | none
  return declared

/-! ## The groups that are written -/

/-- The bytes of a value that stands for some. -/
def valueBytes (t : Token) : List UInt8 :=
  if t.kind = .str then bytesOf t else [(valueOf t 255).toUInt8]

theorem valueBytes_of_str {t : Token} (h : t.kind = .str) : valueBytes t = bytesOf t := if_pos h

theorem valueBytes_of_number {t : Token} (h : t.kind ≠ .str) :
    valueBytes t = [(valueOf t 255).toUInt8] := if_neg h

/-- Numbers in a row are one group, if there are any. -/
theorem numberGroup_eq {numbers : List Token} (h : ∀ t ∈ numbers, t.kind ≠ .str) :
    numberGroup (numbers.flatMap valueBytes).reverse =
      (numbers.splitBy sameGroup).map (List.flatMap valueBytes) := by
  cases numbers with
  | nil => rfl
  | cons first rest =>
    have hchain : (first :: rest).IsChain fun t t' => sameGroup t t' := by
      refine (List.pairwise_of_forall_mem_list fun t ht t' ht' => ?_).isChain
      simp [sameGroup, h t ht, h t' ht']
    rw [List.splitBy_of_isChain (List.cons_ne_nil _ _) hchain, List.map_singleton]
    generalize hbytes : ((first :: rest).flatMap valueBytes).reverse = bytes
    cases bytes with
    | nil => simp [valueBytes_of_number (h first List.mem_cons_self)] at hbytes
    | cons b bytes =>
      change [(b :: bytes).reverse] = _
      rw [← hbytes, List.reverse_reverse]

/-- The groups of numbers in a row and of what follows them are the runs of all these values. -/
theorem groupsAfter_eq (numbers values : List Token) (h : ∀ t ∈ numbers, t.kind ≠ .str) :
    groupsAfter (numbers.flatMap valueBytes).reverse values =
      ((numbers ++ values).splitBy sameGroup).map (List.flatMap valueBytes) := by
  -- the run that is not yet complete stays in front of the values that are left
  induction values generalizing numbers with
  | nil => rw [groupsAfter, List.append_nil, numberGroup_eq h]
  | cons t rest ih =>
    rw [groupsAfter]
    by_cases hstr : t.kind = .str
    · have hfront : (numbers ++ t :: rest).splitBy sameGroup =
          numbers.splitBy sameGroup ++ (t :: rest).splitBy sameGroup :=
        List.splitBy_append_cons rest (by simp [sameGroup, hstr])
      have hback : (t :: rest).splitBy sameGroup = [t] :: rest.splitBy sameGroup :=
        List.splitBy_append (l := [t]) (by simp [sameGroup, hstr])
      have hrest : groupsAfter [] rest = (rest.splitBy sameGroup).map (List.flatMap valueBytes) :=
        ih [] (by simp)
      rw [if_pos hstr, numberGroup_eq h, hfront, hback, hrest, List.map_append, List.map_cons,
        List.flatMap_singleton, valueBytes_of_str hstr]
    · have hnext := ih (numbers ++ [t]) fun t' ht' => by
        rcases List.mem_append.mp ht' with hfront | hlast
        · exact h t' hfront
        · exact List.mem_singleton.mp hlast ▸ hstr
      rw [List.flatMap_append, List.flatMap_singleton, valueBytes_of_number hstr,
        List.reverse_append, List.append_assoc] at hnext
      rw [if_neg hstr]
      exact hnext

/-- Values that stand for bytes have groups. -/
theorem groups?_eq_some {values : List Token}
    (h : ∀ t ∈ values, valueBytes? t = some (valueBytes t)) :
    groups? values = some (valueGroups values) := by
  unfold groups? valueGroups
  split
  · rfl
  · have hgroups : groupsAfter [] values =
        (values.splitBy sameGroup).map (List.flatMap valueBytes) :=
      groupsAfter_eq [] values (by simp)
    rw [hgroups]
    refine List.mapM_eq_some_map fun run hrun => ?_
    have hmem : ∀ t ∈ run, t ∈ values := fun t ht => by
      rw [← List.flatten_splitBy sameGroup values]
      exact List.mem_flatten_of_mem hrun ht
    rw [List.mapM_eq_some_map fun t ht => h t (hmem t ht), Option.map_some, List.flatMap]

/-- Values that are written stand for bytes. -/
theorem valueBytes?_of_writeValues {values : List Token} {group : Option (Token × List UInt8)}
    {d d' : Draft} (h : writeValues values group d = .ok () d') :
    ∀ t ∈ values, valueBytes? t = some (valueBytes t) := by
  induction values generalizing group d with
  | nil => simp
  | cons t rest ih =>
    rw [List.forall_mem_cons]
    unfold valueBytes? valueBytes
    by_cases hstr : t.kind = .str
    · obtain ⟨d₁, bytes, -, -, hbytes, -, hrest⟩ := exists_writeGroup_of_str hstr h
      refine ⟨?_, ih hrest⟩
      rw [if_pos hstr, if_pos hstr, bytesOf_eq hbytes, hbytes]
      rfl
    · obtain ⟨n, hvalue, hrest⟩ := exists_value_of_number hstr h
      refine ⟨?_, ih hrest⟩
      rw [if_neg hstr, if_neg hstr, valueOf_eq hvalue, hvalue]
      rfl

/-! ## What the first pass writes -/

/-- Memory behind bytes that are written. -/
def put (m : Memory) (w : DataWrite) : Memory := m.replace w.address w.bytes

theorem layout_foldl_put (writes : List DataWrite) (m : Memory) :
    (writes.foldl put m).layout = m.layout := by
  induction writes generalizing m with
  | nil => rfl
  | cons w writes ih => exact ih (put m w)

/-- A draft that comes from another one by writing, all inside memory. -/
structure Stores (d : Draft) (writes : List DataWrite) (d' : Draft) : Prop where
  memory : d'.memory = writes.foldl put d.memory
  dataEnd : d'.dataEnd = (writes.map DataWrite.stop).foldl max d.dataEnd
  inside : ∀ w ∈ writes, w.stop ≤ d.memory.layout.lastAddressable.toNat + 1

/-- A draft that comes from another one by declaring variables. -/
structure Declares (d : Draft) (declared : List Declaration) (d' : Draft) : Prop where
  stores : d.Stores (writesOf declared) d'
  vars : ∀ name n, d'.vars.find? name = some n ↔
    d.vars.find? name = some n ∨ ∃ v ∈ declared, v.name = name ∧ v.address = n

section Steps

variable {d d₁ d' : Draft}

theorem stores_putGroups {groups : List (List UInt8)} (h : d.FitAll groups) :
    d.Stores (writesFrom (d.position.getD 0) groups) (groups.foldl putGroup d) := by
  induction groups generalizing d with
  | nil => exact ⟨rfl, rfl, nofun⟩
  | cons bytes rest ih =>
    obtain ⟨hfits, hrest⟩ := h
    obtain ⟨hmemory, hend, hinside⟩ := ih hrest
    have hstop : DataWrite.stop ⟨d.position.getD 0, bytes ++ [0]⟩ =
        d.position.getD 0 + bytes.length + 1 := by
      rw [DataWrite.stop, List.length_append, List.length_singleton, Nat.add_assoc]
    refine ⟨hmemory, ?_, ?_⟩
    · rw [writesFrom, List.map_cons, List.foldl_cons, hstop]
      exact hend
    · rw [writesFrom, List.forall_mem_cons, hstop]
      exact ⟨Nat.succ_le_succ hfits, hinside⟩

theorem Stores.append {front back : List DataWrite} (h : d.Stores front d₁)
    (h' : d₁.Stores back d') : d.Stores (front ++ back) d' := by
  refine ⟨?_, ?_, ?_⟩
  · rw [h'.memory, h.memory, List.foldl_append]
  · rw [h'.dataEnd, h.dataEnd, List.map_append, List.foldl_append]
  · have hlayout : d₁.memory.layout = d.memory.layout := by
      rw [h.memory, layout_foldl_put]
    intro w hw
    rcases List.mem_append.mp hw with hfront | hback
    · exact h.inside w hfront
    · exact hlayout ▸ h'.inside w hback

/-- The data end behind everything that was written. -/
theorem Stores.stop_le_dataEnd {writes : List DataWrite} (h : d.Stores writes d')
    {w : DataWrite} (hw : w ∈ writes) : w.stop ≤ d'.dataEnd := by
  rw [h.dataEnd]
  exact List.le_foldl_max (.inr (List.mem_map_of_mem hw))

theorem Declares.append {front back : List Declaration} (h : d.Declares front d₁)
    (h' : d₁.Declares back d') : d.Declares (front ++ back) d' := by
  refine ⟨?_, fun name n => ?_⟩
  · rw [writesOf, List.flatMap_append]
    exact h.stores.append h'.stores
  · rw [h'.vars, h.vars, or_assoc]
    simp only [List.mem_append, or_and_right, exists_or]

/-- What a draft keeps beside its data is free. -/
theorem declares_nil (hmemory : d'.memory = d.memory) (hvars : d'.vars = d.vars)
    (hend : d'.dataEnd = d.dataEnd) : d.Declares [] d' :=
  ⟨⟨hmemory, hend, nofun⟩, fun name n => by simp [hvars]⟩

theorem declares_of_closeData {rest : List Token} (h : closeData rest d = .ok () d') :
    d'.position = none ∧ d.Declares [] d' := by
  obtain ⟨-, rfl⟩ := closeData_eq_ok h
  exact ⟨rfl, declares_nil rfl rfl rfl⟩

/-- A variable whose groups are written is declared. -/
theorem declares_putGroups {name : String} {groups : List (List UInt8)}
    (hnew : d.vars.find? name = none)
    (hfits : FitAll { d with vars := d.vars.define name (d.position.getD 0) } groups) :
    d.Declares [⟨name, d.position.getD 0, groups⟩] (d.place (.var name groups)) := by
  refine ⟨?_, fun other n => ?_⟩
  · have hwrites : writesOf [⟨name, d.position.getD 0, groups⟩] =
        writesFrom (d.position.getD 0) groups := List.flatMap_singleton ..
    obtain ⟨hmemory, hend, hinside⟩ := stores_putGroups hfits
    rw [hwrites]
    exact ⟨hmemory, hend, hinside⟩
  · rw [place, vars_putGroups]
    simp only [List.mem_singleton, exists_eq_left]
    by_cases hname : other = name
    · subst hname
      simp [hnew]
    · simp [SymbolTable.find?_define_of_ne _ hname, Ne.symm hname]

/-- A variable moves the position behind its values. -/
theorem position_place_var {position : Nat} {name : String} {groups : List (List UInt8)}
    (hopen : d.position = some position) :
    (d.place (.var name groups)).position = some (Declaration.stop ⟨name, position, groups⟩) := by
  have hsome : (d.place (.var name groups)).position.isSome :=
    position_putGroups _ _ (by simp [hopen])
  have hstop := d.getD_position_place (.var name groups)
  obtain ⟨stop, hposition⟩ := Option.isSome_iff_exists.mp hsome
  rw [hposition, hopen] at hstop
  rw [hposition]
  exact congrArg some hstop

theorem valueBytes?_of_writeAll {values : List Token} (h : writeAll values d = .ok () d') :
    ∀ t ∈ values, valueBytes? t = some (valueBytes t) := by
  unfold writeAll at h
  split at h
  · next hempty => simp [List.isEmpty_iff.mp hempty]
  · exact valueBytes?_of_writeValues h

theorem declares_of_addVariable {position : Nat} {name : Token} {rest : List Token}
    (hopen : d.position = some position) (hend : name.isWord endWord = false)
    (horigin : name.isWord originWord = false) (h : addVariable name rest d = .ok () d') :
    ∃ declared, declareData? position (name :: rest) = some (declared, d'.position) ∧
      d.Declares declared d' := by
  obtain ⟨⟨-, -, hnew⟩, d₁, hwrite, hfinish⟩ := addVariable_eq_ok_iff.mp h
  have hvalues := groups?_eq_some (valueBytes?_of_writeAll hwrite)
  obtain ⟨hfits, hplace⟩ := groups_of_writeAll hwrite
  generalize valueGroups (rest.takeWhile (!Token.isWord · endWord)) = groups
    at hvalues hfits hplace
  have hdeclares := declares_putGroups hnew hfits
  change d₁ = d.place (.var name.text groups) at hplace
  have hposition : d₁.position = some (Declaration.stop ⟨name.text, position, groups⟩) := by
    rw [hplace, position_place_var hopen]
  rw [← hplace, hopen, Option.getD_some] at hdeclares
  refine ⟨[⟨name.text, position, groups⟩], ?_⟩
  rw [declareData?.eq_def]
  dsimp only
  rw [if_neg (by simp [hend]), if_neg (by simp [horigin]), hvalues]
  dsimp only [Option.bind_eq_bind, Option.bind_some]
  rcases finishVariable_cases hfinish with ⟨hdrop, rfl⟩ | ⟨word, hdrop, hclose⟩
  · rw [hdrop, hposition]
    exact ⟨rfl, hdeclares⟩
  · obtain ⟨hclosed, hnothing⟩ := declares_of_closeData hclose
    rw [hdrop, hclosed]
    exact ⟨rfl, hdeclares.append hnothing⟩

theorem declares_of_addData {position : Nat} {tokens : List Token}
    (hopen : d.position = some position) (h : addData tokens d = .ok () d') :
    ∃ declared, declareData? position tokens = some (declared, d'.position) ∧
      d.Declares declared d' := by
  induction tokens using addData.induct generalizing d position with
  | case1 =>
    cases h
    exact ⟨[], by rw [hopen, declareData?], declares_nil rfl rfl rfl⟩
  | case2 first rest hend =>
    rw [addData_end rest hend] at h
    obtain ⟨hclosed, hnothing⟩ := declares_of_closeData h
    obtain ⟨rfl, -⟩ := closeData_eq_ok h
    refine ⟨[], ?_, hnothing⟩
    rw [declareData?.eq_def, hclosed]
    exact if_pos hend
  | case3 first hend horigin =>
    rw [addData, if_neg hend, if_pos horigin] at h
    cases h
  | case4 first hend horigin address rest ih =>
    rw [declareData?, if_neg hend, if_pos horigin]
    rw [Bool.not_eq_true] at hend
    obtain ⟨base, hvalue, -, hrest⟩ := (addData_origin_eq_ok_iff hend horigin).mp h
    obtain ⟨declared, hline, hdeclares⟩ := ih rfl hrest
    rw [hvalue]
    have hmoved : d.Declares [] { d with position := some base } := declares_nil rfl rfl rfl
    exact ⟨declared, hline, hmoved.append hdeclares⟩
  | case5 first rest hend horigin =>
    rw [Bool.not_eq_true] at hend horigin
    rw [addData_variable rest hend horigin] at h
    exact declares_of_addVariable hopen hend horigin h

theorem declares_of_addStatement {line : Nat} {mnemonic : Token} {operands : List Token}
    (h : addStatement line mnemonic operands d = .ok () d') :
    d'.position = d.position ∧ d.Declares [] d' := by
  obtain ⟨-, rfl⟩ := addStatement_eq_ok_iff.mp h
  exact ⟨rfl, declares_nil rfl rfl rfl⟩

theorem declares_of_addLabel {name : String} {t : Token} (h : addLabel name t d = .ok () d') :
    d'.position = d.position ∧ d.Declares [] d' := by
  obtain ⟨-, rfl⟩ := addLabel_eq_ok_iff.mp h
  exact ⟨rfl, declares_nil rfl rfl rfl⟩

/-- A line declares what it is read as, and leaves the position where it ends. -/
theorem declares_of_addLine {line : Line} (h : addLine line d = .ok () d') :
    ∃ declared, declareLine? line d.position = some (declared, d'.position) ∧
      d.Declares declared d' := by
  unfold declareLine?
  cases adds_of_addLine h with
  | data hopen h =>
    obtain ⟨position, hposition⟩ := Option.isSome_iff_exists.mp hopen
    rw [hposition]
    exact declares_of_addData hposition h
  | blank hclosed htokens hsame =>
    rw [hsame, hclosed, htokens]
    exact ⟨[], rfl, declares_nil rfl rfl rfl⟩
  | block hclosed htokens hdata h =>
    obtain ⟨declared, hline, hdeclares⟩ := declares_of_addData rfl h
    have hopened : d.Declares [] { d with position := some 0 } := declares_nil rfl rfl rfl
    rw [hclosed, htokens]
    exact ⟨declared, (if_pos hdata).trans hline, hopened.append hdeclares⟩
  | statement hclosed htokens hcode hlabel h =>
    obtain ⟨hsame, hnothing⟩ := declares_of_addStatement h
    rw [hsame, hclosed, htokens]
    exact ⟨[], if_neg hcode, hnothing⟩
  | label hclosed htokens hcode hlabel h =>
    obtain ⟨hsame, hnothing⟩ := declares_of_addLabel h
    rw [hsame, hclosed, htokens]
    exact ⟨[], if_neg hcode, hnothing⟩
  | labelled hclosed htokens hcode hlabel hfront h =>
    obtain ⟨hsame, hnothing⟩ := declares_of_addLabel hfront
    obtain ⟨hsame', hnothing'⟩ := declares_of_addStatement h
    rw [hsame', hsame, hclosed, htokens]
    exact ⟨[], if_neg hcode, hnothing.append hnothing'⟩

/-- Lines declare one behind the other. -/
theorem declares_of_forM {lines : List Line} (h : lines.forM addLine d = .ok () d') :
    ∃ declared, declareLines? lines d.position = some (declared, d'.position) ∧
      d.Declares declared d' := by
  induction lines generalizing d with
  | nil =>
    cases h
    exact ⟨[], rfl, declares_nil rfl rfl rfl⟩
  | cons line rest ih =>
    change (addLine line >>= fun _ => rest.forM addLine) d = .ok () d' at h
    obtain ⟨_, d₁, hline, hrest⟩ := Attempt.bind_eq_ok.mp h
    obtain ⟨front, hfront, hdeclares⟩ := declares_of_addLine hline
    obtain ⟨back, hback, hdeclares'⟩ := ih hrest
    refine ⟨front ++ back, ?_, hdeclares.append hdeclares'⟩
    rw [declareLines?, hfront]
    dsimp only [Option.bind_eq_bind, Option.bind_some]
    rw [hback]
    rfl

end Steps

/-- The draft of a source declares what the data blocks of the source do. -/
theorem declares_of_read {source : String} {config : Config} {d : Draft}
    (h : read source config = .ok d) :
    ∃ layout declared, config.layout = .ok layout ∧ declarations? source = some declared ∧
      (empty layout).Declares declared d := by
  obtain ⟨layout, lines, hlayout, hlines, hadd⟩ := read_eq_ok_iff.mp h
  obtain ⟨hforM, hclosed⟩ := addLines_eq_ok_iff.mp hadd
  obtain ⟨declared, hdeclared, hdeclares⟩ := declares_of_forM hforM
  refine ⟨layout, declared, hlayout, ?_, hdeclares⟩
  rw [hclosed] at hdeclared
  have hnone : declareLines? lines none = some (declared, none) := hdeclared
  rw [declarations?, hlines]
  change (declareLines? lines none >>= _) = _
  rw [hnone]
  rfl

/-- A draft that holds declared variables and nothing else, in a memory of a layout. -/
structure HoldsData (d : Draft) (layout : Layout) (declared : List Declaration) : Prop where
  /-- The groups are written into empty memory in the order of the source. -/
  memory : d.memory = (writesOf declared).foldl put (.zeroed layout)
  inside : ∀ w ∈ writesOf declared, w.stop ≤ layout.size
  /-- A variable stands where its line started. -/
  vars : ∀ name n, d.vars.find? name = some n ↔ ∃ v ∈ declared, v.name = name ∧ v.address = n
  /-- The data end behind the highest byte that is written. -/
  dataEnd : d.dataEnd = ((writesOf declared).map DataWrite.stop).foldl max 0
  /-- The last byte of the data is zero, and so is everything behind it. -/
  zero : ∀ k, d.dataEnd ≤ k + 1 → d.memory.byteAt k = 0

/-- The draft of a source holds what its data blocks declare. -/
theorem holdsData_of_read {source : String} {config : Config} {d : Draft}
    (h : read source config = .ok d) :
    ∃ layout declared, config.layout = .ok layout ∧ declarations? source = some declared ∧
      d.HoldsData layout declared := by
  obtain ⟨layout, declared, hlayout, hdeclared, hdeclares⟩ := declares_of_read h
  obtain ⟨_, -, hsound⟩ := sound_of_read h
  obtain ⟨-, hpos, hsize⟩ := Config.size_of_layout hlayout
  refine ⟨layout, declared, hlayout, hdeclared, hdeclares.stores.memory, fun w hw => ?_,
    fun name n => ?_, hdeclares.stores.dataEnd, hsound.data.zero⟩
  · have hinside := hdeclares.stores.inside w hw
    change w.stop ≤ layout.lastAddressable.toNat + 1 at hinside
    rw [Layout.lastAddressable_eq hsize] at hinside
    omega
  · rw [hdeclares.vars]
    simp [empty, SymbolTable.find?]

/-- Two blocks, in which a variable starts inside another one, one has no values, and the second
block begins with new values at zero. -/
def overlappingBlocks : String :=
  ".DATA\nx 1 2 \"hi\" $3\norg 4 y \"é\" 0x41\nempty\nend\n.MAIN\nhalt\n.data z 9 end"

theorem holdsData_overlappingBlocks :
    ∃ d layout declared, read overlappingBlocks { memorySize := 32 } = .ok d ∧
      declared = [⟨"x", 0, [[1, 2], [104, 105], [3]]⟩, ⟨"y", 4, [[233], [65]]⟩,
        ⟨"empty", 8, [[]]⟩, ⟨"z", 0, [[9]]⟩] ∧
      d.memory.image = [9, 0, 0, 104, 233, 0, 65] ∧ d.dataEnd = 9 ∧
      d.HoldsData layout declared := by
  have hread : (read overlappingBlocks { memorySize := 32 }).toOption.map
      (fun d => (d.memory.image, d.dataEnd)) = some ([9, 0, 0, 104, 233, 0, 65], 9) := by
    decide +kernel
  have hdeclared : declarations? overlappingBlocks = some
      [⟨"x", 0, [[1, 2], [104, 105], [3]]⟩, ⟨"y", 4, [[233], [65]]⟩, ⟨"empty", 8, [[]]⟩,
        ⟨"z", 0, [[9]]⟩] := by
    decide +kernel
  cases hd : read overlappingBlocks { memorySize := 32 } with
  | error e =>
    rw [hd] at hread
    cases hread
  | ok d =>
    obtain ⟨layout, declared, -, hsome, hholds⟩ := holdsData_of_read hd
    rw [hdeclared] at hsome
    cases hsome
    rw [hd] at hread
    have hparts := Option.some.inj hread
    exact ⟨d, layout, _, rfl, rfl, congrArg Prod.fst hparts, congrArg Prod.snd hparts, hholds⟩

end Draft

end TeachingCpu
