import TeachingCpu.Files.Storage
import TeachingCpu.Proofs.Text.Split

/-!
# Names that stay in a directory

The files of a program can be those below a directory of the host. A name is accepted exactly if,
cut at its slashes, it leads nowhere but down (`FilePath.Plain`). This is what is left of a path
whose components, as Unix systems give them, are all names (`plain_iff_components`). The path that
is opened goes through the directory first and then down with each piece that is a name, so no file
outside of the directory is read or changed (`directory_contains`).
-/

namespace TeachingCpu

namespace FilePath

/-! ## Pieces and components -/

/-- What stands between the slashes of a path. -/
def pieces (path : String) : List String := (Text.splitAtChar '/' path.toList).map String.ofList

/-- A component of a path. -/
inductive Component where
  | root
  | current
  | parent
  | normal (name : String)
deriving DecidableEq, Repr

/-- The component that a piece is. Behind the start of a path, an empty piece and `.` are none. -/
def component? (piece : String) : Option Component :=
  if piece = "" ∨ piece = "." then none
  else if piece = ".." then some .parent
  else some (.normal piece)

/-- What a path starts with. Here a slash and `.` count. -/
def start (path first : String) : List Component :=
  if FileTree.isAbsolute path then [.root]
  else if first = "." then [.current]
  else (component? first).toList

/-- The components of a path. -/
def components (path : String) : List Component :=
  match pieces path with
  | [] => []
  | first :: rest => start path first ++ rest.filterMap component?

/-- A path below another one. An absolute path takes its place; any other follows it, with a slash
in between, once. -/
def join (root name : String) : String :=
  if FileTree.isAbsolute name then name
  else if root.isEmpty || FileTree.namesDirectory root then root ++ name
  else root ++ "/" ++ name

/-- A name that leads nowhere but down. -/
structure Plain (name : String) : Prop where
  nonempty : name ≠ ""
  relative : FileTree.isAbsolute name = false
  first : (pieces name).head? ≠ some "."
  inside : ".." ∉ pieces name

theorem exists_pieces (path : String) : ∃ first rest, pieces path = first :: rest :=
  List.exists_cons_of_ne_nil (List.map_eq_nil_iff.not.mpr (Text.splitAtChar_ne_nil _ _))

/-- Only of an empty and of an absolute path the first piece is empty. -/
theorem head?_pieces (path : String) :
    (pieces path).head? = some "" ↔ path = "" ∨ FileTree.isAbsolute path := by
  have hpiece : ∀ cs : List Char, String.ofList cs = "" ↔ cs = [] := by simp
  have hpath : path = "" ↔ path.toList = [] := String.toList_eq_nil_iff.symm
  rw [hpath, FileTree.isAbsolute, beq_iff_eq, ← Text.head?_splitAtChar, pieces, List.head?_map]
  simp [hpiece]

/-- A component is a name if its piece is. -/
theorem normal_component? {piece : String} :
    (∀ c, component? piece = some c → ∃ name, c = .normal name) ↔ piece ≠ ".." := by
  unfold component?
  split
  · next h => rcases h with rfl | rfl <;> simp
  · split
    · next h => simp [h]
    · next h => simp [h]

/-- The plain names are those that are not empty and whose components are all names. -/
theorem plain_iff_components (name : String) :
    Plain name ↔ name ≠ "" ∧ ∀ c ∈ components name, ∃ part, c = .normal part := by
  obtain ⟨first, rest, hpieces⟩ := exists_pieces name
  have hstart : (∀ c ∈ start name first, ∃ part, c = .normal part) ↔
      FileTree.isAbsolute name = false ∧ first ≠ "." ∧ first ≠ ".." := by
    unfold start
    split
    · next h => simp [h]
    · next h =>
      split
      · next hdot => simp [hdot]
      · next hdot =>
        simp only [Option.mem_toList, normal_component?]
        simp [h, hdot]
  have hrest : (∀ c ∈ rest.filterMap component?, ∃ part, c = .normal part) ↔ ".." ∉ rest := by
    have hpiece : ".." ∉ rest ↔ ∀ piece ∈ rest, piece ≠ ".." :=
      ⟨fun h piece hmem heq => h (heq ▸ hmem), fun h hmem => h _ hmem rfl⟩
    rw [hpiece]
    simp only [← normal_component?, List.mem_filterMap]
    exact ⟨fun h piece hmem c hc => h c ⟨piece, hmem, hc⟩,
      fun h c ⟨piece, hmem, hc⟩ => h piece hmem c hc⟩
  have hcomponents : components name = start name first ++ rest.filterMap component? := by
    rw [components, hpieces]
  rw [hcomponents, List.forall_mem_append, hstart, hrest]
  constructor
  · rintro ⟨hne, hrelative, hdot, hinside⟩
    rw [hpieces] at hdot hinside
    obtain ⟨hfirst, hrest⟩ := not_or.mp (List.mem_cons.not.mp hinside)
    exact ⟨hne, ⟨hrelative, fun h => hdot (congrArg some h), Ne.symm hfirst⟩, hrest⟩
  · rintro ⟨hne, ⟨hrelative, hdot, hfirst⟩, hrest⟩
    refine ⟨hne, hrelative, ?_, ?_⟩
    · rw [hpieces]
      exact fun h => hdot (Option.some.inj h)
    · rw [hpieces]
      exact List.mem_cons.not.mpr (not_or.mpr ⟨Ne.symm hfirst, hrest⟩)

/-! ## Places -/

/-- Where a piece leads to from a place, as far as names tell. -/
def enter (place : Location) (piece : String) : Location :=
  if piece = "" ∨ piece = "." then place
  else if piece = ".." then FileTree.parent place
  else place ++ [piece]

/-- Where pieces lead to, one after the other. -/
def placeFrom (place : Location) (pieces : List String) : Location := pieces.foldl enter place

/-- Where a path starts. -/
def origin (path : String) : Location := if FileTree.isAbsolute path then ["/"] else []

/-- Where a path leads to. -/
def place (path : String) : Location := placeFrom (origin path) (pieces path)

theorem placeFrom_cons_of_name {piece : String} (hempty : piece ≠ "") (hdot : piece ≠ ".")
    (hparent : piece ≠ "..") (start : Location) (rest : List String) :
    placeFrom start (piece :: rest) = placeFrom (start ++ [piece]) rest := by
  change placeFrom (enter start piece) rest = _
  unfold enter
  rw [if_neg (not_or.mpr ⟨hempty, hdot⟩), if_neg hparent]

/-- The pieces that lead to another level. -/
def levels (pieces : List String) : List String :=
  pieces.filter fun piece => piece ≠ "" ∧ piece ≠ "."

/-- Pieces of which none is `..` lead down, each that is neither empty nor `.` by one level. -/
theorem placeFrom_eq {ps : List String} (h : ".." ∉ ps) (start : Location) :
    placeFrom start ps = start ++ levels ps := by
  induction ps generalizing start with
  | nil => simp [placeFrom, levels]
  | cons piece ps ih =>
    obtain ⟨hpiece, hps⟩ := not_or.mp (List.mem_cons.not.mp h)
    change placeFrom (enter start piece) ps = _
    rw [ih hps]
    unfold enter levels
    split
    · next hstay => rw [List.filter_cons_of_neg (by simp; tauto)]
    · next hname =>
      rw [if_neg (Ne.symm hpiece), List.filter_cons_of_pos (by simp; tauto), List.append_assoc]
      rfl

theorem placeFrom_append (start : Location) (front back : List String) :
    placeFrom start (front ++ back) = placeFrom (placeFrom start front) back := List.foldl_append

/-- Pieces that stay where they are do not matter. -/
theorem placeFrom_filter (start : Location) (ps : List String) :
    placeFrom start (ps.filter (!·.isEmpty)) = placeFrom start ps := by
  induction ps generalizing start with
  | nil => rfl
  | cons piece ps ih =>
    by_cases hpiece : piece = ""
    · subst hpiece
      exact ih start
    · rw [List.filter_cons_of_pos (by simpa using hpiece)]
      exact ih (enter start piece)

theorem pieces_slash (front back : String) :
    pieces (front ++ "/" ++ back) = pieces front ++ pieces back := by
  have hchars : (front ++ "/" ++ back).toList = front.toList ++ '/' :: back.toList := by simp
  rw [pieces, hchars, Text.splitAtChar_append_cons, List.map_append]
  rfl

theorem origin_append {front : String} (h : front ≠ "") (back : String) :
    origin (front ++ back) = origin front := by
  have hchars : front.toList ≠ [] := String.toList_eq_nil_iff.not.mpr h
  unfold origin FileTree.isAbsolute
  rw [String.toList_append, List.head?_append_of_ne_nil _ hchars]

theorem exists_of_namesDirectory {path : String} (h : FileTree.namesDirectory path) :
    ∃ front, path = front ++ "/" := by
  obtain ⟨front, hfront⟩ := List.getLast?_eq_some_iff.mp (beq_iff_eq.mp h)
  refine ⟨String.ofList front, ?_⟩
  simp [← String.toList_inj, hfront]

/-- A path below another one leads on from there. -/
theorem place_join {root name : String} (hname : Plain name) :
    place (join root name) = placeFrom (place root) (pieces name) := by
  have horigin : origin name = [] := if_neg (by simp [hname.relative])
  unfold join
  rw [hname.relative, if_neg Bool.false_ne_true]
  by_cases hempty : root = ""
  · subst hempty
    have hroot : place "" = [] := rfl
    rw [hroot, if_pos (by rfl), String.empty_append, place, horigin]
  · by_cases hslash : FileTree.namesDirectory root
    · -- the slash of the root is the one in between
      rw [if_pos (by simp [hslash])]
      obtain ⟨front, rfl⟩ := exists_of_namesDirectory hslash
      have hpieces : pieces (front ++ "/") = pieces front ++ [""] := by
        have h := pieces_slash front ""
        rwa [String.append_empty] at h
      rw [place, origin_append hempty, pieces_slash, placeFrom_append, place, hpieces,
        placeFrom_append]
      rfl
    · rw [if_neg (by simp [hempty, hslash]), place, pieces_slash, placeFrom_append,
        String.append_assoc, origin_append hempty]
      rfl

end FilePath

namespace FileTree

open FilePath

/-! ## What a path reaches -/

/-- What is at a place. -/
inductive At (t : FileTree) (place : Location) : Entry → Prop where
  | directory : At t place (.directory place)
  | file {bytes : List UInt8} (h : t.fileAt? place = some bytes) : At t place (.file place bytes)
  | absent (h : t.fileAt? place = none) : At t place (.absent place)

/-- Following components leads where their names tell. -/
theorem at_of_walk {t : FileTree} {start : Location} {cs : List String} {entry : Entry}
    (hcs : "" ∉ cs) (h : t.walk start cs = .ok entry) : At t (placeFrom start cs) entry := by
  fun_induction walk t start cs with
  | case1 start =>
    cases h
    exact .directory
  | case2 start rest ih => exact ih (List.not_mem_of_not_mem_cons hcs) h
  | case3 start rest ih => exact ih (List.not_mem_of_not_mem_cons hcs) h
  -- the places where a walk goes on or ends: a directory, a file, and a name that is free
  | case5 start c rest hdot hparent next _ _ ih =>
    obtain ⟨hempty, hrest⟩ := not_or.mp (List.mem_cons.not.mp hcs)
    rw [placeFrom_cons_of_name (Ne.symm hempty) hdot hparent]
    exact ih hrest h
  | case6 start c hdot hparent next _ _ bytes hfile =>
    obtain ⟨hempty, -⟩ := not_or.mp (List.mem_cons.not.mp hcs)
    rw [placeFrom_cons_of_name (Ne.symm hempty) hdot hparent]
    cases h
    exact .file hfile
  | case8 start c hdot hparent next _ _ habsent =>
    obtain ⟨hempty, -⟩ := not_or.mp (List.mem_cons.not.mp hcs)
    rw [placeFrom_cons_of_name (Ne.symm hempty) hdot hparent]
    cases h
    exact .absent habsent
  | case4 => cases h
  | case7 => cases h
  | case9 => cases h

theorem components_eq (path : String) :
    components path = (pieces path).filter (!·.isEmpty) := by
  unfold components pieces
  rw [List.filter_map]
  refine congrArg _ (List.filter_congr fun piece _ => ?_)
  cases piece <;> simp

theorem at_of_locate {t : FileTree} {path : String} {entry : Entry}
    (h : t.locate path = .ok entry) : At t (place path) entry := by
  unfold locate follow at h
  split at h
  · cases h
  · split at h
    · cases h
    · split at h
      · cases h
      · rw [components_eq] at h
        have hfound := at_of_walk (by simp) h
        rwa [placeFrom_filter] at hfound

/-- Outside of one place, two trees have the same directories and files. -/
structure SameElsewhere (place : Location) (t t' : FileTree) : Prop where
  directories : t'.directories = t.directories
  files : ∀ other, other ≠ place → t'.fileAt? other = t.fileAt? other

theorem lookup_filter_of_ne {place other : Location} (h : other ≠ place)
    (files : List (Location × List UInt8)) :
    (files.filter (·.1 ≠ place)).lookup other = files.lookup other := by
  induction files with
  | nil => rfl
  | cons file files ih => grind

theorem sameElsewhere_put (t : FileTree) (place : Location) (bytes : List UInt8) :
    SameElsewhere place t (t.put place bytes) := by
  refine ⟨rfl, fun other hother => ?_⟩
  have hfirst : (other == place) = false := beq_eq_false_iff_ne.mpr hother
  unfold fileAt? put
  rw [List.lookup_cons, hfirst]
  exact lookup_filter_of_ne hother t.files

theorem sameElsewhere_of_update {t t' : FileTree} {path : String}
    {change : List UInt8 → List UInt8} (h : t.update path change = .ok t') :
    SameElsewhere (place path) t t' := by
  unfold update at h
  split at h
  · split at h <;> cases h
  · cases hlocate : t.locate path with
    | error e =>
      rw [hlocate] at h
      cases h
    | ok entry =>
      rw [hlocate] at h
      cases at_of_locate hlocate with
      | directory => cases h
      | file hfile =>
        cases h
        exact sameElsewhere_put _ _ _
      | absent habsent =>
        cases h
        exact sameElsewhere_put _ _ _

theorem sameElsewhere_of_remove {t t' : FileTree} {path : String} (h : t.remove path = .ok t') :
    SameElsewhere (place path) t t' := by
  unfold remove at h
  cases hlocate : t.locate path with
  | error e =>
    rw [hlocate] at h
    cases h
  | ok entry =>
    rw [hlocate] at h
    cases at_of_locate hlocate with
    | directory => cases h
    | file hfile =>
      dsimp only at h
      split at h
      · cases h
      · cases h
        exact ⟨rfl, fun other hother => lookup_filter_of_ne hother t.files⟩
    | absent habsent => cases h

theorem fileAt?_of_read {t : FileTree} {path : String} {bytes : List UInt8}
    (h : t.read path = .ok bytes) : t.fileAt? (place path) = some bytes := by
  unfold read at h
  cases hlocate : t.locate path with
  | error e =>
    rw [hlocate] at h
    cases h
  | ok entry =>
    rw [hlocate] at h
    cases at_of_locate hlocate with
    | directory => cases h
    | file hfile =>
      dsimp only at h
      split at h
      · cases h
      · cases h
        exact hfile
    | absent habsent => cases h

end FileTree

namespace Storage

open FilePath

theorem isPlain_iff (name : String) : isPlain name = true ↔ Plain name := by
  have hpiece : ∀ (cs : List Char) (text : String), String.ofList cs = text ↔ cs = text.toList :=
    fun cs text => by rw [← String.toList_inj, String.toList_ofList]
  have hhead := head?_pieces name
  unfold isPlain
  cases hsplit : Text.splitAtChar '/' name.toList with
  | nil => exact absurd hsplit (Text.splitAtChar_ne_nil _ _)
  | cons first rest =>
    have hpieces : pieces name = (first :: rest).map String.ofList := congrArg _ hsplit
    have hinside : ".." ∉ pieces name ↔ ∀ piece ∈ first :: rest, piece ≠ ['.', '.'] := by
      rw [hpieces, List.mem_map, not_exists]
      simp only [hpiece, not_and]
      rfl
    rw [hpieces, List.map_cons, List.head?_cons, Option.some.injEq, hpiece] at hhead
    simp only [ne_eq, Bool.and_eq_true, decide_eq_true_eq, List.all_eq_true]
    constructor
    · rintro ⟨⟨hfirst, hdot⟩, hall⟩
      obtain ⟨hne, hrelative⟩ := not_or.mp (hhead.not.mp hfirst)
      refine ⟨hne, Bool.eq_false_of_not_eq_true hrelative, ?_, hinside.mpr hall⟩
      rw [hpieces, List.map_cons, List.head?_cons, ne_eq, Option.some.injEq, hpiece]
      exact hdot
    · rintro ⟨hne, hrelative, hdot, hall⟩
      rw [hpieces, List.map_cons, List.head?_cons, ne_eq, Option.some.injEq, hpiece] at hdot
      refine ⟨⟨hhead.not.mpr (not_or.mpr ⟨hne, ?_⟩), hdot⟩, hinside.mp hall⟩
      exact Bool.eq_false_iff.mp hrelative

theorem resolve_of_plain {name : String} (root : String) (h : Plain name) :
    resolve root name = .ok (join root name) := by
  unfold resolve join
  rw [if_pos ((isPlain_iff name).mpr h), h.relative]
  split <;> rfl

theorem resolve_of_not_plain {name : String} (root : String) (h : ¬ Plain name) :
    resolve root name = .error (.invalidName name) := by
  unfold resolve
  rw [if_neg ((isPlain_iff name).not.mpr h)]

/-! ## What is promised -/

/-- A name leads from a directory down to a place below it, and the file operations reach no other
place. -/
structure StaysBelow (root name : String) (tree : FileTree) : Prop where
  resolved : resolve root name = .ok (join root name)
  joined : join root name = root ++ name ∧ (root = "" ∨ FileTree.namesDirectory root) ∨
    join root name = root ++ "/" ++ name
  descends : ∀ front back, pieces name = front ++ back →
    placeFrom (place root) front = place root ++ levels front
  ends : place (join root name) = place root ++ levels (pieces name)
  below : levels (pieces name) ≠ []
  reads : ∀ bytes, (directory root tree).read name = .ok (some bytes) →
    tree.fileAt? (place (join root name)) = some bytes
  saves : ∀ bytes s, (directory root tree).save name bytes = .ok s →
    ∃ tree', s = directory root tree' ∧ tree.SameElsewhere (place (join root name)) tree'
  appends : ∀ bytes s, (directory root tree).append name bytes = .ok s →
    ∃ tree', s = directory root tree' ∧ tree.SameElsewhere (place (join root name)) tree'
  deletes : ∀ s, (directory root tree).delete name = .ok s →
    ∃ tree', s = directory root tree' ∧ tree.SameElsewhere (place (join root name)) tree'

/-- No file operation takes a name. -/
structure Rejects (root name : String) (tree : FileTree) (e : FileError) : Prop where
  resolved : resolve root name = .error e
  kind : e.kind = "InvalidInput"
  read : (directory root tree).read name = .error e
  save : ∀ bytes, (directory root tree).save name bytes = .error e
  append : ∀ bytes, (directory root tree).append name bytes = .error e
  delete : (directory root tree).delete name = .error e

theorem levels_ne_nil {name : String} (h : Plain name) : levels (pieces name) ≠ [] := by
  obtain ⟨first, rest, hpieces⟩ := exists_pieces name
  have hempty := (head?_pieces name).not.mpr
    (not_or.mpr ⟨h.nonempty, Bool.eq_false_iff.mp h.relative⟩)
  have hdot := h.first
  rw [hpieces, List.head?_cons, Option.some.injEq] at hempty
  rw [hpieces, List.head?_cons, ne_eq, Option.some.injEq] at hdot
  rw [hpieces, levels, List.filter_cons_of_pos (by simp [hempty, hdot])]
  exact List.cons_ne_nil _ _

/-- A change of the tree at the path that a name stands for. -/
theorem sameElsewhere_of_resolve {root name path : String} {tree : FileTree} {s : Storage}
    (change : String → Except FileError FileTree) (hresolve : resolve root name = .ok path)
    (hchange : ∀ {tree'}, change path = .ok tree' → tree.SameElsewhere (place path) tree')
    (h : (do
      let path ← resolve root name
      return directory root (← change path)) = .ok s) :
    ∃ tree', s = directory root tree' ∧ tree.SameElsewhere (place path) tree' := by
  obtain ⟨_, hpath, h⟩ := Except.bind_eq_ok_iff.mp h
  cases hresolve.symm.trans hpath
  obtain ⟨tree', htree, h⟩ := Except.bind_eq_ok_iff.mp h
  cases h
  exact ⟨tree', rfl, hchange htree⟩

theorem staysBelow_of_plain {name : String} (root : String) (tree : FileTree) (h : Plain name) :
    StaysBelow root name tree := by
  have hresolve := resolve_of_plain root h
  constructor
  case resolved => exact hresolve
  case joined =>
    unfold join
    rw [h.relative, if_neg Bool.false_ne_true]
    split
    · next hroot => exact .inl ⟨rfl, by simpa using hroot⟩
    · exact .inr rfl
  case descends =>
    intro front back hpieces
    refine placeFrom_eq (fun hmem => h.inside ?_) _
    rw [hpieces]
    exact List.mem_append_left _ hmem
  case ends => rw [place_join h, placeFrom_eq h.inside]
  case below => exact levels_ne_nil h
  case reads =>
    intro bytes hread
    obtain ⟨path, hpath, hread⟩ := Except.bind_eq_ok_iff.mp hread
    cases hresolve.symm.trans hpath
    cases htree : tree.read (join root name) with
    | ok bytes' =>
      rw [htree] at hread
      cases hread
      exact FileTree.fileAt?_of_read htree
    | error e =>
      rw [htree] at hread
      cases e <;> cases hread
  case saves =>
    intro bytes s hsave
    exact sameElsewhere_of_resolve (tree.write · bytes) hresolve
      FileTree.sameElsewhere_of_update hsave
  case appends =>
    intro bytes s happend
    exact sameElsewhere_of_resolve (tree.append · bytes) hresolve
      FileTree.sameElsewhere_of_update happend
  case deletes =>
    intro s hdelete
    obtain ⟨path, hpath, hdelete⟩ := Except.bind_eq_ok_iff.mp hdelete
    cases hresolve.symm.trans hpath
    cases htree : tree.remove (join root name) with
    | ok tree' =>
      rw [htree] at hdelete
      cases hdelete
      exact ⟨tree', rfl, FileTree.sameElsewhere_of_remove htree⟩
    | error e =>
      rw [htree] at hdelete
      cases e with
      | notFound =>
        -- deleting what is not there succeeds
        cases hdelete
        exact ⟨tree, rfl, rfl, fun _ _ => rfl⟩
      | _ => cases hdelete

theorem rejects_of_not_plain {name : String} (root : String) (tree : FileTree) (h : ¬ Plain name) :
    Rejects root name tree (.invalidName name) := by
  have hresolve := resolve_of_not_plain root h
  constructor
  case resolved => exact hresolve
  case kind => rfl
  all_goals
    intros
    simp only [read, save, append, delete, hresolve]
    rfl

/-- Names that are not empty, not absolute, do not start with the component `.` and have no
component `..` are accepted, and no others: exactly these have components that are all names. An
accepted one leads down from the directory, and the operations reach what is there and nothing
else. Any other name is refused by all operations, whatever the directory holds. -/
theorem directory_contains (root name : String) (tree : FileTree) :
    ((∃ path, resolve root name = .ok path) ↔ Plain name) ∧
      (Plain name ↔ name ≠ "" ∧ ∀ c ∈ components name, ∃ part, c = .normal part) ∧
      (Plain name → StaysBelow root name tree) ∧
      (¬ Plain name → Rejects root name tree (.invalidName name)) := by
  refine ⟨⟨?_, fun h => ⟨_, resolve_of_plain root h⟩⟩, plain_iff_components name,
    staysBelow_of_plain root tree, rejects_of_not_plain root tree⟩
  rintro ⟨path, hpath⟩
  by_contra h
  cases (resolve_of_not_plain root h).symm.trans hpath

/-- A name with pieces that lead nowhere, and one that leads out of its directory. -/
theorem directory_contains_notes :
    Plain "notes/.//today/" ∧ StaysBelow "data/" "notes/.//today/" {} ∧
      place (join "data/" "notes/.//today/") = ["data", "notes", "today"] ∧
      ¬ Plain "notes/../../today" ∧
      Rejects "data/" "notes/../../today" {} (.invalidName "notes/../../today") := by
  have hplain : Plain "notes/.//today/" := ⟨by decide, by decide, by decide, by decide⟩
  have hup : ¬ Plain "notes/../../today" := fun h => h.inside (by decide)
  have hstays := (directory_contains "data/" "notes/.//today/" {}).2.2.1 hplain
  have hrejects := (directory_contains "data/" "notes/../../today" {}).2.2.2 hup
  exact ⟨hplain, hstays, hstays.ends.trans (by decide), hup, hrejects⟩

end Storage

end TeachingCpu
