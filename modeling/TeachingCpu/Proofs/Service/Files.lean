import TeachingCpu.Proofs.Cpu.Pairs
import TeachingCpu.Proofs.Service.Copies

/-!
# Files over many interrupts

A file interrupt reads a file into memory, or changes one with bytes that memory holds at the time
of the call. Where the files are kept in a table, `ServesFiles` says what becomes of each such
interrupt. Over a run of them, with anything done to processor and console in between, the contents
of a name are those that its own changes give, one after the other (`replays_of_fileRun`).
-/

namespace TeachingCpu

open Attempt

/-! ## Changes of one file -/

/-- A change of a file. -/
inductive FileChange where
  | save (bytes : List UInt8)
  | append (bytes : List UInt8)
  | delete
deriving DecidableEq, Repr

namespace FileChange

/-- The contents of a file behind a change. There are none where there is no file. -/
def apply (contents : Option (List UInt8)) : FileChange → Option (List UInt8)
  | save bytes => some bytes
  | append bytes => some (contents.getD [] ++ bytes)
  | delete => none

/-- The contents of a name behind changes of many files, of which only its own matter. -/
def replay (name : String) (contents : Option (List UInt8))
    (changes : List (String × FileChange)) : Option (List UInt8) :=
  ((changes.filter (·.1 = name)).map Prod.snd).foldl apply contents

theorem replay_append_singleton (name other : String) (contents : Option (List UInt8))
    (changes : List (String × FileChange)) (change : FileChange) :
    replay name contents (changes ++ [(other, change)]) =
      if other = name then apply (replay name contents changes) change
      else replay name contents changes := by
  unfold replay
  rw [List.filter_append, List.map_append, List.foldl_append]
  split
  · next h => simp [h]
  · next h => simp [h]

end FileChange

/-- The table behind a change of the file with a name. -/
def FileTable.changed (files : FileTable) (name : String) : FileChange → FileTable
  | .save bytes => files.save name bytes
  | .append bytes => files.append name bytes
  | .delete => files.delete name

/-- A change reaches the file with that name and no other. -/
theorem FileTable.find?_changed (files : FileTable) (name other : String) (change : FileChange) :
    (files.changed name change).find? other =
      if name = other then change.apply (files.find? other) else files.find? other := by
  by_cases h : name = other
  · subst h
    cases change with
    | save bytes => simp [changed, FileChange.apply]
    | append bytes => simp [changed, FileChange.apply]
    | delete => simp [changed, FileChange.apply, find?_delete]
  · rw [if_neg h]
    cases change with
    | save bytes => exact find?_save_of_ne files (Ne.symm h) bytes
    | append bytes => exact find?_append_of_ne files (Ne.symm h) bytes
    | delete => exact (find?_delete files name other).trans (if_neg (Ne.symm h))

/-- A text whose bytes are a string in memory at `cx`. -/
def Bench.Names (b : Bench) (name : String) : Prop :=
  ∃ bytes, b.HoldsString .cx bytes ∧ name = Text.ofBytes bytes

namespace Service

open Bench

variable {b b' : Bench} {name : String} {files : FileTable}

theorem fileName_eq_ok_iff : fileName b = .ok name ↔ b.Names name := by
  unfold fileName Bench.Names
  simp only [← string_eq_ok_iff]
  cases b.string .cx <;> simp [Except.map, eq_comm]

/-! ## What is promised -/

/-- The change of a file that is asked for. What is saved or appended are the `dp` bytes at `di`. -/
inductive Asks (b : Bench) : String → FileChange → Prop where
  | save {name : String} (hoperation : fileOperation? b = some .save) (hname : b.Names name) :
    Asks b name (.save (b.cpu.memory.bytesAt (b.cpu.reg .di).toNat (b.cpu.reg .dp).toNat))
  | append {name : String} (hoperation : fileOperation? b = some .append) (hname : b.Names name) :
    Asks b name (.append (b.cpu.memory.bytesAt (b.cpu.reg .di).toNat (b.cpu.reg .dp).toNat))
  | delete {name : String} (hoperation : fileOperation? b = some .delete) (hname : b.Names name) :
    Asks b name .delete

/-- File interrupts one after the other, and the changes that those of them made which succeeded.
In between, anything may happen to processor and console. -/
inductive FileRun (b : Bench) : List (String × FileChange) → Bench → Prop where
  | start : FileRun b [] b
  | disturbed {changes : List (String × FileChange)} {c d : Bench} (h : FileRun b changes c)
    (hstorage : d.storage = c.storage) (hlayout : d.cpu.layout = c.cpu.layout) :
    FileRun b changes d
  | failed {changes : List (String × FileChange)} {c d : Bench} {e : Error}
    (h : FileRun b changes c) (hi : interrupt? c = some .file) (hcall : dispatch c = .error e d) :
    FileRun b changes d
  | changed {changes : List (String × FileChange)} {c d : Bench} {outcome : Outcome}
    {name : String} {change : FileChange} (h : FileRun b changes c)
    (hi : interrupt? c = some .file) (hasks : Asks c name change)
    (hcall : dispatch c = .ok outcome d) : FileRun b (changes ++ [(name, change)]) d
  | unchanged {changes : List (String × FileChange)} {c d : Bench} {outcome : Outcome}
    (h : FileRun b changes c) (hi : interrupt? c = some .file)
    (hasks : ∀ name change, ¬ Asks c name change) (hcall : dispatch c = .ok outcome d) :
    FileRun b changes d

/-- What a read reports: a length in `dp`, and in the error flag whether there is no such file.
Beside these, at most memory was changed. -/
structure Reports (b b' : Bench) (length : Nat) (missing : Bool) : Prop where
  dp : (b'.cpu.reg .dp).toNat = length
  error : b'.cpu.flags.get .error = missing
  registers : ∀ r, r ≠ .dp → b'.cpu.reg r = b.cpu.reg r
  flags : ∀ flag, flag ≠ .error → b'.cpu.flags.get flag = b.cpu.flags.get flag
  cpu : b'.cpu =
    { b.cpu with
      memory := b'.cpu.memory
      registers := b'.cpu.registers
      flags := b'.cpu.flags }
  layout : b'.cpu.layout = b.cpu.layout
  storage : b'.storage = b.storage

/-- Memory cannot do what a file interrupt asks for. -/
inductive Impossible (b : Bench) (files : FileTable) : Prop where
  /-- No string ends behind `cx`. -/
  | unnamed {operation : FileOperation} (hoperation : fileOperation? b = some operation)
    (hname : ∀ name, ¬ b.Names name)
  /-- Not all bytes that are to be stored are in memory. -/
  | outside (hoperation : fileOperation? b ∈ [some .save, some .append])
    (hrange : ¬ b.cpu.memory.InRange (b.cpu.reg .di).toNat (b.cpu.reg .dp).toNat)
  /-- A file does not fit into memory. -/
  | unfitting {name : String} {bytes : List UInt8} (hoperation : fileOperation? b = some .read)
    (hname : b.Names name) (hfind : files.find? name = some bytes)
    (hrange : ¬ b.cpu.memory.InRange (b.cpu.reg .di).toNat bytes.length)

/-- How a file interrupt is served. -/
structure ServesFiles (b : Bench) (files : FileTable) : Prop where
  reads : ∀ name bytes, fileOperation? b = some .read → b.Names name →
    files.find? name = some bytes →
    b.cpu.memory.InRange (b.cpu.reg .di).toNat bytes.length →
    ∃ b', dispatch b = .ok .handled b' ∧ Reports b b' bytes.length false ∧
      b'.cpu.memory.bytesAt (b.cpu.reg .di).toNat bytes.length = bytes ∧
      ∀ k, k < (b.cpu.reg .di).toNat ∨ (b.cpu.reg .di).toNat + bytes.length ≤ k →
        b'.cpu.memory.byteAt k = b.cpu.memory.byteAt k
  misses : ∀ name, fileOperation? b = some .read → b.Names name → files.find? name = none →
    ∃ b', dispatch b = .ok .handled b' ∧ Reports b b' 0 true ∧ b'.cpu.memory = b.cpu.memory
  changes : ∀ name change, Asks b name change → ¬ Impossible b files →
    ∃ b', dispatch b = .ok .handled b' ∧ b'.cpu = b.cpu ∧
      b'.storage = .table (files.changed name change)
  refuses : Impossible b files → Refused b

/-! ## One interrupt -/

/-- Runs a file operation on the file with a name. -/
def operate (name : String) : FileOperation → Attempt Bench Unit
  | .read => fileRead name
  | .save => fileWrite name (·.save name ·)
  | .append => fileWrite name (·.append name ·)
  | .delete => fileDelete name

variable {operation : FileOperation}

theorem file_eq (hoperation : fileOperation? b = some operation) :
    file b = (do
      let name := Text.ofBytes (← Bench.stringAt .cx)
      Bench.log .debug topic fun _ => "file " ++ operation.signal ++ " `" ++ name ++ "`"
      operate name operation
      return Outcome.handled) b := by
  have hcode : Bench.reg .bl b = .ok (b.cpu.reg .bl) b := rfl
  unfold fileOperation? at hoperation
  unfold file
  rw [bind_of_ok hcode]
  simp only [hoperation]
  cases operation <;> rfl

/-- Behind log lines, the operation that is asked for runs on the file that is named. -/
theorem dispatch_of_names (hi : interrupt? b = some .file)
    (hoperation : fileOperation? b = some operation) (hname : b.Names name) :
    ∃ console, dispatch b =
      (do operate name operation; return Outcome.handled) { b with console } := by
  obtain ⟨bytes, hbytes, rfl⟩ := hname
  obtain ⟨console, -, hserve⟩ := dispatch_eq_serve hi
  have hstring : stringAt .cx { b with console } = .ok bytes { b with console } :=
    stringAt_eq_ok.mpr ⟨string_eq_ok_iff.mpr hbytes, rfl⟩
  have hfile : file { b with console } = _ := file_eq hoperation
  rw [bind_of_ok hstring] at hfile
  exact ⟨_, hserve.trans hfile⟩

theorem refused_of_unnamed (hi : interrupt? b = some .file)
    (hoperation : fileOperation? b = some operation) (hname : ∀ name, ¬ b.Names name) :
    Refused b := by
  have hrefuses : Refuses (·.kind = .invalidMemoryAddress) (b.string .cx) :=
    Memory.refuses_readStringFrom _ _ _
  obtain ⟨e, hread, he⟩ := hrefuses.exists_error fun bytes hok =>
    hname _ ⟨bytes, string_eq_ok_iff.mp hok, rfl⟩
  obtain ⟨console, -, hserve⟩ := dispatch_eq_serve hi
  have hstring : stringAt .cx { b with console } = .error e { b with console } :=
    onCpu_readMemory_of_error (b := { b with console }) hread
  have hfile : file { b with console } = _ := file_eq hoperation
  rw [bind_of_error hstring] at hfile
  exact ⟨e, _, hserve.trans hfile, he, rfl, rfl⟩

theorem access_of_ok {α : Type} {result : Except FileError α} {a : α} (h : result = .ok a) :
    access name result b = .ok a b := by
  rw [h]
  rfl

/-- A bench where a read has reported. -/
def reported (b : Bench) (memory : Memory) (length : Nat) (missing : Bool) : Bench :=
  { b with cpu := { b.cpu with
    memory
    registers := b.cpu.registers.write .dp length.toUInt16
    flags := b.cpu.flags.set .error missing } }

theorem reports_reported {memory : Memory} {length : Nat} (missing : Bool)
    (hlayout : memory.layout = b.cpu.layout) (hlength : length ≤ 65535) (console : Console) :
    Reports b (reported { b with console } memory length missing) length missing where
  dp := by
    unfold Cpu.reg reported
    rw [Registers.get_write_self]
    exact Nat.toNat_toUInt16_of_le hlength
  error := Flags.get_set_self b.cpu.flags .error missing
  registers r hr := Registers.get_write_of_notMem (List.mem_singleton.not.mpr hr)
  flags flag hflag := Flags.get_set_of_ne _ (Ne.symm hflag) _
  cpu := rfl
  layout := hlayout
  storage := rfl

theorem fileRead_of_found {bytes : List UInt8} (hfind : b.storage.read name = .ok (some bytes))
    (hrange : b.cpu.memory.InRange (b.cpu.reg .di).toNat bytes.length)
    (hlength : bytes.length ≤ 65535) :
    fileRead name b = .ok () (reported b (b.cpu.memory.replace (b.cpu.reg .di).toNat bytes)
      bytes.length false) := by
  have hwrite : onCpu (Cpu.writeMemory (·.load (b.cpu.reg .di).toNat bytes)) b = .ok () _ :=
    onCpu_writeMemory_eq_ok.mpr ⟨_, Memory.load_eq_ok_iff.mpr ⟨hrange, rfl⟩, rfl⟩
  refine bind_eq_ok.mpr ⟨_, b, rfl, bind_eq_ok.mpr ⟨_, b, rfl, ?_⟩⟩
  rw [bind_of_ok (access_of_ok hfind)]
  simp only
  rw [bind_of_ok hwrite, bind_of_ok (onCpu_writeRegister (by decide) hlength)]
  rfl

theorem fileRead_of_missing (hfind : b.storage.read name = .ok none) :
    fileRead name b = .ok () (reported b b.cpu.memory 0 true) := by
  refine bind_eq_ok.mpr ⟨_, b, rfl, bind_eq_ok.mpr ⟨_, b, rfl, ?_⟩⟩
  rw [bind_of_ok (access_of_ok hfind)]
  simp only
  rw [bind_of_ok (onCpu_writeRegister (by decide) (Nat.zero_le _))]
  rfl

theorem fileRead_of_not_inRange {bytes : List UInt8}
    (hfind : b.storage.read name = .ok (some bytes))
    (hrange : ¬ b.cpu.memory.InRange (b.cpu.reg .di).toNat bytes.length) :
    ∃ e, fileRead name b = .error e b ∧ e.kind = .invalidMemoryAddress := by
  have hrefuses : Refuses (·.kind = .invalidMemoryAddress)
      (b.cpu.memory.load (b.cpu.reg .di).toNat bytes) := Memory.refuses_load _ _ _
  obtain ⟨e, hload, he⟩ := hrefuses.exists_error fun _ hok =>
    hrange (Memory.load_eq_ok_iff.mp hok).1
  have hdi : Bench.reg .di b = .ok (b.cpu.reg .di) b := rfl
  refine ⟨e, ?_, he⟩
  unfold fileRead
  rw [bind_of_ok hdi, get_bind_apply, bind_of_ok (access_of_ok hfind)]
  exact bind_of_error (onCpu_writeMemory_of_error hload)

section Write

variable (name) (change : Storage → List UInt8 → Except FileError Storage)

theorem fileWrite_of_inRange {storage : Storage}
    (hrange : b.cpu.memory.InRange (b.cpu.reg .di).toNat (b.cpu.reg .dp).toNat)
    (hchange : change b.storage
      (b.cpu.memory.bytesAt (b.cpu.reg .di).toNat (b.cpu.reg .dp).toNat) = .ok storage) :
    fileWrite name change b = .ok () { b with storage } := by
  have hread : onCpu (Cpu.readMemory (·.slice (b.cpu.reg .di).toNat (b.cpu.reg .dp).toNat)) b =
      .ok _ b := onCpu_readMemory_eq_ok.mpr ⟨Memory.slice_eq_ok_iff.mpr ⟨hrange, rfl⟩, rfl⟩
  refine bind_eq_ok.mpr ⟨_, b, rfl, bind_eq_ok.mpr ⟨_, b, rfl, ?_⟩⟩
  rw [bind_of_ok hread, get_bind_apply, bind_of_ok (access_of_ok hchange)]
  rfl

theorem fileWrite_of_not_inRange
    (hrange : ¬ b.cpu.memory.InRange (b.cpu.reg .di).toNat (b.cpu.reg .dp).toNat) :
    ∃ e, fileWrite name change b = .error e b ∧ e.kind = .invalidMemoryAddress := by
  have hrefuses : Refuses (·.kind = .invalidMemoryAddress)
      (b.cpu.memory.slice (b.cpu.reg .di).toNat (b.cpu.reg .dp).toNat) :=
    Memory.refuses_slice _ _ _
  obtain ⟨e, hslice, he⟩ := hrefuses.exists_error fun _ hok =>
    hrange (Memory.slice_eq_ok_iff.mp hok).1
  have hdi : Bench.reg .di b = .ok (b.cpu.reg .di) b := rfl
  have hdp : Bench.reg .dp b = .ok (b.cpu.reg .dp) b := rfl
  refine ⟨e, ?_, he⟩
  unfold fileWrite
  rw [bind_of_ok hdi, bind_of_ok hdp]
  exact bind_of_error (onCpu_readMemory_of_error hslice)

end Write

theorem fileDelete_of_ok {storage : Storage} (hdelete : b.storage.delete name = .ok storage) :
    fileDelete name b = .ok () { b with storage } := by
  unfold fileDelete
  rw [get_bind_apply, bind_of_ok (access_of_ok hdelete)]
  rfl

theorem read_of_table (hstorage : b.storage = .table files) (name : String) :
    b.storage.read name = .ok (files.find? name) := by
  rw [hstorage]
  rfl

section Table

variable (hi : interrupt? b = some .file) (hstorage : b.storage = .table files)

include hi

/-- An operation that fails where it runs. -/
theorem refused_of_operate (hoperation : fileOperation? b = some operation) (hname : b.Names name)
    (h : ∀ console, ∃ e, operate name operation { b with console } = .error e { b with console } ∧
      e.kind = .invalidMemoryAddress) : Refused b := by
  obtain ⟨console, hdispatch⟩ := dispatch_of_names hi hoperation hname
  obtain ⟨e, hrun, he⟩ := h console
  exact ⟨e, _, hdispatch.trans (bind_of_error hrun), he, rfl, rfl⟩

/-- An operation that changes the files. -/
theorem changes_of_operate {storage : Storage} (hoperation : fileOperation? b = some operation)
    (hname : b.Names name) (h : ∀ console, operate name operation { b with console } =
      .ok () { b with console, storage }) :
    ∃ b', dispatch b = .ok .handled b' ∧ b'.cpu = b.cpu ∧ b'.storage = storage := by
  obtain ⟨console, hdispatch⟩ := dispatch_of_names hi hoperation hname
  exact ⟨_, hdispatch.trans (bind_of_ok (h console)), rfl, rfl⟩

include hstorage

theorem refused_of_impossible (h : Impossible b files) : Refused b := by
  cases h with
  | unnamed hoperation hname => exact refused_of_unnamed hi hoperation hname
  | outside hoperation hrange =>
    simp only [List.mem_cons, List.not_mem_nil, or_false] at hoperation
    by_cases hnamed : ∃ name, b.Names name
    · obtain ⟨name, hname⟩ := hnamed
      rcases hoperation with hoperation | hoperation
      · exact refused_of_operate hi hoperation hname fun console =>
          fileWrite_of_not_inRange (b := { b with console }) name (·.save name ·) hrange
      · exact refused_of_operate hi hoperation hname fun console =>
          fileWrite_of_not_inRange (b := { b with console }) name (·.append name ·) hrange
    · -- the name is read before the bytes are
      rcases hoperation with hoperation | hoperation <;>
        exact refused_of_unnamed hi hoperation (not_exists.mp hnamed)
  | @unfitting name bytes hoperation hname hfind hrange =>
    have hread := (read_of_table hstorage name).trans (congrArg Except.ok hfind)
    exact refused_of_operate hi hoperation hname fun console =>
      fileRead_of_not_inRange (b := { b with console }) hread hrange

theorem changes_of_asks {change : FileChange} (hasks : Asks b name change)
    (hpossible : ¬ Impossible b files) :
    ∃ b', dispatch b = .ok .handled b' ∧ b'.cpu = b.cpu ∧
      b'.storage = .table (files.changed name change) := by
  cases hasks with
  | save hoperation hname =>
    have hrange := not_not.mp fun hrange => hpossible (.outside (by simp [hoperation]) hrange)
    refine changes_of_operate hi hoperation hname fun console => ?_
    exact fileWrite_of_inRange (b := { b with console }) name (·.save name ·) hrange
      (by rw [hstorage]; rfl)
  | append hoperation hname =>
    have hrange := not_not.mp fun hrange => hpossible (.outside (by simp [hoperation]) hrange)
    refine changes_of_operate hi hoperation hname fun console => ?_
    exact fileWrite_of_inRange (b := { b with console }) name (·.append name ·) hrange
      (by rw [hstorage]; rfl)
  | delete hoperation hname =>
    refine changes_of_operate hi hoperation hname fun console => ?_
    exact fileDelete_of_ok (b := { b with console }) (by rw [hstorage]; rfl)

/-- A file interrupt on files in a table, on a machine whose layout a configuration gives. -/
theorem servesFiles_of_interrupt? {config : Config}
    (hlayout : config.layout = .ok b.cpu.layout) : ServesFiles b files where
  reads name bytes hoperation hname hfind hrange := by
    have hlast := lastAddressable_lt_of_layout hlayout
    have hlength : bytes.length ≤ 65535 :=
      hrange.length_le.trans (Nat.le_trans hlast (Config.size_of_layout hlayout).2.2)
    have hread := (read_of_table hstorage name).trans (congrArg Except.ok hfind)
    obtain ⟨console, hdispatch⟩ := dispatch_of_names hi hoperation hname
    have hrun := fileRead_of_found (b := { b with console }) hread hrange hlength
    refine ⟨_, hdispatch.trans (bind_of_ok hrun), ?_, ?_, ?_⟩
    · exact reports_reported false (Memory.layout_replace _ _ _) hlength console
    · exact Memory.bytesAt_replace hrange hlast
    · exact fun k hk => Memory.byteAt_replace_outside hk
  misses name hoperation hname hfind := by
    have hread := (read_of_table hstorage name).trans (congrArg Except.ok hfind)
    obtain ⟨console, hdispatch⟩ := dispatch_of_names hi hoperation hname
    have hrun := fileRead_of_missing (b := { b with console }) hread
    refine ⟨_, hdispatch.trans (bind_of_ok hrun), ?_, rfl⟩
    exact reports_reported (b := b) true rfl (Nat.zero_le _) console
  changes _ _ hasks hpossible := changes_of_asks hi hstorage hasks hpossible
  refuses := refused_of_impossible hi hstorage

end Table

/-! ## Runs -/

theorem layout_of_dispatch_ok {outcome : Outcome} (h : dispatch b = .ok outcome b') :
    b'.cpu.layout = b.cpu.layout := (leaves_dispatch.ok h).keeps.1

/-- An interrupt that asks for no change of the files makes none. -/
theorem storage_of_not_asks {outcome : Outcome} (hi : interrupt? b = some .file)
    (hasks : ∀ name change, ¬ Asks b name change) (h : dispatch b = .ok outcome b') :
    b'.storage = b.storage := by
  cases outcome with
  | handled =>
    obtain ⟨i, hi', hhandled⟩ := handled_dispatch h
    cases hi.symm.trans hi'
    cases hhandled with
    | fileRead => rfl
    | fileMissing => rfl
    | fileSaved hoperation hname =>
      exact absurd (.save hoperation (fileName_eq_ok_iff.mp hname)) (hasks _ _)
    | fileAppended hoperation hname =>
      exact absurd (.append hoperation (fileName_eq_ok_iff.mp hname)) (hasks _ _)
    | fileDeleted hoperation hname =>
      exact absurd (.delete hoperation (fileName_eq_ok_iff.mp hname)) (hasks _ _)
    | printed hi => simp at hi
  | invalid e => exact (reported_of_dispatch h).1.storage
  | debug =>
    obtain ⟨console, -, hserve⟩ := dispatch_eq_serve hi
    exact absurd rfl (outcome_of_file (hserve.symm.trans h))

section Run

variable {config : Config} {changes : List (String × FileChange)}
  (hlayout : config.layout = .ok b.cpu.layout) (hrun : FileRun b changes b')

include hrun in
theorem FileRun.layout : b'.cpu.layout = b.cpu.layout := by
  induction hrun with
  | start => rfl
  | disturbed _ _ hlayout ih => exact hlayout.trans ih
  | failed _ _ hcall ih => exact (leaves_dispatch.error hcall).evolves.keeps.1.trans ih
  | changed _ _ _ hcall ih => exact (layout_of_dispatch_ok hcall).trans ih
  | unchanged _ _ _ hcall ih => exact (layout_of_dispatch_ok hcall).trans ih

include hlayout hrun

/-- Over a run, each name goes through its own changes. -/
theorem FileRun.storage (hstorage : b.storage = .table files) :
    ∃ files', b'.storage = .table files' ∧
      ∀ name, files'.find? name = FileChange.replay name (files.find? name) changes := by
  induction hrun with
  | start => exact ⟨files, hstorage, fun _ => rfl⟩
  | disturbed _ hkept _ ih =>
    obtain ⟨files', hfiles', hfind⟩ := ih
    exact ⟨files', hkept.trans hfiles', hfind⟩
  | failed hrun _ hcall ih =>
    obtain ⟨files', hfiles', hfind⟩ := ih
    have hsize := (Config.size_of_layout (hrun.layout.symm ▸ hlayout)).2.2
    exact ⟨files', ((leaves_dispatch.error hcall).consoleOnly hsize).storage.trans hfiles', hfind⟩
  | @changed changes c d outcome name change hrun hi hasks hcall ih =>
    obtain ⟨files', hfiles', hfind⟩ := ih
    have hserves := servesFiles_of_interrupt? hi hfiles' (hrun.layout.symm ▸ hlayout)
    -- the call succeeded, so it is none of those that are refused
    have hpossible : ¬ Impossible c files' := by
      intro himpossible
      obtain ⟨e, d', herror, -⟩ := hserves.refuses himpossible
      cases hcall.symm.trans herror
    obtain ⟨d', hhandled, -, hstored⟩ := hserves.changes name change hasks hpossible
    cases hcall.symm.trans hhandled
    refine ⟨_, hstored, fun other => ?_⟩
    rw [FileTable.find?_changed, FileChange.replay_append_singleton, hfind]
  | unchanged _ hi hasks hcall ih =>
    obtain ⟨files', hfiles', hfind⟩ := ih
    exact ⟨files', (storage_of_not_asks hi hasks hcall).trans hfiles', hfind⟩

/-- At every point of a run of file interrupts on a machine whose layout a configuration gives, the
contents of each name are those that the changes of this name give which succeeded. The next such
interrupt finds these contents. -/
theorem replays_of_fileRun (hstorage : b.storage = .table files) :
    ∃ files', b'.storage = .table files' ∧
      (∀ name, files'.find? name = FileChange.replay name (files.find? name) changes) ∧
      (interrupt? b' = some .file → ServesFiles b' files') := by
  obtain ⟨files', hfiles', hfind⟩ := hrun.storage hlayout hstorage
  refine ⟨files', hfiles', hfind, fun hi => ?_⟩
  exact servesFiles_of_interrupt? hi hfiles' (hrun.layout.symm ▸ hlayout)

end Run

/-- A processor that asks for an operation on the file `a`, with the bytes `hi` or room for them at
address 4. -/
def filing (operation : UInt16) (files : FileTable) : Bench where
  cpu :=
    { Cpu.powerOn ⟨16, 8, 12⟩ false with
      registers :=
        ((((Registers.zeroed.write .al 7).write .bl operation).write .cx 1).setSlot .di 4).setSlot
          .dp 2
      memory := (Memory.zeroed ⟨16, 8, 12⟩).replace 1 [97, 0, 0, 104, 105] }
  console := {}
  storage := .table files

theorem replays_of_fileRun_filing :
    ∃ b', FileRun (filing 1 {}) [("a", .save [104, 105]), ("a", .append [104, 105])] b' ∧
      ∃ files, b'.storage = .table files ∧ files.find? "a" = some [104, 105, 104, 105] ∧
        files.find? "b" = none := by
  have hsaved : dispatch (filing 1 {}) = .ok .handled _ := eq_ok_of_outcome (by decide +kernel)
  have happended : dispatch (filing 2 ⟨[("a", [104, 105])]⟩) = .ok .handled _ :=
    eq_ok_of_outcome (by decide +kernel)
  have hsave : Asks (filing 1 {}) "a" (.save [104, 105]) :=
    .save (by decide +kernel)
      ⟨[97], ⟨by decide +kernel, by decide +kernel, by decide⟩, by decide⟩
  have happend : Asks (filing 2 ⟨[("a", [104, 105])]⟩) "a" (.append [104, 105]) :=
    .append (by decide +kernel)
      ⟨[97], ⟨by decide +kernel, by decide +kernel, by decide⟩, by decide⟩
  have hfirst : FileRun (filing 1 {}) ([] ++ [("a", .save [104, 105])]) _ :=
    .changed .start (by decide +kernel) hsave hsaved
  have hbetween : FileRun (filing 1 {}) ([] ++ [("a", .save [104, 105])])
      (filing 2 ⟨[("a", [104, 105])]⟩) :=
    .disturbed hfirst (by decide +kernel) (by decide +kernel)
  have hrun : FileRun (filing 1 {}) [("a", .save [104, 105]), ("a", .append [104, 105])]
      (dispatch.finalState (filing 2 ⟨[("a", [104, 105])]⟩)) :=
    .changed hbetween (by decide +kernel) happend happended
  have hlayout : ({ memorySize := 16 } : Config).layout = .ok (filing 1 {}).cpu.layout := rfl
  obtain ⟨files, hfiles, hfind, -⟩ := replays_of_fileRun hlayout hrun rfl
  exact ⟨_, hrun, files, hfiles, (hfind "a").trans (by decide), (hfind "b").trans (by decide)⟩

end Service

end TeachingCpu
