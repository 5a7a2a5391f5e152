import TeachingCpu.Proofs.Machine.Causes
import TeachingCpu.Proofs.Memory.Strings
import TeachingCpu.Proofs.Service.Frame

/-!
# Services that copy

Two strings are put behind each other, a string is copied, or a stretch of bytes. Each of these
services has read all that it needs before it writes, so it does not matter where the sources lie
and where the copy goes: what arrives is what was there before. `dispatch_copies` says for each of
them when it succeeds and what it leaves then, and that otherwise the address of an access was
outside of memory and everything is left as it was.
-/

namespace TeachingCpu

open Attempt

/-- The string in memory that a register points at. -/
def Bench.HoldsString (b : Bench) (r : Register) (bytes : List UInt8) : Prop :=
  b.cpu.memory.HoldsString (b.cpu.reg r).toNat bytes

theorem Bench.string_eq_ok_iff {b : Bench} {r : Register} {bytes : List UInt8} :
    b.string r = .ok bytes ↔ b.HoldsString r bytes := Memory.readString_eq_ok_iff

namespace Service

open Bench

variable {b b' : Bench}

/-! ## What is promised -/

/-- Bytes were stored at an address. All else of the processor and the files is as it was. -/
structure Stored (b b' : Bench) (address : Nat) (bytes : List UInt8) : Prop where
  inside : b'.cpu.memory.bytesAt address bytes.length = bytes
  outside : ∀ k, k < address ∨ address + bytes.length ≤ k →
    b'.cpu.memory.byteAt k = b.cpu.memory.byteAt k
  cpu : b'.cpu = { b.cpu with memory := b'.cpu.memory }
  layout : b'.cpu.layout = b.cpu.layout
  storage : b'.storage = b.storage

/-- An interrupt fails as an address is outside of memory. Only the console was used. -/
def Refused (b : Bench) : Prop :=
  ∃ e b', dispatch b = .error e b' ∧ e.kind = .invalidMemoryAddress ∧ ConsoleOnly b b'

/-- Where nothing was stored, only the console was used. -/
theorem Stored.consoleOnly {address : Nat} (h : Stored b b' address []) : ConsoleOnly b b' := by
  have hmemory : b'.cpu.memory = b.cpu.memory :=
    Memory.eq_of_byteAt h.layout fun k => h.outside k (Nat.lt_or_ge k address)
  refine ⟨?_, h.storage⟩
  rw [h.cpu, hmemory]

/-- The strings at `di` and `dp` are put behind each other at `bx`. -/
structure JoinsStrings (b : Bench) : Prop where
  stores : ∀ first second, b.HoldsString .di first → b.HoldsString .dp second →
    (b.cpu.reg .bx).toNat + first.length + second.length ≤ b.cpu.layout.lastAddressable.toNat →
    ∃ b', dispatch b = .ok .handled b' ∧
      Stored b b' (b.cpu.reg .bx).toNat (first ++ second ++ [0]) ∧
      b'.cpu.memory.readString (b.cpu.reg .bx).toNat = .ok (first ++ second)
  refuses : (¬ ∃ first second, b.HoldsString .di first ∧ b.HoldsString .dp second ∧
    (b.cpu.reg .bx).toNat + first.length + second.length ≤
      b.cpu.layout.lastAddressable.toNat) → Refused b

/-- The string at `di` is copied to `dp`. -/
structure CopiesString (b : Bench) : Prop where
  stores : ∀ bytes, b.HoldsString .di bytes →
    (b.cpu.reg .dp).toNat + bytes.length ≤ b.cpu.layout.lastAddressable.toNat →
    ∃ b', dispatch b = .ok .handled b' ∧ Stored b b' (b.cpu.reg .dp).toNat (bytes ++ [0]) ∧
      b'.cpu.memory.readString (b.cpu.reg .dp).toNat = .ok bytes
  refuses : (¬ ∃ bytes, b.HoldsString .di bytes ∧
    (b.cpu.reg .dp).toNat + bytes.length ≤ b.cpu.layout.lastAddressable.toNat) → Refused b

/-- The `cx` bytes at `di` are copied to `dp`. If these are none, the addresses do not matter. -/
structure CopiesBytes (b : Bench) : Prop where
  stores : b.cpu.memory.InRange (b.cpu.reg .di).toNat (b.cpu.reg .cx).toNat →
    b.cpu.memory.InRange (b.cpu.reg .dp).toNat (b.cpu.reg .cx).toNat →
    ∃ b', dispatch b = .ok .handled b' ∧ Stored b b' (b.cpu.reg .dp).toNat
      (b.cpu.memory.bytesAt (b.cpu.reg .di).toNat (b.cpu.reg .cx).toNat)
  idles : b.cpu.reg .cx = 0 → ∃ b', dispatch b = .ok .handled b' ∧ ConsoleOnly b b'
  refuses : ¬ (b.cpu.memory.InRange (b.cpu.reg .di).toNat (b.cpu.reg .cx).toNat ∧
    b.cpu.memory.InRange (b.cpu.reg .dp).toNat (b.cpu.reg .cx).toNat) → Refused b

/-! ## Runs that succeed -/

/-- A bench where a stretch of memory was replaced. -/
def replaced (b : Bench) (address : Nat) (bytes : List UInt8) : Bench :=
  { b with cpu := { b.cpu with memory := b.cpu.memory.replace address bytes } }

theorem stored_replaced {address : Nat} {bytes : List UInt8} (console : Console)
    (hrange : b.cpu.memory.InRange address bytes.length)
    (hsize : b.cpu.layout.lastAddressable.toNat < b.cpu.layout.size) :
    Stored b (replaced { b with console } address bytes) address bytes where
  inside := Memory.bytesAt_replace hrange hsize
  outside _ hk := Memory.byteAt_replace_outside hk
  cpu := rfl
  layout := rfl
  storage := rfl

theorem onCpu_writeString {address : Nat} {bytes : List UInt8}
    (hfits : address + bytes.length ≤ b.cpu.layout.lastAddressable.toNat) :
    onCpu (Cpu.writeMemory (·.writeString address bytes)) b =
      .ok () (replaced b address (bytes ++ [0])) :=
  onCpu_writeMemory_eq_ok.mpr ⟨_, Memory.writeString_eq_ok_iff.mpr ⟨hfits, rfl⟩, rfl⟩

theorem stringConcat_eq_ok {first second : List UInt8} (hfirst : b.HoldsString .di first)
    (hsecond : b.HoldsString .dp second)
    (hfits : (b.cpu.reg .bx).toNat + (first ++ second).length ≤
      b.cpu.layout.lastAddressable.toNat) :
    stringConcat b = .ok () (replaced b (b.cpu.reg .bx).toNat (first ++ second ++ [0])) := by
  have hread := stringAt_eq_ok.mpr ⟨string_eq_ok_iff.mpr hfirst, rfl⟩
  have hread' := stringAt_eq_ok.mpr ⟨string_eq_ok_iff.mpr hsecond, rfl⟩
  unfold stringConcat
  rw [bind_of_ok hread, bind_of_ok hread']
  exact bind_eq_ok.mpr ⟨_, b, rfl, onCpu_writeString hfits⟩

theorem stringCopy_eq_ok {bytes : List UInt8} (hbytes : b.HoldsString .di bytes)
    (hfits : (b.cpu.reg .dp).toNat + bytes.length ≤ b.cpu.layout.lastAddressable.toNat) :
    stringCopy b = .ok () (replaced b (b.cpu.reg .dp).toNat (bytes ++ [0])) := by
  have hread := stringAt_eq_ok.mpr ⟨string_eq_ok_iff.mpr hbytes, rfl⟩
  unfold stringCopy
  rw [bind_of_ok hread]
  exact bind_eq_ok.mpr ⟨_, b, rfl, onCpu_writeString hfits⟩

theorem memoryCopy_eq_ok
    (hsource : b.cpu.memory.InRange (b.cpu.reg .di).toNat (b.cpu.reg .cx).toNat)
    (htarget : b.cpu.memory.InRange (b.cpu.reg .dp).toNat (b.cpu.reg .cx).toNat) :
    memoryCopy b = .ok () (replaced b (b.cpu.reg .dp).toNat
      (b.cpu.memory.bytesAt (b.cpu.reg .di).toNat (b.cpu.reg .cx).toNat)) := by
  have hread : onCpu (Cpu.readMemory (·.slice (b.cpu.reg .di).toNat (b.cpu.reg .cx).toNat)) b =
      .ok _ b := onCpu_readMemory_eq_ok.mpr ⟨Memory.slice_eq_ok_iff.mpr ⟨hsource, rfl⟩, rfl⟩
  refine bind_eq_ok.mpr ⟨_, b, rfl, bind_eq_ok.mpr ⟨_, b, rfl, bind_eq_ok.mpr ⟨_, b, rfl, ?_⟩⟩⟩
  rw [bind_of_ok hread]
  refine onCpu_writeMemory_eq_ok.mpr ⟨_, Memory.load_eq_ok_iff.mpr ⟨?_, rfl⟩, rfl⟩
  rwa [Memory.length_bytesAt]

/-- The interrupt that is asked for is served, behind a log line. -/
theorem dispatch_eq_serve {i : Interrupt} (h : interrupt? b = some i) :
    ∃ console, b.console.Logged console ∧ dispatch b = serve i { b with console } := by
  have hreg : Bench.reg .al b = .ok (b.cpu.reg .al) b := rfl
  unfold interrupt? at h
  unfold dispatch
  rw [bind_of_ok hreg]
  simp only [h]
  exact ⟨_, Console.logged_log _ _ _ _, rfl⟩

/-! ## Runs that fail -/

/-- The services that copy. -/
def Copying (i : Interrupt) : Prop := i ∈ [.stringConcat, .stringCopy, .memoryCopy]

/-- A service that copies fails on addresses only. -/
theorem raises_serve_of_copying {i : Interrupt} (h : Copying i) :
    Raises (·.kind = .invalidMemoryAddress) (serve i) := by
  simp only [Copying, List.mem_cons, List.not_mem_nil, or_false] at h
  obtain rfl | rfl | rfl := h
  · exact raises_bind raises_stringConcat fun _ => raises_pure _
  · exact raises_bind raises_stringCopy fun _ => raises_pure _
  · exact raises_bind raises_memoryCopy fun _ => raises_pure _

/-- A service that copies ends as handled, if it ends. -/
theorem eq_handled_of_copying {i : Interrupt} {outcome : Outcome} (h : Copying i)
    (hserve : serve i b = .ok outcome b') : outcome = .handled := by
  simp only [Copying, List.mem_cons, List.not_mem_nil, or_false] at h
  obtain rfl | rfl | rfl := h <;> exact (of_then_outcome hserve).2

theorem refused_of_not_handled {config : Config} (hlayout : config.layout = .ok b.cpu.layout)
    {i : Interrupt} (hi : interrupt? b = some i) (hcopying : Copying i)
    (hnot : ∀ b', ¬ Handled b i b') : Refused b := by
  obtain ⟨console, -, hserve⟩ := dispatch_eq_serve hi
  cases hdispatch : dispatch b with
  | ok outcome b' =>
    obtain rfl : outcome = .handled := eq_handled_of_copying hcopying (hserve ▸ hdispatch)
    obtain ⟨i', hi', hhandled⟩ := handled_dispatch hdispatch
    obtain rfl : i' = i := Option.some.inj (hi'.symm.trans hi)
    exact absurd hhandled (hnot b')
  | error e b' =>
    refine ⟨e, b', hdispatch, ?_, ?_⟩
    · exact raises_serve_of_copying hcopying _ e b' (hserve ▸ hdispatch)
    · exact (leaves_dispatch.error hdispatch).consoleOnly (Config.size_of_layout hlayout).2.2

/-! ## Whole interrupts -/

section Dispatch

variable {config : Config} (hlayout : config.layout = .ok b.cpu.layout)

include hlayout

theorem lastAddressable_lt_of_layout :
    b.cpu.layout.lastAddressable.toNat < b.cpu.layout.size := by
  have hmin := (Config.size_of_layout hlayout).2.1
  exact Layout.lastAddressable_lt (by omega)

/-- A string that was put in place can be read there. -/
theorem stored_string {console : Console} {address : Nat} {bytes : List UInt8}
    (hnonzero : 0 ∉ bytes)
    (hfits : address + bytes.length ≤ b.cpu.layout.lastAddressable.toNat) :
    Stored b (replaced { b with console } address (bytes ++ [0])) address (bytes ++ [0]) ∧
      (replaced { b with console } address (bytes ++ [0])).cpu.memory.readString address =
        .ok bytes := by
  have hsize := lastAddressable_lt_of_layout hlayout
  refine ⟨stored_replaced console ?_ hsize, ?_⟩
  · rw [List.length_append]
    exact Memory.inRange_succ_iff.mpr hfits
  · exact Memory.readString_eq_ok_iff.mpr (Memory.holdsString_replace hnonzero hfits hsize)

theorem joinsStrings_of_interrupt? (hi : interrupt? b = some .stringConcat) : JoinsStrings b := by
  constructor
  · intro first second hfirst hsecond hfits
    rw [Nat.add_assoc, ← List.length_append] at hfits
    have hnonzero : 0 ∉ first ++ second :=
      List.mem_append.not.mpr (not_or.mpr ⟨hfirst.nonzero, hsecond.nonzero⟩)
    obtain ⟨console, -, hserve⟩ := dispatch_eq_serve hi
    have hrun := stringConcat_eq_ok (b := { b with console }) hfirst hsecond hfits
    refine ⟨_, hserve.trans (bind_eq_ok.mpr ⟨(), _, hrun, rfl⟩), ?_⟩
    exact stored_string hlayout hnonzero hfits
  · intro hnone
    refine refused_of_not_handled hlayout hi (by simp [Copying]) fun b' hhandled => hnone ?_
    cases hhandled with
    | @stringConcat first second _ _ hfirst hsecond hwrite =>
      have hfits := (Memory.writeString_eq_ok_iff.mp hwrite).1
      rw [List.length_append, ← Nat.add_assoc] at hfits
      exact ⟨first, second, string_eq_ok_iff.mp hfirst, string_eq_ok_iff.mp hsecond, hfits⟩
    | printed hi => simp at hi

theorem copiesString_of_interrupt? (hi : interrupt? b = some .stringCopy) : CopiesString b := by
  constructor
  · intro bytes hbytes hfits
    obtain ⟨console, -, hserve⟩ := dispatch_eq_serve hi
    have hrun := stringCopy_eq_ok (b := { b with console }) hbytes hfits
    refine ⟨_, hserve.trans (bind_eq_ok.mpr ⟨(), _, hrun, rfl⟩), ?_⟩
    exact stored_string hlayout hbytes.nonzero hfits
  · intro hnone
    refine refused_of_not_handled hlayout hi (by simp [Copying]) fun b' hhandled => hnone ?_
    cases hhandled with
    | @stringCopy bytes _ _ hbytes hwrite =>
      exact ⟨bytes, string_eq_ok_iff.mp hbytes, (Memory.writeString_eq_ok_iff.mp hwrite).1⟩
    | printed hi => simp at hi

theorem copiesBytes_of_interrupt? (hi : interrupt? b = some .memoryCopy) : CopiesBytes b := by
  have hstores : b.cpu.memory.InRange (b.cpu.reg .di).toNat (b.cpu.reg .cx).toNat →
      b.cpu.memory.InRange (b.cpu.reg .dp).toNat (b.cpu.reg .cx).toNat →
      ∃ b', dispatch b = .ok .handled b' ∧ Stored b b' (b.cpu.reg .dp).toNat
        (b.cpu.memory.bytesAt (b.cpu.reg .di).toNat (b.cpu.reg .cx).toNat) := by
    intro hsource htarget
    obtain ⟨console, -, hserve⟩ := dispatch_eq_serve hi
    have hrun := memoryCopy_eq_ok (b := { b with console }) hsource htarget
    refine ⟨_, hserve.trans (bind_eq_ok.mpr ⟨(), _, hrun, rfl⟩), ?_⟩
    refine stored_replaced console ?_ (lastAddressable_lt_of_layout hlayout)
    rwa [Memory.length_bytesAt]
  refine ⟨hstores, fun hzero => ?_, fun hnone => ?_⟩
  · rw [hzero] at hstores
    obtain ⟨b', hdispatch, hstored⟩ := hstores (Memory.inRange_zero _ _) (Memory.inRange_zero _ _)
    exact ⟨b', hdispatch, hstored.consoleOnly⟩
  · refine refused_of_not_handled hlayout hi (by simp [Copying]) fun b' hhandled => hnone ?_
    cases hhandled with
    | memoryCopy hbytes hwrite =>
      obtain ⟨hsource, rfl⟩ := Memory.slice_eq_ok_iff.mp hbytes
      have htarget := (Memory.load_eq_ok_iff.mp hwrite).1
      rw [Memory.length_bytesAt] at htarget
      exact ⟨hsource, htarget⟩
    | printed hi => simp at hi

/-- The services that copy put down what their sources held before, whatever overlaps, on every
machine whose layout a configuration gives. -/
theorem dispatch_copies :
    (interrupt? b = some .stringConcat → JoinsStrings b) ∧
      (interrupt? b = some .stringCopy → CopiesString b) ∧
      (interrupt? b = some .memoryCopy → CopiesBytes b) :=
  ⟨joinsStrings_of_interrupt? hlayout, copiesString_of_interrupt? hlayout,
    copiesBytes_of_interrupt? hlayout⟩

end Dispatch

/-- A processor that puts the string at address 2 and the tail of this string behind each other at
address 1, over both of them. -/
def joinsIntoSources : Bench where
  cpu :=
    { Cpu.powerOn ⟨16, 8, 12⟩ false with
      registers := (((Registers.zeroed.write .al 4).setSlot .di 2).setSlot .dp 3).write .bx 1
      memory := (Memory.zeroed ⟨16, 8, 12⟩).replace 2 [97, 98] }
  console := {}
  storage := .table {}

theorem dispatch_copies_joinsIntoSources :
    ({ memorySize := 16 } : Config).layout = .ok joinsIntoSources.cpu.layout ∧
      joinsIntoSources.HoldsString .di [97, 98] ∧ joinsIntoSources.HoldsString .dp [98] ∧
      ∃ b', dispatch joinsIntoSources = .ok .handled b' ∧
        Stored joinsIntoSources b' 1 [97, 98, 98, 0] := by
  have hlayout : ({ memorySize := 16 } : Config).layout = .ok joinsIntoSources.cpu.layout := rfl
  have hi : interrupt? joinsIntoSources = some .stringConcat := by decide +kernel
  have hfirst : joinsIntoSources.HoldsString .di [97, 98] :=
    ⟨by decide +kernel, by decide +kernel, by decide⟩
  have hsecond : joinsIntoSources.HoldsString .dp [98] :=
    ⟨by decide +kernel, by decide +kernel, by decide⟩
  have hbx : (joinsIntoSources.cpu.reg .bx).toNat = 1 := by decide +kernel
  obtain ⟨b', hdispatch, hstored, -⟩ := ((dispatch_copies hlayout).1 hi).stores _ _ hfirst hsecond
    (by rw [hbx]; decide +kernel)
  rw [hbx] at hstored
  exact ⟨hlayout, hfirst, hsecond, b', hdispatch, hstored⟩

end Service

end TeachingCpu
