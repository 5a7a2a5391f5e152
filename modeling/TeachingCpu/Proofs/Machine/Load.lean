import TeachingCpu.Proofs.Cpu.Evolution

/-!
# Loading programs

A machine can be built from every configuration that has a layout. It takes every program of its
architecture whose memory fits in and whose entry lies in its code, and refuses every other one
before anything is changed (`load_eq`).
-/

namespace TeachingCpu

/-- The memory that a program starts with: that of its image, and zeros behind it. -/
def Image.initialMemory (image : Image) (size : Nat) : List UInt8 :=
  image.memory ++ List.replicate (size - image.memory.length) 0

namespace Machine

/-- A machine that was just built. -/
def fresh (config : Config) (layout : Layout) (console : Console) (storage : Storage) : Machine :=
  Machine.log { config, bench := ⟨.powerOn layout config.allowPcWrite, console, storage⟩ } .debug
    fun _ =>
      "machine: " ++ toString layout.size ++ " bytes, data at 0x" ++
        Text.hex 4 layout.dataStart.toNat ++ ", stack at 0x" ++
        Text.hex 4 layout.stackStart.toNat ++ ", " ++ config.width.text

theorem build_eq_ok_iff {config : Config} {console : Console} {storage : Storage} {m : Machine} :
    build config console storage = .ok m ↔
      ∃ layout, config.layout = .ok layout ∧ m = fresh config layout console storage := by
  unfold build
  rw [Except.bind_eq_ok_iff]
  refine exists_congr fun layout => and_congr_right fun _ => ?_
  exact ⟨fun h => (Except.ok.inj h).symm, fun h => congrArg Except.ok h.symm⟩

theorem build_eq_ok {config : Config} {layout : Layout} (h : config.layout = .ok layout)
    (console : Console) (storage : Storage) :
    ∃ m, build config console storage = .ok m ∧ m.config = config ∧ m.cpu.layout = layout :=
  ⟨_, build_eq_ok_iff.mpr ⟨layout, h, rfl⟩, rfl, rfl⟩

theorem refusal?_eq_none {m : Machine} {image : Image} (hwidth : image.width = m.config.width)
    (hmemory : image.memory.length ≤ m.cpu.layout.size)
    (hentry : image.entry.toNat < image.rom.length) : m.refusal? image = none := by
  unfold refusal?
  rw [if_neg (not_not.mpr hwidth), if_neg (Nat.not_lt_of_le hmemory),
    if_neg (Nat.not_le_of_lt hentry)]

theorem length_le_of_refusal? {m : Machine} {image : Image} (h : m.refusal? image = none) :
    image.memory.length ≤ m.cpu.layout.size := by
  unfold refusal? at h
  split at h
  · cases h
  · split at h
    · cases h
    · next hsize => exact Nat.le_of_not_lt hsize

/-- A machine behind the loading of a program. -/
def loaded (m : Machine) (image : Image) : Machine :=
  let cpu := { m.cpu.reset with memory := m.cpu.memory.clear.replace 0 image.memory }
  { m.reset with
    bench := { m.bench with cpu := cpu.initStack.setPc image.entry }
    rom := image.rom.toArray
    status := .loaded }.log .debug fun _ =>
      "loaded " ++ toString image.rom.length ++ " ROM bytes and " ++
        toString image.memory.length ++ " memory bytes, entry 0x" ++
        Text.hex 4 image.entry.toNat

theorem load_of_not_refused {m : Machine} {image : Image} (hrefusal : m.refusal? image = none)
    (hmemory : image.memory.length ≤ m.cpu.layout.lastAddressable.toNat + 1) :
    load image m = .ok () (m.loaded image) := by
  have hload : m.cpu.memory.clear.load 0 image.memory =
      .ok (m.cpu.memory.clear.replace 0 image.memory) := by
    apply Memory.load_eq_replace
    rw [Nat.zero_add]
    exact hmemory
  have hwrite : onCpu (Cpu.writeMemory (·.load 0 image.memory)) m.reset =
      .ok () { m.reset with bench := { m.reset.bench with
        cpu := { m.cpu.reset with memory := m.cpu.memory.clear.replace 0 image.memory } } } := by
    refine Attempt.onPart_of_ok (Attempt.onPart_of_ok ?_)
    exact Cpu.writeMemory_eq_ok_iff.mpr ⟨_, hload, rfl⟩
  unfold load
  rw [Attempt.get_bind_apply]
  simp only [hrefusal, Attempt.modify_bind_apply]
  rw [Attempt.bind_of_ok hwrite]
  rfl

/-- A program is refused before anything is changed, or it is loaded. -/
theorem load_eq {m : Machine} (hsize : m.cpu.layout.size ≤ 65535) (image : Image) :
    load image m =
      match m.refusal? image with
      | some cause => .error (.of cause) m
      | none => .ok () (m.loaded image) := by
  cases hrefusal : m.refusal? image with
  | some cause =>
    unfold load
    rw [Attempt.get_bind_apply]
    simp only [hrefusal]
    rfl
  | none =>
    have hlength := length_le_of_refusal? hrefusal
    refine load_of_not_refused hrefusal ?_
    rw [Layout.lastAddressable_eq hsize]
    omega

theorem eq_loaded_of_load {m m' : Machine} {image : Image} (hsize : m.cpu.layout.size ≤ 65535)
    (h : load image m = .ok () m') : m' = m.loaded image := by
  rw [load_eq hsize] at h
  cases hrefusal : m.refusal? image with
  | some cause =>
    rw [hrefusal] at h
    cases h
  | none =>
    rw [hrefusal] at h
    cases h
    rfl

theorem exists_load {m : Machine} {image : Image} (hrefusal : m.refusal? image = none)
    (hmemory : image.memory.length ≤ m.cpu.layout.lastAddressable.toNat + 1) :
    ∃ m', load image m = .ok () m' :=
  ⟨_, load_of_not_refused hrefusal hmemory⟩

/-- A program that is loaded is written to memory, then the registers are set. -/
theorem exists_of_load {m m' : Machine} {image : Image} (h : load image m = .ok () m') :
    m.refusal? image = none ∧ ∃ m₁ m₂,
      onCpu (Cpu.writeMemory (·.load 0 image.memory)) m.reset = .ok () m₁ ∧
      onCpu (modify fun cpu => cpu.initStack.setPc image.entry) m₁ = .ok () m₂ ∧
      m'.breakPending = m₂.breakPending ∧ m'.cpu = m₂.cpu := by
  unfold load at h
  rw [Attempt.get_bind_apply] at h
  cases hrefusal : m.refusal? image with
  | some cause =>
    rw [hrefusal] at h
    cases h
  | none =>
    simp only [hrefusal, Attempt.modify_bind_apply] at h
    obtain ⟨_, m₁, hwrite, h⟩ := Attempt.bind_eq_ok.mp h
    obtain ⟨_, m₂, hstack, h⟩ := Attempt.bind_eq_ok.mp h
    cases h
    exact ⟨rfl, m₁, m₂, hwrite, hstack, rfl, rfl⟩

end Machine

end TeachingCpu
