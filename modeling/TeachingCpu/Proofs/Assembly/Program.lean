import TeachingCpu.Proofs.Assembly.Pool
import TeachingCpu.Proofs.Listing.Decode
import TeachingCpu.Proofs.Machine.Load

/-!
# Assembled programs

What a program that `assemble` accepts consists of: a sound draft, a sound pool of literals behind
its data, and instructions that stand for its statements. From there, `tools_accept` shows that
the rest of the tools accept the program: it can be written and read back, listed and loaded.
-/

namespace TeachingCpu

namespace Draft

theorem entry_eq_ok_iff {d : Draft} {offset : Nat} :
    d.entry = .ok offset ↔ d.labels.find? entryLabel = some offset ∧ offset < d.romLength := by
  unfold entry
  cases hfind : d.labels.find? entryLabel with
  | none =>
    apply iff_of_false
    · intro h
      cases h
    · intro hparts
      rcases hparts with ⟨hsome, -⟩
      cases hsome
  | some n =>
    dsimp only
    by_cases hend : d.romLength ≤ n
    · rw [if_pos hend]
      apply iff_of_false
      · intro h
        cases h
      · intro hparts
        rcases hparts with ⟨hsome, hlt⟩
        cases hsome
        omega
    · rw [if_neg hend]
      constructor
      · intro h
        cases h
        exact ⟨rfl, Nat.lt_of_not_le hend⟩
      · intro hparts
        rcases hparts with ⟨hsome, -⟩
        cases hsome
        rfl

theorem encode_eq_ok_iff {d : Draft} {image : Image} {p : StringPool} :
    d.encode = .ok (image, p) ↔
      ∃ offset instructions, d.entry = .ok offset ∧
        d.statementList.mapM d.encodeStatement d.emptyPool = .ok instructions p ∧
        image = ⟨instructions.flatMap Instruction.toBytes, p.memory.image, .bits16,
          offset.toUInt16⟩ := by
  unfold encode
  rw [Except.bind_eq_ok_iff]
  constructor
  · intro hparts
    rcases hparts with ⟨offset, hentry, h⟩
    cases hpass : d.statementList.mapM d.encodeStatement d.emptyPool with
    | error e p' =>
      rw [hpass] at h
      cases h
    | ok instructions p' =>
      rw [hpass] at h
      cases h
      exact ⟨offset, instructions, hentry, rfl, rfl⟩
  · intro hparts
    rcases hparts with ⟨offset, instructions, hentry, hpass, rfl⟩
    refine ⟨offset, hentry, ?_⟩
    rw [hpass]
    rfl

theorem length_eq_of_encodesStatement {d : Draft} {p : StringPool} {s : Statement}
    {i : Instruction} (h : EncodesStatement d p s i) : s.length = i.opcode.length := by
  rw [Statement.length, h.arity, Opcode.length]

theorem complete_of_encodesStatement {d : Draft} {p : StringPool} {s : Statement}
    {i : Instruction} (h : EncodesStatement d p s i) : i.Complete :=
  h.operands.length_eq.symm.trans h.arity

end Draft

/-- A statement and the instruction that stands for it, at its address. -/
structure Listed (d : Draft) (p : StringPool) (s : Statement) (l : ListedInstruction) : Prop where
  offset : l.offset = s.offset.toUInt16
  encodes : d.EncodesStatement p s l.instruction

/-- Instructions stand at the addresses of their statements. -/
theorem forall₂_listed {d : Draft} {p : StringPool} {statements : List Statement}
    {instructions : List Instruction} {start stop : Nat}
    (hencodes : List.Forall₂ (d.EncodesStatement p) statements instructions)
    (hlaidOut : LaidOut start statements stop) :
    List.Forall₂ (Listed d p) statements (Listing.listFrom start instructions) := by
  induction hencodes generalizing start with
  | nil => exact .nil
  | @cons s i statements instructions hfirst _ ih =>
    obtain ⟨hstart, hrest⟩ := hlaidOut
    refine .cons ⟨?_, hfirst⟩ (ih ?_)
    · rw [hstart]
    · rwa [← Draft.length_eq_of_encodesStatement hfirst]

theorem length_rom_of_laidOut {d : Draft} {p : StringPool} {statements : List Statement}
    {instructions : List Instruction} {start stop : Nat}
    (hencodes : List.Forall₂ (d.EncodesStatement p) statements instructions)
    (hlaidOut : LaidOut start statements stop) :
    start + (instructions.flatMap Instruction.toBytes).length = stop := by
  induction hencodes generalizing start with
  | nil => exact hlaidOut
  | @cons s i statements instructions hfirst _ ih =>
    obtain ⟨-, hrest⟩ := hlaidOut
    rw [List.flatMap_cons, List.length_append,
      (Draft.complete_of_encodesStatement hfirst).length_toBytes,
      ← Draft.length_eq_of_encodesStatement hfirst, ← Nat.add_assoc]
    exact ih hrest

/-- What an assembled program consists of. -/
structure Assembled (source : String) (config : Config) (image : Image) (layout : Layout)
    (d : Draft) (p : StringPool) (instructions : List Instruction) : Prop where
  layout_eq : config.layout = .ok layout
  read : Draft.read source config = .ok d
  draft : d.Sound layout
  pass : d.statementList.mapM d.encodeStatement d.emptyPool = .ok instructions p
  pool : p.Sound d
  encodes : List.Forall₂ (d.EncodesStatement p) d.statementList instructions
  entry : d.labels.find? entryLabel = some image.entry.toNat
  entry_lt : image.entry.toNat < d.romLength
  rom : image.rom = instructions.flatMap Instruction.toBytes
  memory : image.memory = p.memory.image
  width : image.width = .bits16

theorem assemble_eq_ok_iff {source : String} {config : Config} {image : Image} :
    assemble source config = .ok image ↔
      ∃ d p, Draft.read source config = .ok d ∧ d.encode = .ok (image, p) := by
  unfold assemble
  simp only [Except.bind_eq_ok_iff]
  constructor
  · intro h
    rcases h with ⟨d, hread, ⟨image', p⟩, hencode, himage⟩
    cases himage
    exact ⟨d, p, hread, hencode⟩
  · intro h
    rcases h with ⟨d, p, hread, hencode⟩
    exact ⟨d, hread, (image, p), hencode, rfl⟩

theorem exists_assembled {source : String} {config : Config} {image : Image}
    (h : assemble source config = .ok image) :
    ∃ layout d p instructions, Assembled source config image layout d p instructions := by
  obtain ⟨d, p, hread, hencode⟩ := assemble_eq_ok_iff.mp h
  obtain ⟨layout, hlayout, hsound⟩ := Draft.sound_of_read hread
  obtain ⟨offset, instructions, hentry, hpass, rfl⟩ := Draft.encode_eq_ok_iff.mp hencode
  obtain ⟨hfind, hlt⟩ := Draft.entry_eq_ok_iff.mp hentry
  obtain ⟨-, hmin, hmax⟩ := Config.size_of_layout hlayout
  have hsize : d.memory.layout.size ≤ 65535 := hsound.layout ▸ hmax
  have hpos : 0 < d.memory.layout.size := by
    rw [hsound.layout]
    omega
  obtain ⟨hpool, hencodes⟩ :=
    Draft.encodes_of_mapM hpos hsize (StringPool.sound_emptyPool hsound) hpass
  have hlength := hsound.code.length
  rw [Draft.maxRomLength] at hlength
  have hoffset : offset.toUInt16.toNat = offset := Nat.toNat_toUInt16_of_le (by omega)
  refine ⟨layout, d, p, instructions, hlayout, hread, hsound, hpass, hpool, hencodes, ?_, ?_, rfl,
    rfl, rfl⟩
  · rw [hfind, hoffset]
  · rwa [hoffset]

namespace Assembled

variable {source : String} {config : Config} {image : Image} {layout : Layout} {d : Draft}
  {p : StringPool} {instructions : List Instruction}
  (h : Assembled source config image layout d p instructions)

include h

theorem complete : ∀ i ∈ instructions, i.Complete := by
  intro i hi
  obtain ⟨s, -, hs⟩ := h.encodes.exists_left hi
  exact Draft.complete_of_encodesStatement hs

theorem length_rom : image.rom.length = d.romLength := by
  have hlength := length_rom_of_laidOut h.encodes h.draft.code.laidOut
  rw [Nat.zero_add] at hlength
  rw [h.rom, hlength]

theorem listed : List.Forall₂ (Listed d p) d.statementList (Listing.listFrom 0 instructions) :=
  forall₂_listed h.encodes h.draft.code.laidOut

theorem wellFormed : image.WellFormed := by
  refine ⟨h.width, ?_, ?_⟩
  · rw [h.rom]
    exact isCode_flatMap_toBytes h.complete
  · rw [h.length_rom]
    exact h.entry_lt

/-- The listing of the program. -/
theorem disassemble_toBytes : disassemble image.toBytes =
    .ok ⟨image, Listing.listFrom 0 instructions⟩ := by
  unfold disassemble
  rw [Image.ofBytes_toBytes_of_wellFormed h.wellFormed]
  change Listing.ofImage image = _
  unfold Listing.ofImage
  rw [h.rom, Listing.decodeRom_flatMap_toBytes h.complete]
  rfl

/-- Labels stand at instructions or behind the last. -/
theorem exists_listed {name : String} {offset : Nat}
    (hfind : d.labels.find? name = some offset) (hlt : offset < d.romLength) :
    ∃ l ∈ Listing.listFrom 0 instructions, l.offset = offset.toUInt16 := by
  rcases h.draft.code.labels name offset hfind with hlast | ⟨s, hs, hoffset⟩
  · omega
  · obtain ⟨l, hl, hlisted⟩ := h.listed.exists_right hs
    exact ⟨l, hl, by rw [hlisted.offset, hoffset]⟩

theorem getD_memory (k : Nat) : image.memory.getD k 0 = p.memory.byteAt k := by
  rw [h.memory, Memory.getD_image]

theorem length_memory_le : image.memory.length ≤ layout.size := by
  have hlength := p.memory.length_image_le
  rw [h.pool.layout, h.draft.layout] at hlength
  rwa [h.memory]

/-- A machine of the configuration takes the program. -/
theorem exists_loaded (console : Console) (storage : Storage) :
    ∃ m m', Machine.build config console storage = .ok m ∧ Machine.load image m = .ok () m' := by
  obtain ⟨m, hbuild, hconfig, hlayout⟩ := Machine.build_eq_ok h.layout_eq console storage
  obtain ⟨-, hmin, hmax⟩ := Config.size_of_layout h.layout_eq
  have hmemory := h.length_memory_le
  have hwidth : image.width = m.config.width := by
    rw [hconfig, h.width]
    obtain ⟨machine, hmachine, -⟩ := Except.bind_eq_ok_iff.mp h.layout_eq
    unfold Config.architecture at hmachine
    cases hwidth : Architecture.ofWidth? config.width with
    | none =>
      rw [hwidth] at hmachine
      cases hmachine
    | some _ =>
      exact (ArchWidth.ofWidth?_eq_some_iff.mp hwidth).1.symm
  obtain ⟨m', hload⟩ : ∃ m', Machine.load image m = .ok () m' := by
    apply Machine.exists_load
    · apply Machine.refusal?_eq_none hwidth
      · rwa [hlayout]
      · rw [h.length_rom]
        exact h.entry_lt
    · rw [hlayout, Layout.lastAddressable_eq hmax]
      omega
  exact ⟨m, m', hbuild, hload⟩

end Assembled

/-- Whatever `assemble` accepts, the other tools accept: the image is read back from its bytes and
listed, its sizes are in bounds, its entry is an instruction, and a machine of the same
configuration loads it, from the image or from the bytes with the same result. -/
theorem tools_accept {source : String} {config : Config} {image : Image}
    (h : assemble source config = .ok image) :
    Image.ofBytes image.toBytes = .ok image ∧
      (∃ l, disassemble image.toBytes = .ok l ∧ l.image = image ∧
        ∃ i ∈ l.instructions, i.offset = image.entry) ∧
      (image.rom ≠ [] ∧ image.rom.length ≤ 65535) ∧
      (image.memory.length ≤ config.memorySize ∧ image.memory.getLast? ≠ some 0) ∧
      ∀ (console : Console) (storage : Storage),
        ∃ m m', Machine.build config console storage = .ok m ∧
          Machine.load image m = .ok () m' ∧
            ∀ read, Image.ofBytes image.toBytes = .ok read → Machine.load read m = .ok () m' := by
  obtain ⟨layout, d, p, instructions, hassembled⟩ := exists_assembled h
  have hread := Image.ofBytes_toBytes_of_wellFormed hassembled.wellFormed
  have hentry := hassembled.entry_lt
  refine ⟨hread, ⟨_, hassembled.disassemble_toBytes, rfl, ?_⟩, ⟨?_, ?_⟩, ⟨?_, ?_⟩, ?_⟩
  · obtain ⟨l, hl, hoffset⟩ := hassembled.exists_listed hassembled.entry hentry
    refine ⟨l, hl, ?_⟩
    rw [hoffset, Nat.toUInt16_eq, UInt16.ofNat_toNat]
  · intro hempty
    have hlength := hassembled.length_rom
    rw [hempty, List.length_nil] at hlength
    omega
  · rw [hassembled.length_rom]
    exact hassembled.draft.code.length
  · rw [← (Config.size_of_layout hassembled.layout_eq).1]
    exact hassembled.length_memory_le
  · rw [hassembled.memory]
    exact p.memory.getLast?_image_ne_zero
  · intro console storage
    obtain ⟨m, m', hbuild, hload⟩ := hassembled.exists_loaded console storage
    refine ⟨m, m', hbuild, hload, fun read hread' => ?_⟩
    rw [hread] at hread'
    cases hread'
    exact hload

theorem tools_accept_variable_and_literal :
    assemble ".DATA\nx 7\nend\n.MAIN\nmov %al @x\nlea %bx \"a\"\njmp .MAIN\nhalt"
        { memorySize := 32 } =
      .ok ⟨[2, 1, 0, 5, 0, 35, 1, 13, 6, 2, 17, 7, 0, 1], [7, 0, 97], .bits16, 0⟩ ∧
    Image.ofBytes [2, 1, 0, 5, 0, 35, 1, 13, 6, 2, 17, 7, 0, 1, 255, 7, 0, 97, 254, 16, 0, 0] =
      .ok ⟨[2, 1, 0, 5, 0, 35, 1, 13, 6, 2, 17, 7, 0, 1], [7, 0, 97], .bits16, 0⟩ := by
  have hassemble : assemble
      ".DATA\nx 7\nend\n.MAIN\nmov %al @x\nlea %bx \"a\"\njmp .MAIN\nhalt"
      { memorySize := 32 } =
        .ok ⟨[2, 1, 0, 5, 0, 35, 1, 13, 6, 2, 17, 7, 0, 1], [7, 0, 97], .bits16, 0⟩ := by
    decide +kernel
  exact ⟨hassemble, (tools_accept hassemble).1⟩

end TeachingCpu
