import TeachingCpu.Proofs.Machine.Presentation

/-!
# The past of a machine

Loading a program leaves nothing of what a machine did before (`load_erases_history`). The past
that remains is what was shown on the console and seen by the observer, and no call makes a
difference between two machines that differ in it alone (`serveAll_withPast`).
-/

namespace TeachingCpu

open Attempt

/-- A console with more in its journal, earlier than all that is there. -/
def Console.withPast (past : List ConsoleEntry) (c : Console) : Console :=
  { c with journal := c.journal ++ past }

/-- A bench with more in the journal of its console. -/
def Bench.withPast (past : List ConsoleEntry) (b : Bench) : Bench :=
  { b with console := b.console.withPast past }

namespace Machine

/-! ## Machines with a longer past -/

/-- What was shown and seen before. There is no observer if nothing could be seen. -/
structure Past where
  journal : List ConsoleEntry
  observed : Option (List UInt16)

/-- A machine with a past before its own. -/
def withPast (past : Past) (m : Machine) : Machine :=
  { m with
    bench := m.bench.withPast past.journal
    observed := past.observed.bind fun seen => m.observed.map (· ++ seen) }

/-- The same display for both, and a past on one side. -/
def Past.presentation (past : Past) : Presentation where
  faithful := False
  displays := Eq
  journals journal journal' := journal' = journal ++ past.journal
  observers seen seen' := seen' = past.observed.bind fun before => seen.map (· ++ before)
  enter entry _ hdisplays hjournals := by
    rw [hdisplays, hjournals]
    rfl
  see {seen _} pc hobservers := by
    rw [hobservers]
    cases past.observed <;> cases seen <;> rfl

theorem alike_withPast (past : Past) (m : Machine) :
    m.Alike past.presentation (m.withPast past) :=
  .intro (.intro (.intro rfl rfl False.elim)) rfl

theorem eq_withPast_of_alike {past : Past} {m m' : Machine} (h : m.Alike past.presentation m') :
    m' = m.withPast past := by
  obtain ⟨⟨⟨hdisplay, hjournal, -⟩⟩, hobserved⟩ := h
  cases hdisplay
  cases hjournal
  cases hobserved
  rfl

/-- Calls do the same on a machine with a longer past, and leave the past as it is. -/
theorem serveAll_withPast (past : Past) (calls : List Call) (m : Machine) :
    (m.withPast past).serveAll calls =
      (m.serveAll calls).map fun (replies, m') => (replies, m'.withPast past) := by
  have hserved := rel_serveAll not_false calls (alike_withPast past m)
  generalize m.serveAll calls = served at hserved ⊢
  generalize (m.withPast past).serveAll calls = served' at hserved ⊢
  cases hserved with
  | none => rfl
  | some hsame => exact congrArg some (Prod.ext hsame.1.symm (eq_withPast_of_alike hsame.2))

/-! ## Machines that differ in their past -/

/-- All of a machine but its surroundings: the console, the files and the observer. -/
structure Engine where
  config : Config
  cpu : Cpu
  rom : Array UInt8
  status : Status
  output : List String
  statusCode : Nat
  cycles : Nat
  instructions : Nat
  current : UInt16
  breakPending : Bool
  debugged : Bool

/-- The engine of a machine. -/
def engine (m : Machine) : Engine where
  config := m.config
  cpu := m.cpu
  rom := m.rom
  status := m.status
  output := m.output
  statusCode := m.statusCode
  cycles := m.cycles
  instructions := m.instructions
  current := m.current
  breakPending := m.breakPending
  debugged := m.debugged

/-- All of the console but what it has shown. -/
def script (m : Machine) : Console := { m.bench.console with journal := [] }

/-- What a machine has shown, and what its observer has seen. -/
def past (m : Machine) : Past := ⟨m.bench.console.journal, m.observed⟩

/-- The machine that is going to show and to be seen the same. -/
def withoutPast (m : Machine) : Machine :=
  { m with bench := { m.bench with console := m.script }, observed := some [] }

theorem withPast_withoutPast (m : Machine) : m.withoutPast.withPast m.past = m := by
  have hobserved : (m.observed.bind fun seen => some ([] ++ seen)) = m.observed := by
    cases m.observed <;> rfl
  exact congrArg (fun observed => { m with observed }) hobserved

theorem withoutPast_congr {m n : Machine} (hengine : m.engine = n.engine)
    (hscript : m.script = n.script) (hstorage : m.bench.storage = n.bench.storage) :
    m.withoutPast = n.withoutPast := by
  have hmachine : ∀ m : Machine, m.withoutPast =
      { config := m.engine.config
        bench := ⟨m.engine.cpu, m.script, m.bench.storage⟩
        rom := m.engine.rom
        status := m.engine.status
        output := m.engine.output
        statusCode := m.engine.statusCode
        cycles := m.engine.cycles
        instructions := m.engine.instructions
        current := m.engine.current
        breakPending := m.engine.breakPending
        debugged := m.engine.debugged
        observed := some [] } := fun _ => rfl
  rw [hmachine m, hmachine n, hengine, hscript, hstorage]

/-- Calls do not end on either of two machines. Or they give the same replies on both, show the
same, let the observers see the same, and leave the same engine, the same lines to read and the
same files. -/
def AgreeOn (m n : Machine) (calls : List Call) : Prop :=
  (m.serveAll calls = none ∧ n.serveAll calls = none) ∨
    ∃ replies m' n' shown seen,
      m.serveAll calls = some (replies, m') ∧ n.serveAll calls = some (replies, n') ∧
      m'.engine = n'.engine ∧ m'.script = n'.script ∧ m'.bench.storage = n'.bench.storage ∧
      m'.bench.console.journal = shown ++ m.bench.console.journal ∧
      n'.bench.console.journal = shown ++ n.bench.console.journal ∧
      m'.observed = m.observed.map (seen ++ ·) ∧ n'.observed = n.observed.map (seen ++ ·)

/-- Calls leave an observer in its place. -/
theorem kept_serveAll {calls : List Call} {m m' : Machine} {replies : List Reply}
    (hsize : m.cpu.layout.size ≤ 65535) (h : m.serveAll calls = some (replies, m')) :
    Kept m m' := by
  induction calls generalizing m replies with
  | nil =>
    cases h
    exact refl_of Kept _
  | cons call calls ih =>
    unfold serveAll at h
    cases hserve : m.serve call with
    | none =>
      rw [hserve] at h
      cases h
    | some served =>
      obtain ⟨reply, m₁⟩ := served
      rw [hserve] at h
      obtain ⟨⟨replies', m₂⟩, hrest, heq⟩ := Option.map_eq_some_iff.mp h
      cases heq
      have hkept := (served_of_serve hsize hserve).kept
      have hsize₁ : m₁.cpu.layout.size ≤ 65535 := hkept.cpu.keeps.1 ▸ hsize
      exact trans_of Kept hkept (ih hsize₁ hrest)

/-- Machines that differ in their past alone agree on all calls. -/
theorem agreeOn {m n : Machine} (hsize : m.cpu.layout.size ≤ 65535)
    (hengine : m.engine = n.engine) (hscript : m.script = n.script)
    (hstorage : m.bench.storage = n.bench.storage) (calls : List Call) : AgreeOn m n calls := by
  have hm := serveAll_withPast m.past calls m.withoutPast
  have hn := serveAll_withPast n.past calls n.withoutPast
  rw [withPast_withoutPast] at hm hn
  rw [← withoutPast_congr hengine hscript hstorage] at hn
  cases hbase : m.withoutPast.serveAll calls with
  | none =>
    rw [hbase] at hm hn
    exact .inl ⟨hm, hn⟩
  | some served =>
    obtain ⟨replies, b⟩ := served
    rw [hbase] at hm hn
    have hsome : b.observed.isSome := (kept_serveAll (m := m.withoutPast) hsize hbase).isObserved
    obtain ⟨seen, hseen⟩ := Option.isSome_iff_exists.mp hsome
    have hobserved : ∀ past : Past,
        (b.withPast past).observed = past.observed.map (seen ++ ·) := by
      intro past
      change (past.observed.bind fun old => b.observed.map (· ++ old)) = _
      rw [hseen]
      cases past.observed <;> rfl
    exact .inr ⟨replies, b.withPast m.past, b.withPast n.past, b.bench.console.journal, seen,
      hm, hn, rfl, rfl, rfl, rfl, rfl, hobserved m.past, hobserved n.past⟩

/-! ## Loading and resetting -/

section

variable {config : Config} {m n : Machine}

theorem refusal?_congr (hm : BuiltFrom config m) (hn : BuiltFrom config n) (image : Image) :
    m.refusal? image = n.refusal? image := by
  have hlayout : m.cpu.layout = n.cpu.layout := Except.ok.inj (hm.layout.symm.trans hn.layout)
  unfold refusal?
  rw [hm.config, hn.config, hlayout]

theorem engine_loaded (hm : BuiltFrom config m) (image : Image) :
    (m.loaded image).engine =
      { config
        cpu := Cpu.setPc (Cpu.initStack { Cpu.powerOn m.cpu.layout config.allowPcWrite with
          memory := (Memory.zeroed m.cpu.layout).replace 0 image.memory }) image.entry
        rom := image.rom.toArray
        status := .loaded
        output := []
        statusCode := 0
        cycles := 0
        instructions := 0
        current := 0
        breakPending := false
        debugged := false } := by
  rw [← hm.allowPcWrite, ← hm.config]
  rfl

/-- A machine that is reset is one that was just built, on the same console and files and under
the same observer. -/
theorem reset_eq (hm : BuiltFrom config m) :
    ∃ fresh, build config m.bench.console m.bench.storage = .ok fresh ∧
      m.reset = { fresh with
        bench := { fresh.bench with console := m.bench.console }
        observed := m.observed } := by
  refine ⟨_, build_eq_ok_iff.mpr ⟨_, hm.layout, rfl⟩, ?_⟩
  unfold fresh
  rw [← hm.allowPcWrite]
  exact congrArg (fun config => { m.reset with config }) hm.config

/-- Loading a program leaves nothing of the calls before. On two machines from one configuration it
fails with the same error and changes neither of them, or it gives both the same engine, and then
they agree on all calls if the same is typed and their files are the same. A reset leads back to a
machine that was just built. -/
theorem load_erases_history (hm : Reachable config m) (hn : Reachable config n) (image : Image) :
    ((∃ e, load image m = .error e m ∧ load image n = .error e n) ∨
      ∃ m' n', load image m = .ok () m' ∧ load image n = .ok () n' ∧ m'.engine = n'.engine ∧
        (m'.script = n'.script → m'.bench.storage = n'.bench.storage →
          ∀ calls, AgreeOn m' n' calls)) ∧
      ∃ fresh, build config m.bench.console m.bench.storage = .ok fresh ∧
        m.reset = { fresh with
          bench := { fresh.bench with console := m.bench.console }
          observed := m.observed } := by
  have hbuilt := hm.builtFrom
  have hbuilt' := hn.builtFrom
  refine ⟨?_, reset_eq hbuilt⟩
  rw [load_eq hbuilt.size_le, load_eq hbuilt'.size_le, ← refusal?_congr hbuilt hbuilt']
  cases m.refusal? image with
  | some cause => exact .inl ⟨.of cause, rfl, rfl⟩
  | none =>
    have hlayout : m.cpu.layout = n.cpu.layout :=
      Except.ok.inj (hbuilt.layout.symm.trans hbuilt'.layout)
    have hengine : (m.loaded image).engine = (n.loaded image).engine := by
      rw [engine_loaded hbuilt, engine_loaded hbuilt', hlayout]
    refine .inr ⟨m.loaded image, n.loaded image, rfl, rfl, hengine, ?_⟩
    intro hscript hstorage calls
    exact agreeOn (hbuilt.of_kept (kept_loaded m image)).size_le hengine hscript hstorage calls

end

/-- A program that writes `al` and stops: `mov %al $3`, `halt`. -/
def writesAndHalts : Image where
  rom := [0x02, 0x01, 0x00, 0x04, 0x03, 0x01]
  memory := []
  width := .bits16
  entry := 0

/-- A machine that has run it. -/
def behindHalt : Machine := (runFor 2).finalState ((load writesAndHalts).finalState smallest)

theorem reachable_behindHalt : Reachable smallest.config behindHalt := by
  have hload : serve smallest (.load writesAndHalts) =
      some (.ok .done, (load writesAndHalts).finalState smallest) := rfl
  have hrun : serve ((load writesAndHalts).finalState smallest) (.runFor 2) =
      some (.ok (.status .halted), behindHalt) := rfl
  exact .serve (.serve reachable_smallest hload) hrun

/-- A new machine and one that has stopped, with a program loaded on both. -/
theorem load_erases_halt :
    Reachable smallest.config smallest ∧ Reachable smallest.config behindHalt ∧
      behindHalt.status = .halted ∧
      ∃ m n, load writesAndHalts smallest = .ok () m ∧ load writesAndHalts behindHalt = .ok () n ∧
        m.engine = n.engine ∧ AgreeOn m n [.runFor 2, .reset, .run] := by
  refine ⟨reachable_smallest, reachable_behindHalt, by decide +kernel, ?_⟩
  obtain ⟨⟨e, hrefused, -⟩ | ⟨m, n, hm, hn, hengine, hagree⟩, -⟩ :=
    load_erases_history reachable_smallest reachable_behindHalt writesAndHalts
  · rw [load_eq (by decide)] at hrefused
    cases hrefused
  · have hscript : m.script = n.script := by
      rw [← finalState_of_ok hm, ← finalState_of_ok hn]
      decide +kernel
    have hstorage : m.bench.storage = n.bench.storage := by
      rw [← finalState_of_ok hm, ← finalState_of_ok hn]
      decide +kernel
    exact ⟨m, n, hm, hn, hengine, hagree hscript hstorage _⟩

end Machine

end TeachingCpu
