import TeachingCpu.Debugger.Session
import TeachingCpu.Proofs.Attempt.Raises
import TeachingCpu.Proofs.Source.Scan
import TeachingCpu.Proofs.Text.Decolored

/-!
# What the debugger shows

Every text of a debugger session is faithful: the control sequences in it are complete, and without
them it is the text that is shown where colours are off (`faithful_banner`, `faithful_errorLine`,
`answer_cases`). Messages repeat words that were typed, so they are plain as far as these are.
-/

namespace TeachingCpu

open Text

namespace Report

/-! ## Reports -/

theorem faithful_finish {text : Display → String} (h : Faithful text) :
    Faithful fun display => finish display (text display) := by
  intro display
  have hminimal : display.uncolored.minimal = display.minimal := rfl
  have hremains : decolored (text display.uncolored) = text display.uncolored :=
    decolored_of_strips (h display).remains
  unfold finish
  dsimp only
  rw [hminimal]
  split
  · rw [decolored_of_faithful h, hremains]
    exact (h display).remains
  · exact h display

theorem plain_name (r : Register) : Plain r.name := by cases r <;> decide

theorem faithful_side : Faithful side := faithful_paint .dimmed (by decide)

theorem faithful_registerRow (cpu : Cpu) (r : Register) {rest : String} (h : Plain rest) :
    Faithful fun display => registerRow display cpu r rest := by
  have hvalue : Plain (toString (cpu.reg r).toNat) := plain_toString _
  have hsigned : Plain (toString (signed (cpu.reg r))) := plain_toString_int _
  unfold registerRow
  exact faithful_side |>.append_plain (by decide) |>.append (faithful_paint .bold (plain_name r))
    |>.append_plain (by decide) |>.append_plain (plain_hex 4 _)
    |>.append_plain (by decide) |>.append_plain (plain_padLeft hvalue 6)
    |>.append_plain (by decide) |>.append_plain (plain_padLeft hsigned 6)
    |>.append_plain h |>.append faithful_side |>.append_plain (by decide)

theorem plain_halvesColumns (cpu : Cpu) (pair : Register) : Plain (halvesColumns cpu pair) := by
  simp only [halvesColumns, plain_append, plain_hex]
  decide

theorem faithful_rule {left right : String} (hleft : Plain left) (hright : Plain right) :
    Faithful fun display => rule display left right := by
  have hline : Plain (String.join (List.replicate 42 "─")) :=
    plain_join fun s hs => (List.eq_of_mem_replicate hs) ▸ by decide
  refine (faithful_paint .dimmed ?_).append_plain (by decide)
  exact plain_append.mpr ⟨plain_append.mpr ⟨hleft, hline⟩, hright⟩

theorem faithful_registerHead : Faithful registerHead :=
  faithful_side |>.append_plain (by decide) |>.append (faithful_paint .italic (by decide))
    |>.append faithful_side |>.append_plain (by decide)

theorem faithful_registers (cpu : Cpu) : Faithful fun display => registers display cpu := by
  refine faithful_minimal (faithful_const (plain_join fun s hs => ?_)) ?_
  · obtain ⟨r, -, rfl⟩ := List.mem_map.mp hs
    simp only [plain_append, plain_name, plain_toString, true_and]
    decide
  · have hpairs := faithful_join fun r (_ : r ∈ Register.pairs) =>
      faithful_registerRow cpu r (plain_halvesColumns cpu r)
    have hdedicated := faithful_join fun r (_ : r ∈ Register.dedicated) =>
      faithful_registerRow cpu r (show Plain "               " by decide)
    exact faithful_rule (by decide) (by decide) |>.append faithful_registerHead
      |>.append hpairs |>.append hdedicated |>.append (faithful_rule (by decide) (by decide))

theorem faithful_flagLetter (flags : Flags) (flag : Flag) :
    Faithful fun display => flagLetter display flags flag := by
  unfold flagLetter
  split
  · exact faithful_paint .bold (by cases flag <;> decide)
  · exact faithful_paint .dimmed (by cases flag <;> decide)

theorem faithful_flags (status : Flags) : Faithful fun display => flags display status := by
  refine faithful_finish ?_
  have hletters := faithful_join fun flag (_ : flag ∈ Flag.all) =>
    faithful_flagLetter status flag
  exact faithful_const (by decide) |>.append hletters |>.append_plain (by decide)
    |>.append_plain (plain_binary 7 _) |>.append_plain (by decide)

theorem dumpChar_ne_escape (b : UInt8) : dumpChar b ≠ '\x1b' := by
  unfold dumpChar
  split
  · next hprintable =>
    refine charOfByte_ne fun hescape => ?_
    have hle : 32 ≤ b.toNat := hprintable.1
    rw [hescape] at hle
    exact absurd hle (by decide)
  · decide

theorem faithful_dumpRow (address : Nat) (bytes : List UInt8) :
    Faithful fun display => dumpRow display address bytes := by
  have hcolumns : Plain (String.intercalate " " (bytes.map fun b => hex 2 b.toNat)) := by
    refine plain_intercalate (by decide) fun column hcolumn => ?_
    obtain ⟨b, -, rfl⟩ := List.mem_map.mp hcolumn
    exact plain_hex 2 _
  have hchars : Plain (String.ofList (bytes.map dumpChar)) := by
    rw [plain_ofList, List.mem_map]
    rintro ⟨b, -, hb⟩
    exact dumpChar_ne_escape b hb
  have haddress : Plain ("0x" ++ hex 4 address) := plain_append.mpr ⟨by decide, plain_hex 4 _⟩
  exact faithful_paint .bold haddress |>.append_plain (by decide)
    |>.append_plain (plain_padRight hcolumns _) |>.append_plain (by decide)
    |>.append (faithful_paint .dimmed hchars) |>.append_plain (by decide)

theorem plain_addressOutside (address : Nat) (last : UInt16) :
    Plain (Error.of (.addressOutside address last)).message := by
  change Plain (Cause.addressOutside address last).message
  unfold Cause.message
  simp only [plain_append, plain_hex]
  decide

theorem rejects_slice {m : Memory} {address length : Nat} :
    Rejects (fun e => Plain e.message) (m.slice address length) := by
  have hcheck : ∀ address, Rejects (fun e => Plain e.message) (m.check address) := by
    intro address
    unfold Memory.check
    split
    · exact rejects_ok _
    · exact rejects_error (plain_addressOutside _ _)
  unfold Memory.slice
  split
  · exact rejects_ok _
  · exact rejects_bind (hcheck _) fun _ => rejects_bind (hcheck _) fun _ => rejects_ok _

/-- A dump is refused whatever the display is, or shown. -/
theorem memory_cases (m : Memory) (address length : Nat) :
    (∃ e, (∀ display, memory display m address length = .error e) ∧ Plain e.message) ∨
      ∃ text, (∀ display, memory display m address length = .ok (text display)) ∧
        Faithful text := by
  unfold memory
  cases hslice : m.slice address length with
  | error e => exact .inl ⟨e, fun _ => rfl, rejects_slice e hslice⟩
  | ok bytes =>
    refine .inr ⟨_, fun _ => rfl, faithful_finish (faithful_join fun k _ => ?_)⟩
    exact faithful_dumpRow _ _

theorem plain_callLine (depth : Nat) (address : UInt16) :
    Plain ("#" ++ padRight 3 (toString depth) ++ " return to 0x" ++ hex 4 address.toNat ++
      "\n") := by
  simp only [plain_append, plain_padRight (plain_toString depth), plain_hex]
  decide

theorem faithful_callStack (cpu : Cpu) : Faithful fun display => callStack display cpu := by
  have hhead : Plain ("sp 0x" ++ hex 4 (cpu.reg .sp).toNat ++ "  segment 0x" ++
      hex 4 (cpu.reg .ss).toNat ++ "..=0x" ++ hex 4 (cpu.reg .se).toNat ++ "\n") := by
    simp only [plain_append, plain_hex]
    decide
  refine faithful_finish ((faithful_const hhead).append ?_)
  split
  · exact (faithful_paint .dimmed (by decide)).append_plain (by decide)
  · refine faithful_const (plain_join fun line hline => ?_)
    obtain ⟨depth, hdepth, rfl⟩ := List.mem_mapIdx.mp hline
    exact plain_callLine depth _

end Report

namespace Debugger

/-! ## Sessions -/

theorem plain_helpText : Plain helpText := by
  delta helpText
  rw [plain_append, plain_append, plain_append, plain_append, plain_append, plain_append,
    plain_append]
  and_intros <;> exact plain_ofList.mpr (by decide)

theorem faithful_banner (cpu : Cpu) : Faithful fun display => banner display cpu := by
  refine (faithful_paint .blue ?_).append_plain (by decide)
  simp only [plain_append, plain_hex]
  decide

theorem faithful_errorLine {message : String} (h : Plain message) :
    Faithful fun display => errorLine display message :=
  (faithful_paint .red h).append_plain (by decide)

namespace Command

theorem rejects_integerArgument {argument value : String} (hargument : Plain argument)
    (hvalue : Plain value) :
    Rejects (fun e : CommandError => Plain e.message) (integerArgument argument value) := by
  have hmessage : Plain (CommandError.malformedInteger argument value).message := by
    unfold CommandError.message
    simp only [plain_append, hargument, hvalue]
    decide
  unfold integerArgument
  split
  · split
    · exact rejects_ok _
    · exact rejects_error hmessage
  · exact rejects_error hmessage

theorem rejects_readMemory {arguments : List String} (h : ∀ a ∈ arguments, Plain a) :
    Rejects (fun e : CommandError => Plain e.message) (readMemory arguments) := by
  match arguments with
  | [] => exact rejects_error (by decide)
  | [address] =>
    refine rejects_bind (rejects_integerArgument (by decide) ?_) fun _ => rejects_ok _
    exact h address List.mem_cons_self
  | address :: length :: rest =>
    obtain ⟨haddress, hlength, -⟩ := by simpa only [List.forall_mem_cons] using h
    refine rejects_bind (rejects_integerArgument (by decide) haddress) fun _ => ?_
    refine rejects_bind (rejects_integerArgument (by decide) hlength) fun _ => ?_
    split
    · exact rejects_ok _
    · exact rejects_error (by decide)

theorem plain_headD {ss : List String} (h : ∀ s ∈ ss, Plain s) : Plain (ss.headD "") := by
  cases ss with
  | nil => decide
  | cons s ss => exact h s List.mem_cons_self

/-- The names of the commands without arguments. -/
theorem plain_names : ∀ entry ∈ plain, ∀ name ∈ entry.1, Plain name := by decide

/-- A message repeats a name or an argument at most. -/
theorem rejects_read {line : String} (h : Plain line) :
    Rejects (fun e : CommandError => Plain e.message) (read line) := by
  have hwords : ∀ word ∈ words line, Plain word := fun word => plain_of_mem_words h
  unfold read
  dsimp only
  split
  · exact rejects_readMemory fun a ha => hwords a (List.mem_of_mem_drop ha)
  · split
    · have hname := plain_lower (plain_headD hwords)
      refine rejects_error ?_
      unfold CommandError.message
      simp only [plain_append, hname]
      decide
    · next names command hfind =>
      split
      · exact rejects_ok _
      · have hname : Plain (names.headD "") :=
          plain_headD (plain_names _ (List.mem_of_find?_eq_some hfind))
        refine rejects_error ?_
        unfold CommandError.message
        simp only [plain_append, hname, plain_toString]
        decide

end Command

/-- A command resumes execution whatever the display is, or it is answered by a text. -/
theorem answer_cases (cpu : Cpu) (command : Command) :
    (∃ resume, ∀ display, answer display cpu command = .inl resume) ∨
      ∃ text, (∀ display, answer display cpu command = .inr (text display)) ∧
        Faithful text := by
  cases command with
  | help => exact .inr ⟨_, fun _ => rfl, faithful_const plain_helpText⟩
  | registers => exact .inr ⟨_, fun _ => rfl, Report.faithful_registers cpu⟩
  | flags => exact .inr ⟨_, fun _ => rfl, Report.faithful_flags cpu.flags⟩
  | memory address length =>
    rcases Report.memory_cases cpu.memory address length with
      ⟨e, hrefused, hmessage⟩ | ⟨text, hshown, htext⟩
    · refine .inr ⟨_, fun display => ?_, faithful_errorLine hmessage⟩
      simp only [answer, hrefused]
    · refine .inr ⟨_, fun display => ?_, htext⟩
      simp only [answer, hshown]
  | stack => exact .inr ⟨_, fun _ => rfl, Report.faithful_callStack cpu⟩
  | step => exact .inl ⟨.step, fun _ => rfl⟩
  | go => exact .inl ⟨.go, fun _ => rfl⟩
  | quit => exact .inl ⟨.quit, fun _ => rfl⟩

end Debugger

end TeachingCpu
