import TeachingCpu.Debugger.Command
import TeachingCpu.Proofs.Attempt

/-!
# The grammar of debugger commands

A command line is read word by word. It is a command exactly if its words denote one (`Denotes`),
and for every other line there is one error that says what is wrong with its words (`Misread`).
-/

namespace TeachingCpu.Debugger

/-- The names of the commands without arguments. The first is the one that messages use. -/
def names : Command → List String
  | .help => ["help", "h"]
  | .registers => ["registers", "r"]
  | .flags => ["flags", "f"]
  | .memory .. => []
  | .stack => ["stack"]
  | .step => ["step", "s"]
  | .go => ["go", "g", "continue", "c"]
  | .quit => ["quit", "q"]

/-- A word is a name, in any letter case. -/
def IsNamed (word : String) (names : List String) : Prop := Text.lower word ∈ names

/-- A word is a number that an argument can be. -/
def Numbers (word : String) (n : Nat) : Prop := Text.readInteger? word = some n ∧ n ≤ 65535

/-- The words of a command. -/
inductive Denotes : List String → Command → Prop where
  | plain {word : String} {command : Command} (h : IsNamed word (names command)) :
    Denotes [word] command
  | memory {word address : String} {a : Nat} (h : IsNamed word ["memory", "m"])
    (ha : Numbers address a) : Denotes [word, address] (.memory a 64)
  | memoryLength {word address length : String} {a n : Nat} (h : IsNamed word ["memory", "m"])
    (ha : Numbers address a) (hn : Numbers length n) :
    Denotes [word, address, length] (.memory a n)

/-- What is wrong with the words of a line that is no command. -/
inductive Misread : List String → CommandError → Prop where
  | nothing : Misread [] (.invalidCommand "")
  | unknown {word : String} {rest : List String} (hmemory : ¬ IsNamed word ["memory", "m"])
    (hplain : ∀ command, ¬ IsNamed word (names command)) :
    Misread (word :: rest) (.invalidCommand (Text.lower word))
  | noAddress {word : String} (h : IsNamed word ["memory", "m"]) :
    Misread [word] (.missingArgument "memory" "addr")
  /-- Whatever comes behind the address. -/
  | badAddress {word address : String} {rest : List String} (h : IsNamed word ["memory", "m"])
    (ha : ∀ a, ¬ Numbers address a) :
    Misread (word :: address :: rest) (.malformedInteger "addr" address)
  /-- Whatever comes behind the length. -/
  | badLength {word address length : String} {a : Nat} {rest : List String}
    (h : IsNamed word ["memory", "m"]) (ha : Numbers address a) (hn : ∀ n, ¬ Numbers length n) :
    Misread (word :: address :: length :: rest) (.malformedInteger "len" length)
  | tooManyForMemory {word address length extra : String} {a n : Nat} {rest : List String}
    (h : IsNamed word ["memory", "m"]) (ha : Numbers address a) (hn : Numbers length n) :
    Misread (word :: address :: length :: extra :: rest) (.tooManyArguments "memory" 2)
  | tooMany {word extra : String} {command : Command} {rest : List String}
    (h : IsNamed word (names command)) :
    Misread (word :: extra :: rest) (.tooManyArguments ((names command).headD "") 0)

/-- Some words are a command, or something is wrong with them. -/
theorem denotes_or_misread (words : List String) :
    (∃ command, Denotes words command) ∨ ∃ e, Misread words e := by
  cases words with
  | nil => exact .inr ⟨_, .nothing⟩
  | cons word arguments =>
    by_cases hmemory : IsNamed word ["memory", "m"]
    · cases arguments with
      | nil => exact .inr ⟨_, .noAddress hmemory⟩
      | cons address arguments =>
        by_cases ha : ∃ a, Numbers address a
        · obtain ⟨a, ha⟩ := ha
          cases arguments with
          | nil => exact .inl ⟨_, .memory hmemory ha⟩
          | cons length arguments =>
            by_cases hn : ∃ n, Numbers length n
            · obtain ⟨n, hn⟩ := hn
              cases arguments with
              | nil => exact .inl ⟨_, .memoryLength hmemory ha hn⟩
              | cons extra rest => exact .inr ⟨_, .tooManyForMemory hmemory ha hn⟩
            · exact .inr ⟨_, .badLength hmemory ha (not_exists.mp hn)⟩
        · exact .inr ⟨_, .badAddress hmemory (not_exists.mp ha)⟩
    · by_cases hplain : ∃ command, IsNamed word (names command)
      · obtain ⟨command, hcommand⟩ := hplain
        cases arguments with
        | nil => exact .inl ⟨command, .plain hcommand⟩
        | cons extra rest => exact .inr ⟨_, .tooMany hcommand⟩
      · exact .inr ⟨_, .unknown hmemory (not_exists.mp hplain)⟩

namespace Command

/-! ## The reader -/

theorem find?_plain_of_named {name : String} {command : Command} (h : name ∈ names command) :
    plain.find? (·.1.contains name) = some (names command, command) := by
  cases command with
  | memory => cases h
  | _ =>
    simp only [names, List.mem_cons, List.not_mem_nil, or_false] at h
    rcases h with rfl | rfl | rfl | rfl <;> rfl

theorem find?_plain_of_unnamed {name : String} (h : ∀ command, name ∉ names command) :
    plain.find? (·.1.contains name) = none := by
  have hnames : ∀ entry ∈ plain, entry.1 = names entry.2 := by decide
  refine List.find?_eq_none.mpr fun entry hentry hcontains => h entry.2 ?_
  rw [← hnames entry hentry]
  exact List.contains_iff_mem.mp hcontains

theorem integerArgument_of_numbers {argument word : String} {n : Nat} (h : Numbers word n) :
    integerArgument argument word = .ok n := by
  unfold integerArgument
  simp only [h.1]
  rw [if_pos h.2]

theorem integerArgument_of_not_numbers {argument word : String} (h : ∀ n, ¬ Numbers word n) :
    integerArgument argument word = .error (.malformedInteger argument word) := by
  unfold integerArgument
  cases hread : Text.readInteger? word with
  | none => rfl
  | some n =>
    have hlarge : ¬ n ≤ 65535 := fun hle => h n ⟨hread, hle⟩
    exact if_neg hlarge

theorem read_of_memory {line word : String} {arguments : List String}
    (hwords : Text.words line = word :: arguments) (h : IsNamed word ["memory", "m"]) :
    read line = readMemory arguments := by
  have hname : memoryNames.contains (Text.lower word) = true := List.contains_iff_mem.mpr h
  unfold read
  simp only [hwords, List.headD_cons, hname]
  rfl

theorem not_named_memory {name : String} {command : Command} (h : name ∈ names command) :
    name ∉ memoryNames := by
  have hapart : ∀ name ∈ names command, name ∉ memoryNames := by
    cases command with
    | memory => exact nofun
    | _ => decide
  exact hapart name h

theorem read_of_named {line word : String} {command : Command} {arguments : List String}
    (hwords : Text.words line = word :: arguments) (h : IsNamed word (names command)) :
    read line =
      if arguments.isEmpty then .ok command
      else .error (.tooManyArguments ((names command).headD "") 0) := by
  have hname : memoryNames.contains (Text.lower word) = false :=
    Bool.eq_false_iff.mpr fun hmem => not_named_memory h (List.contains_iff_mem.mp hmem)
  unfold read
  simp only [hwords, List.headD_cons, List.drop_one, List.tail_cons, hname,
    find?_plain_of_named h]
  rfl

theorem read_of_denotes {line : String} {command : Command}
    (h : Denotes (Text.words line) command) : read line = .ok command := by
  generalize hwords : Text.words line = words at h
  cases h with
  | plain h => rw [read_of_named hwords h]; rfl
  | memory h ha =>
    rw [read_of_memory hwords h, readMemory, integerArgument_of_numbers ha]
    rfl
  | memoryLength h ha hn =>
    rw [read_of_memory hwords h, readMemory, integerArgument_of_numbers ha,
      integerArgument_of_numbers hn]
    rfl

theorem read_of_misread {line : String} {e : CommandError}
    (h : Misread (Text.words line) e) : read line = .error e := by
  generalize hwords : Text.words line = words at h
  cases h with
  | nothing =>
    unfold read
    rw [hwords]
    rfl
  | @unknown word rest hmemory hplain =>
    have hname : memoryNames.contains (Text.lower word) = false :=
      Bool.eq_false_iff.mpr fun hmem => hmemory (List.contains_iff_mem.mp hmem)
    unfold read
    simp only [hwords, List.headD_cons, hname, find?_plain_of_unnamed hplain]
    rfl
  | noAddress h =>
    rw [read_of_memory hwords h]
    rfl
  | @badAddress word address rest h ha =>
    rw [read_of_memory hwords h]
    cases rest <;> rw [readMemory, integerArgument_of_not_numbers ha] <;> rfl
  | badLength h ha hn =>
    rw [read_of_memory hwords h, readMemory, integerArgument_of_numbers ha,
      integerArgument_of_not_numbers hn]
    rfl
  | tooManyForMemory h ha hn =>
    rw [read_of_memory hwords h, readMemory, integerArgument_of_numbers ha,
      integerArgument_of_numbers hn]
    rfl
  | tooMany h => rw [read_of_named hwords h]; rfl

/-- A line is a command exactly if its words denote it. -/
theorem read_eq_ok_iff {line : String} {command : Command} :
    read line = .ok command ↔ Denotes (Text.words line) command := by
  refine ⟨fun h => ?_, read_of_denotes⟩
  rcases denotes_or_misread (Text.words line) with ⟨command', hdenotes⟩ | ⟨e, hmisread⟩
  · rw [read_of_denotes hdenotes] at h
    cases h
    exact hdenotes
  · rw [read_of_misread hmisread] at h
    cases h

/-- The error about a line is the one that its words call for. -/
theorem read_eq_error_iff {line : String} {e : CommandError} :
    read line = .error e ↔ Misread (Text.words line) e := by
  refine ⟨fun h => ?_, read_of_misread⟩
  rcases denotes_or_misread (Text.words line) with ⟨command, hdenotes⟩ | ⟨e', hmisread⟩
  · rw [read_of_denotes hdenotes] at h
    cases h
  · rw [read_of_misread hmisread] at h
    cases h
    exact hmisread

end Command

end TeachingCpu.Debugger
