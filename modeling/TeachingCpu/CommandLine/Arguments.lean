import TeachingCpu.Config

/-!
# Arguments of the command line

The command line is a command with its arguments, or the path of a program to run. Options start
with two dashes and take their value from the same argument, behind `=`, or from the next one;
flags with one letter can be put together behind one dash. Behind `--` nothing is an option.
-/

namespace TeachingCpu.CommandLine

/-- How a machine is set up, for the commands that assemble or run. -/
structure MachineOptions where
  memorySize : Option Nat := none
  stackPercent : Option Nat := none
  dataPercent : Option Nat := none
  allowPcWrite : Bool := false
  /-- Directory of the files that the program reaches. -/
  storage : Option String := none
  /-- Largest number of instructions to execute. -/
  maxSteps : Option Nat := none
deriving DecidableEq, Repr

/-- The commands. -/
inductive Command where
  | run (name : String) (options : MachineOptions) (minimal : Bool)
  | compile (name : String) (target : Option String) (options : MachineOptions)
  | disassemble (name : String) (target : Option String)
  | check (name : String) (options : MachineOptions)
deriving DecidableEq, Repr

/-- Whether a command shows the plain form of everything. -/
def Command.minimal : Command → Bool
  | .run _ _ minimal => minimal
  | _ => false

/-- What a command line asks for. -/
inductive Request where
  | help
  | version
  | welcome
  | perform (command : Command)
deriving DecidableEq, Repr

/-- The form of one argument. -/
inductive Argument where
  | long (name : String) (value : Option String)
  | letters (letters : List Char)
  /-- The mark in front of arguments that are not options. -/
  | escape
  | plain (text : String)
deriving DecidableEq, Repr

/-- The form of an argument. A single dash is plain. -/
def Argument.ofText (s : String) : Argument :=
  match s.toList with
  | ['-', '-'] => .escape
  | '-' :: '-' :: rest =>
    let name := String.ofList (rest.takeWhile (· != '='))
    match rest.dropWhile (· != '=') with
    | [] => .long name none
    | _ :: value => .long name (some (String.ofList value))
  | '-' :: c :: rest => .letters (c :: rest)
  | _ => .plain s

/-- What a command accepts. -/
structure Grammar where
  /-- Number of plain arguments that it takes. -/
  positionals : Nat
  /-- Options without a value: name and letter. -/
  flags : List (String × Option Char) := []
  /-- Options with a value, and which values they take. -/
  options : List (String × (String → Bool)) := []
  /-- Whether it can be asked for the version. -/
  versioned : Bool := false
  /-- Words that start another command. -/
  commands : List String := []

/-- The arguments of a command, as far as they are read. -/
structure Parsed where
  /-- How often more log lines were asked for. -/
  verbose : Nat := 0
  positionals : List String := []
  flags : List String := []
  options : List (String × String) := []
deriving DecidableEq, Repr

/-- Where reading the arguments of a command ends. -/
inductive Reading where
  | invalid
  | help
  | version
  | complete (parsed : Parsed)
  /-- At the word that starts another command. -/
  | command (parsed : Parsed) (name : String) (rest : List String)
deriving DecidableEq, Repr

/-- Decimal digits, possibly behind a plus sign. -/
def unsigned? (s : String) : Option Nat :=
  let digits := match s.toList with
    | '+' :: rest => rest
    | cs => cs
  if digits.isEmpty || !digits.all Char.isDigit then none
  else some (digits.foldl (fun n c => 10 * n + (c.toNat - '0'.toNat)) 0)

/-- A number of at most sixty-four bits. -/
def isLong (s : String) : Bool :=
  match unsigned? s with
  | some n => n < 0x1_0000_0000_0000_0000
  | none => false

/-- A number of at most eight bits. -/
def byte? (s : String) : Option Nat :=
  match s.toList with
  | '-' :: rest =>
    match rest with
    | '+' :: _ => none
    | _ => (unsigned? (String.ofList rest)).filter (· == 0)
  | _ => (unsigned? s).filter (· < 256)

/-- A text that can be a path. -/
def isPath (s : String) : Bool := !s.isEmpty

/-- Whether an argument cannot be the value of the option in front of it. -/
def looksLikeOption (s : String) : Bool :=
  match Argument.ofText s with
  | .plain _ => false
  | _ => true

namespace Grammar

/-- Takes in a plain argument. -/
def addPlain (g : Grammar) (p : Parsed) (text : String) : Option Parsed :=
  if p.positionals.length < g.positionals && isPath text then
    some { p with positionals := p.positionals ++ [text] }
  else none

/-- Takes in an option with its value. -/
def addOption (p : Parsed) (name value : String) (accepts : String → Bool) :
    Option Parsed :=
  if accepts value && (p.options.lookup name).isNone then
    some { p with options := (name, value) :: p.options }
  else none

/-- Takes in a flag. -/
def addFlag (p : Parsed) (name : String) : Option Parsed :=
  if p.flags.contains name then none else some { p with flags := name :: p.flags }

/-- Takes in flags by their letters. -/
def addLetters (g : Grammar) : List Char → Parsed → Reading
  | [], p => .complete p
  | c :: rest, p =>
    if c = 'v' then g.addLetters rest { p with verbose := p.verbose + 1 }
    else if c = 'h' then .help
    else if c = 'V' && g.versioned then .version
    else match g.flags.find? (·.2 == some c) with
      | none => .invalid
      | some (name, _) =>
        match addFlag p name with
        | none => .invalid
        | some p => g.addLetters rest p

/-- Takes in a flag by its name. -/
def addLong (g : Grammar) (name : String) (p : Parsed) : Reading :=
  if name = "verbose" then .complete { p with verbose := p.verbose + 1 }
  else if name = "help" then .help
  else if name = "version" && g.versioned then .version
  else match g.flags.find? (·.1 == name) with
    | none => .invalid
    | some _ =>
      match addFlag p name with
      | none => .invalid
      | some p => .complete p

/-- Reads arguments that are all plain. -/
def readPlain (g : Grammar) : List String → Parsed → Reading
  | [], p => .complete p
  | text :: rest, p =>
    match g.addPlain p text with
    | none => .invalid
    | some p => g.readPlain rest p

/-- Reads arguments up to the first that ends the reading. -/
def read (g : Grammar) : List String → Parsed → Reading
  | [], p => .complete p
  | argument :: rest, p =>
    match Argument.ofText argument with
    | .escape => g.readPlain rest p
    | .plain text =>
      if g.commands.contains text then .command p text rest
      else match g.addPlain p text with
        | none => .invalid
        | some p => g.read rest p
    | .letters letters =>
      match g.addLetters letters p with
      | .complete p => g.read rest p
      | ending => ending
    | .long name value =>
      match g.options.lookup name with
      | some accepts =>
        match value with
        | some value =>
          match addOption p name value accepts with
          | none => .invalid
          | some p => g.read rest p
        | none =>
          match rest with
          | [] => .invalid
          | value :: rest =>
            if looksLikeOption value then .invalid
            else match addOption p name value accepts with
              | none => .invalid
              | some p => g.read rest p
      | none =>
        match value with
        | some _ => .invalid
        | none =>
          match g.addLong name p with
          | .complete p => g.read rest p
          | ending => ending

end Grammar

/-- The options that set up a machine. -/
def machineOptions : List (String × (String → Bool)) :=
  [("memory-size", isLong),
    ("stack-percent", fun s => (byte? s).isSome),
    ("data-percent", fun s => (byte? s).isSome),
    ("delay-ms", isLong),
    ("storage", isPath),
    ("max-steps", isLong)]

/-- The flags that set up a machine. -/
def machineFlags : List (String × Option Char) := [("allow-pc-write", none)]

/-- The commands, by their words, and what they accept. -/
def grammars : List (String × Grammar) :=
  [("run",
      { positionals := 1, options := machineOptions,
        flags := ("minimal", some 'm') :: machineFlags }),
    ("compile", { positionals := 2, options := machineOptions, flags := machineFlags }),
    ("disassemble", { positionals := 2 }),
    ("check", { positionals := 1, options := machineOptions, flags := machineFlags })]

/-- What may stand in front of a command. -/
def outerGrammar : Grammar :=
  { positionals := 1, versioned := true,
    commands := "help" :: grammars.map Prod.fst }

/-- The machine options among some arguments. -/
def MachineOptions.ofParsed (p : Parsed) : MachineOptions where
  memorySize := (p.options.lookup "memory-size").bind unsigned?
  stackPercent := (p.options.lookup "stack-percent").bind byte?
  dataPercent := (p.options.lookup "data-percent").bind byte?
  allowPcWrite := p.flags.contains "allow-pc-write"
  storage := p.options.lookup "storage"
  maxSteps := (p.options.lookup "max-steps").bind unsigned?

/-- The command with a word and some arguments. -/
def Command.ofParsed (word name : String) (p : Parsed) : Option Command :=
  let options := MachineOptions.ofParsed p
  let target := p.positionals[1]?
  match word with
  | "run" => some (.run name options (p.flags.contains "minimal"))
  | "compile" => some (.compile name target options)
  | "disassemble" => some (.disassemble name target)
  | "check" => some (.check name options)
  | _ => none

/-- A command line that can be followed: how often more log lines are asked for, and what for. -/
structure Invocation where
  verbose : Nat
  request : Request
deriving DecidableEq, Repr

/-- Reads a command behind what stands in front of it. Every command needs a plain argument. -/
def readCommand (outer : Parsed) (word : String) (rest : List String) : Option Invocation :=
  match grammars.lookup word with
  | none =>
    match rest with
    | [] => some ⟨outer.verbose, .help⟩
    | [topic] =>
      if outerGrammar.commands.contains topic then some ⟨outer.verbose, .help⟩ else none
    | _ => none
  | some grammar =>
    match grammar.read rest {} with
    | .help => some ⟨outer.verbose, .help⟩
    | .version => some ⟨outer.verbose, .version⟩
    | .invalid | .command .. => none
    | .complete p =>
      match p.positionals with
      | [] => none
      | name :: _ =>
        let verbose := if p.verbose = 0 then outer.verbose else p.verbose
        (Command.ofParsed word name p).map fun command => ⟨verbose, .perform command⟩

/-- Reads a command line. Nothing is read from one that does not fit the commands. -/
def Invocation.ofArguments (arguments : List String) : Option Invocation :=
  match outerGrammar.read arguments {} with
  | .invalid => none
  | .help => some ⟨0, .help⟩
  | .version => some ⟨0, .version⟩
  | .command outer word rest => readCommand outer word rest
  | .complete p =>
    match p.positionals with
    | [] => some ⟨p.verbose, .welcome⟩
    | path :: _ => some ⟨p.verbose, .perform (.run path {} false)⟩

end TeachingCpu.CommandLine
