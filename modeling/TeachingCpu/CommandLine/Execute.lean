import TeachingCpu.Assembly.Journal
import TeachingCpu.CommandLine.Arguments
import TeachingCpu.Files.Name
import TeachingCpu.Listing.Source
import TeachingCpu.Machine.Run

/-!
# Commands at work

What a command line does to the files around it, what it shows, and the exit status that it ends
with. A command works in a shell: a console and the files of the working directory.
-/

namespace TeachingCpu.CommandLine

/-- What a command finds around it. -/
structure Surroundings where
  /-- Variables of the environment. -/
  environment : List (String × String) := []
  /-- Whether what is shown goes to a terminal. -/
  onTerminal : Bool := false
  files : FileTree := {}
  /-- What is typed. -/
  input : String := ""

/-- A console and the files of the working directory. -/
structure Shell where
  console : Console
  files : FileTree

/-- What a command ends with. -/
structure Ending where
  exitStatus : Nat
  /-- What the command showed. -/
  screen : String
  /-- What is told about a failure, apart from what was shown. -/
  diagnostics : List String
  files : FileTree

/-- Why a command stops early: the exit status, and what to tell. -/
structure Stop where
  exitStatus : Nat
  diagnostics : List String

/-- A step of a command. -/
abbrev Job : Type → Type := EStateM Stop Shell

/-- The value of a variable of the environment. -/
def Surroundings.valueOf? (s : Surroundings) (name : String) : Option String :=
  s.environment.lookup name

/-- Whether a variable of the environment has a value. -/
def Surroundings.has (s : Surroundings) (name value : String) : Bool :=
  s.valueOf? name == some value

/-- Whether a variable of the environment switches something on: any value but `0` does. -/
def Surroundings.switchesOn (s : Surroundings) (name : String) : Bool :=
  match s.valueOf? name with
  | some value => value != "0"
  | none => false

/-- Whether colours are shown. `CLICOLOR_FORCE` asks for them wherever the output goes. Otherwise
they are for terminals, unless `NO_COLOR` is there or `CLICOLOR` is `0`. -/
def Surroundings.colored (s : Surroundings) : Bool :=
  s.switchesOn "CLICOLOR_FORCE" ||
    ((s.valueOf? "NO_COLOR").isNone && s.onTerminal && !s.has "CLICOLOR" "0")

/-- Whether mixed colours can be shown. -/
def Surroundings.mixesColors (s : Surroundings) : Bool :=
  s.has "COLORTERM" "truecolor" || s.has "COLORTERM" "24bit"

/-- The log lines to show: warnings at least, and all of them where the environment asks for a
trace. -/
def Surroundings.verbosity (s : Surroundings) (verbose : Nat) : LogLevel :=
  if s.has "TINYCPU_TRACE" "1" then .trace
  else match verbose with
    | 0 => .warn
    | 1 => .info
    | 2 => .debug
    | _ => .trace

/-- The configuration of a machine: options go before the environment. -/
def MachineOptions.config (o : MachineOptions) (s : Surroundings) : Config where
  memorySize := o.memorySize.getD 4096
  stackPercent := o.stackPercent.getD 25
  dataPercent := o.dataPercent.getD 25
  allowPcWrite := o.allowPcWrite || s.has "TINYCPU_PC_WRITE" "1"

namespace Job

/-- Shows a text. -/
def print (text : String) : Job Unit :=
  modify fun s => { s with console := s.console.enter (.output text) }

/-- Shows a log line, if its level is wanted. -/
def log (line : LogLine) : Job Unit :=
  modify fun s => { s with console := s.console.log line.level line.topic fun _ => line.text }

/-- Shows a status message. The plain form has none. -/
def message (style : Text.Style) (left right : String) : Job Unit := do
  let s ← get
  if s.console.display.minimal then pure ()
  else print (style.paint s.console.display (Text.padLeft 12 ' ' left) ++ " " ++ right ++ "\n")

/-- Stops with a failure that has no exit status of its own. -/
def stop {α : Type} (reason : String) : Job α := throw ⟨1, [reason]⟩

/-- Yields what the assembler, the loader or the engine gives, or stops with its failure. -/
def accept {α : Type} (result : Except Error α) : Job α :=
  match result with
  | .ok a => pure a
  | .error e => throw ⟨e.kind.statusCode, e.display :: e.kind.help?.toList⟩

/-- The contents of a file. -/
def readFile (path : String) : Job (List UInt8) := do
  let s ← get
  match s.files.read path with
  | .ok bytes => return bytes
  | .error e => stop e.message

/-- The contents of a file as a text. -/
def readText (path : String) : Job String := do
  let bytes ← readFile path
  match String.fromUTF8? ⟨bytes.toArray⟩ with
  | some text => return text
  | none => stop "stream did not contain valid UTF-8"

/-- Makes a file or replaces its contents. -/
def writeFile (path : String) (bytes : List UInt8) : Job Unit := do
  let s ← get
  match s.files.write path bytes with
  | .ok files => set { s with files }
  | .error e => stop e.message

/-- Assembles the source in a file. -/
def assembleFile (path : String) (config : Config) : Job Image := do
  let source ← readText path
  let (image, log) := assembleWithLog source config
  log.forM Job.log
  accept image

/-- Reads the image in a row of bytes. -/
def readImage (bytes : List UInt8) : Job Image := do
  let image ← accept (Image.ofBytes bytes)
  log ⟨.debug, "tinycpu::image",
    "image: " ++ toString image.rom.length ++ " ROM bytes, " ++
      toString image.memory.length ++ " memory bytes, " ++ image.width.text ++
      ", entry 0x" ++ Text.hex 4 image.entry.toNat⟩
  return image

end Job

open Job

/-- The image in a file, which is source text or a row of bytes as its extension tells. -/
def loadFile (path : String) (config : Config) : Job Image := do
  match FileName.extension? path with
  | some "asm" =>
    message .green "Assembling" ("target " ++ path)
    assembleFile path config
  | some "bin" =>
    message .green "Loading" ("target " ++ path)
    readImage (← readFile path)
  | some _ => stop "File has unknown extension. Exiting..."
  | none => stop "File has no extension. Exiting..."

/-- A machine with the program in a file. It takes over the console and the files. -/
def prepare (path : String) (options : MachineOptions) (s : Surroundings) : Job Machine := do
  let config := options.config s
  let image ← loadFile path config
  let shell ← get
  let storage := match options.storage with
    | some root => Storage.directory root shell.files
    | none => Storage.table {}
  let machine ← accept (Machine.build config shell.console storage)
  set { shell with console := machine.bench.console }
  match Machine.load image machine with
  | .error e _ => accept (.error e)
  | .ok _ machine =>
    set { shell with console := machine.bench.console }
    message .green "Running" "loaded program"
    let shell ← get
    return { machine with bench := { machine.bench with console := shell.console } }

/-- The files of the working directory behind a run. -/
def filesAfter (files : FileTree) : Storage → FileTree
  | .directory _ tree => tree
  | .table _ => files

/-- Takes console and files back from a machine and tells how its program ended. -/
def conclude (ending : Machine.Ending) : Job Unit := do
  let takeBack (m : Machine) : Job Unit :=
    modify fun s => ⟨m.bench.console, filesAfter s.files m.bench.storage⟩
  match ending with
  | .ok .halted m =>
    takeBack m
    message .green "Halted" (toString m.instructions ++ " instructions, " ++
      toString m.cycles ++ " cycles")
  | .ok _ m =>
    takeBack m
    message .cyan "Stopped" ("step limit of " ++ toString m.instructions ++
      " instructions reached")
  | .error e m =>
    takeBack m
    throw ⟨m.statusCode, m.output ++ e.display :: e.kind.help?.toList⟩

/-- Writes the image of a source to a file. -/
def compileFile (path : String) (target : Option String) (options : MachineOptions)
    (s : Surroundings) : Job Unit := do
  message .green "Assembling" ("target " ++ path)
  let image ← assembleFile path (options.config s)
  let target := target.getD (FileName.withExtension path "bin")
  writeFile target image.toBytes
  message .green "Finished" (toString image.rom.length ++ " ROM bytes, entry 0x" ++
    Text.hex 4 image.entry.toNat)
  message .green "Saved" ("target " ++ target)

/-- Shows source text for an image, or writes it to a file. -/
def disassembleFile (path : String) (target : Option String) : Job Unit := do
  let image ← readImage (← readFile path)
  let listing ← accept (Listing.ofImage image)
  log ⟨.debug, "tinycpu::disasm",
    "disassembled " ++ toString listing.instructions.length ++ " instructions"⟩
  match target with
  | some target =>
    writeFile target listing.source.toUTF8.data.toList
    message .green "Saved" ("target " ++ target)
  | none => print listing.source

/-- Assembles a source for its errors. -/
def checkFile (path : String) (options : MachineOptions) (s : Surroundings) : Job Unit := do
  message .green "Checking" ("target " ++ path)
  let _ ← assembleFile path (options.config s)
  message .green "Success" "no errors found!"

/-- The version of the program. -/
def version : String := "0.1.0"

/-- The name of the program in large letters. -/
def logo : String :=
  "\n" ++
  "  _   _\n" ++
  " | |_(_)_ __  _   _  ___ _ __  _   _\n" ++
  " | __| | '_ \\| | | |/ __| '_ \\| | | |\n" ++
  " | |_| | | | | |_| | (__| |_) | |_| |\n" ++
  "  \\__|_|_| |_|\\__, |\\___| .__/ \\__,_|\n" ++
  "              |___/     |_|          "

/-- What the program is. -/
def shortInfo : String :=
  "\n" ++
  "Welcome to tinycpu, an assembler, disassembler and emulator\n" ++
  "for a small 16-bit educational CPU.\n" ++
  "Please use `-h` or `--help` to access the usage instructions and documentation.\n"

/-- The style of the large letters: the grey nearest to their colour where that cannot be mixed. -/
def logoStyle (s : Surroundings) : Text.Style :=
  if s.mixesColors then .boldMixed 120 200 160 else .boldGrey

/-- What is shown where no command is given. -/
def welcome (s : Surroundings) : String :=
  "\n~ tinycpu v" ++ version ++ " ~\n" ++
    (logoStyle s).paint { colored := s.colored } logo ++ "\n" ++ shortInfo ++ "\n"

/-- The commands and how to use them. -/
def usage : String :=
  "Usage: tinycpu [OPTIONS] [PATH] [COMMAND]\n\n" ++
  "Commands:\n" ++
  "  run <NAME>                  Run an .asm or .bin file\n" ++
  "  compile <NAME> [DEST]       Assemble an .asm file into a .bin file\n" ++
  "  disassemble <NAME> [DEST]   Turn a .bin file back into assembly text\n" ++
  "  check <NAME>                Look for errors in an .asm file\n"

/-- The ending of a task. -/
def endingOf : EStateM.Result Stop Shell Unit → Ending
  | .ok _ shell => ⟨0, shell.console.screen, [], shell.files⟩
  | .error stop shell => ⟨stop.exitStatus, shell.console.screen, stop.diagnostics, shell.files⟩

/-- Runs the program in a file. There is no ending for a program that does not stop. -/
def runFile (path : String) (options : MachineOptions) (s : Surroundings) (shell : Shell) :
    Option Ending :=
  match prepare path options s shell with
  | .error stop shell => some (endingOf (.error stop shell))
  | .ok machine shell =>
    let ending := match options.maxSteps with
      | some n => some (Machine.runFor n machine)
      | none => Machine.run machine
    ending.map fun ending => endingOf (conclude ending shell)

/-- Follows a command. -/
def Command.execute (command : Command) (s : Surroundings) (shell : Shell) : Option Ending :=
  match command with
  | .run path options _ => runFile path options s shell
  | .compile path target options => some (endingOf (compileFile path target options s shell))
  | .disassemble path target => some (endingOf (disassembleFile path target shell))
  | .check path options => some (endingOf (checkFile path options s shell))

/-- Follows a command line. One that does not fit the commands ends with status 2. -/
def execute (arguments : List String) (s : Surroundings) : Option Ending :=
  match Invocation.ofArguments arguments with
  | none => some ⟨2, "", ["error: invalid arguments", usage], s.files⟩
  | some ⟨verbose, request⟩ =>
    match request with
    | .help => some ⟨0, usage, [], s.files⟩
    | .version => some ⟨0, "tinycpu " ++ version ++ "\n", [], s.files⟩
    | .welcome => some ⟨0, welcome s, [], s.files⟩
    | .perform command =>
      let console : Console :=
        { pending := Console.typedLines s.input, echoes := true,
          display := { colored := s.colored, minimal := command.minimal },
          verbosity := some (s.verbosity verbose) }
      command.execute s ⟨console, s.files⟩

end TeachingCpu.CommandLine
