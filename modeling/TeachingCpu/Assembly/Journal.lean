import TeachingCpu.Assembly.Encode
import TeachingCpu.Console

/-!
# Log lines of the assembler

What the assembler tells about a program while it works: data that reaches into the data segment,
and how much each pass found.
-/

namespace TeachingCpu

namespace Draft

/-- The log lines of the first pass over lines that were read so far. -/
def overrunLog (draft : Draft) : List LogLine :=
  draft.overruns.reverse.map fun dataEnd =>
    ⟨.debug, "tinycpu::parser",
      "data block ends at 0x" ++ Text.hex 4 dataEnd ++
        ", past the data segment start 0x" ++
        Text.hex 4 draft.memory.layout.dataStart.toNat⟩

/-- The log line at the end of the first pass. -/
def summary (draft : Draft) : LogLine :=
  ⟨.debug, "tinycpu::parser",
    "pass 1: " ++ toString draft.statements.length ++ " statements, " ++
      toString draft.romLength ++ " bytes of ROM, " ++
      toString draft.labels.size ++ " labels, " ++
      toString draft.vars.size ++ " variables"⟩

end Draft

/-- The log line at the end of the second pass. -/
def Image.assemblySummary (image : Image) (pool : StringPool) : LogLine :=
  ⟨.debug, "tinycpu::air",
    "pass 2: " ++ toString image.rom.length ++ " bytes of ROM, " ++
      toString pool.interned.size ++ " pooled strings, entry at 0x" ++
      Text.hex 4 image.entry.toNat⟩

/-- Assembles a source, with the log lines on the way. -/
def assembleWithLog (source : String) (config : Config) :
    Except Error Image × List LogLine :=
  match Draft.attempt source config with
  | .error e => (.error e, [])
  | .ok (.error e draft) => (.error e, draft.overrunLog)
  | .ok (.ok _ draft) =>
    let log := draft.overrunLog ++ [draft.summary]
    match draft.encode with
    | .error e => (.error e, log)
    | .ok (image, pool) => (.ok image, log ++ [image.assemblySummary pool])

theorem assembleWithLog_fst (source : String) (config : Config) :
    (assembleWithLog source config).1 = assemble source config := by
  unfold assembleWithLog assemble Draft.read
  cases h : Draft.attempt source config with
  | error e => rfl
  | ok r =>
    cases r with
    | error e draft => rfl
    | ok u draft =>
      cases h' : draft.encode with
      | error e => simp [bind, Except.bind, pure, Except.pure, h']
      | ok r => simp [bind, Except.bind, pure, Except.pure, h']

end TeachingCpu
