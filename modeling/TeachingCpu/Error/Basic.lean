import TeachingCpu.Error.Cause
import TeachingCpu.Source.Span

/-!
# Errors

An error is a cause and, for the assembler, the place in the source text where it arose. The
place that is set first stays.
-/

namespace TeachingCpu

/-- A cause of failure and where it arose. -/
structure Error where
  cause : Cause
  /-- Source line, counted from 1. -/
  line : Option Nat := none
  span : Option Span := none
deriving DecidableEq, Repr

namespace Error

/-- An error that has no place in source text. -/
def of (cause : Cause) : Error := { cause }

/-- Adds a source line to an error that has none. -/
def atLine (e : Error) (line : Nat) : Error :=
  { e with line := e.line <|> some line }

/-- Adds a stretch of source text to an error that has none. -/
def atSpan (e : Error) (span : Span) : Error :=
  { e with span := e.span <|> some span }

/-- The kind of an error. -/
def kind (e : Error) : ErrorKind := e.cause.kind

/-- The words that tell an error. -/
def message (e : Error) : String := e.cause.message

/-- The words that tell an error, after its line where it has one. -/
def display (e : Error) : String :=
  match e.line with
  | some line => "line " ++ toString line ++ ": " ++ e.message
  | none => e.message

end Error

/-- An action on a state that either yields a value or fails. A failing action keeps what it did
to the state before it failed. -/
abbrev Attempt (σ : Type) : Type → Type := EStateM Error σ

namespace Attempt

variable {σ τ α : Type}

/-- Fails without touching the state. -/
def fail (cause : Cause) : Attempt σ α := throw (Error.of cause)

/-- Yields or fails as a result does, without touching the state. -/
def ofExcept (r : Except Error α) : Attempt σ α :=
  match r with
  | .ok a => pure a
  | .error e => throw e

/-- Runs an action on a part of the state. -/
def onPart (get : σ → τ) (put : τ → σ → σ) (act : Attempt τ α) : Attempt σ α := fun s =>
  match act (get s) with
  | .ok a t => .ok a (put t s)
  | .error e t => .error e (put t s)

/-- Changes the errors of an action. -/
def mapError (f : Error → Error) (act : Attempt σ α) : Attempt σ α := fun s =>
  match act s with
  | .ok a s => .ok a s
  | .error e s => .error (f e) s

/-- The outcome of an action without the state that it leaves. -/
def outcome (act : Attempt σ α) (s : σ) : Except Error α :=
  match act s with
  | .ok a _ => .ok a
  | .error e _ => .error e

/-- The state that an action leaves, whether or not it fails. -/
def finalState (act : Attempt σ α) (s : σ) : σ :=
  match act s with
  | .ok _ s => s
  | .error _ s => s

end Attempt

end TeachingCpu
