/-!
# Status flags

Four flags describe the last result, one enables interrupts, one makes the debugger open after
every instruction, and one reports a file that was not found. Shown as a number, the flags are
bits from the negative flag upwards.
-/

namespace TeachingCpu

/-- The status flags. -/
inductive Flag where
  | negative
  | carry
  | overflow
  | zero
  | interrupt
  | trap
  | error
deriving DecidableEq, Repr

namespace Flag

/-- Every flag, from the lowest bit upwards. -/
def all : List Flag := [.negative, .carry, .overflow, .zero, .interrupt, .trap, .error]

/-- The letter that shows a flag. -/
def letter : Flag → Char
  | .negative => 'N'
  | .carry => 'C'
  | .overflow => 'V'
  | .zero => 'Z'
  | .interrupt => 'I'
  | .trap => 'T'
  | .error => 'E'

/-- The weight of a flag in the flags shown as a number. -/
def bit : Flag → Nat
  | .negative => 1
  | .carry => 2
  | .overflow => 4
  | .zero => 8
  | .interrupt => 16
  | .trap => 32
  | .error => 64

end Flag

/-- The state of every flag. -/
structure Flags where
  negative : Bool := false
  carry : Bool := false
  overflow : Bool := false
  zero : Bool := false
  interrupt : Bool := false
  trap : Bool := false
  error : Bool := false
deriving DecidableEq, Repr

namespace Flags

/-- Whether a flag is set. -/
def get (f : Flags) : Flag → Bool
  | .negative => f.negative
  | .carry => f.carry
  | .overflow => f.overflow
  | .zero => f.zero
  | .interrupt => f.interrupt
  | .trap => f.trap
  | .error => f.error

/-- Sets or clears a flag. -/
def set (f : Flags) (flag : Flag) (value : Bool) : Flags :=
  match flag with
  | .negative => { f with negative := value }
  | .carry => { f with carry := value }
  | .overflow => { f with overflow := value }
  | .zero => { f with zero := value }
  | .interrupt => { f with interrupt := value }
  | .trap => { f with trap := value }
  | .error => { f with error := value }

/-- The flags as a number: the sum of the weights of those that are set. -/
def toNat (f : Flags) : Nat :=
  Flag.all.foldl (fun n flag => if f.get flag then n + flag.bit else n) 0

@[simp] theorem get_set_self (f : Flags) (flag : Flag) (value : Bool) :
    (f.set flag value).get flag = value := by
  cases flag <;> rfl

theorem get_set_of_ne (f : Flags) {a b : Flag} (h : a ≠ b) (value : Bool) :
    (f.set a value).get b = f.get b := by
  cases a <;> cases b <;> first | rfl | exact absurd rfl h

end Flags

end TeachingCpu
