import TeachingCpu.Isa.Flag
import TeachingCpu.Isa.Register

/-!
# Arithmetic and logic

The two-operand operations take numbers below the number of values of a width and give a result
of that width, with the carry and the overflow flag. `Operation.apply` has no result for a
division by zero.
-/

namespace TeachingCpu

/-- The operations of the arithmetic unit. -/
inductive Operation where
  | add | sub | mul | div | mod | and | or | xor | shl | shr
deriving DecidableEq, Repr

/-- The result of an operation. -/
structure ArithmeticResult where
  value : Nat
  carry : Bool
  overflow : Bool
deriving DecidableEq, Repr

namespace Operation

/-- Whether the most significant bit of a number is set. -/
def isNegative (w : Width) (n : Nat) : Bool := decide (w.signBit ≤ n)

/-- Whether a result has another sign than both of two numbers that agree in theirs. -/
def signLost (w : Width) (a b result : Nat) : Bool :=
  isNegative w a == isNegative w b && isNegative w result != isNegative w a

/-- Sum modulo the number of values. It overflows where both numbers have the sign that the sum
does not have. -/
def addNumbers (w : Width) (a b : Nat) : ArithmeticResult :=
  let result := (a + b) % w.size
  ⟨result, decide (w.size ≤ a + b), signLost w a b result⟩

/-- Difference modulo the number of values. The carry flag is the borrow; it overflows where the
numbers differ in sign and the difference has the sign of the one taken away. -/
def subNumbers (w : Width) (a b : Nat) : ArithmeticResult :=
  let result := (a + w.size - b) % w.size
  ⟨result, decide (a < b),
    isNegative w a != isNegative w b && isNegative w result != isNegative w a⟩

/-- Product modulo the number of values. Carry and overflow tell that it did not fit. -/
def mulNumbers (w : Width) (a b : Nat) : ArithmeticResult :=
  ⟨a * b % w.size, decide (w.size ≤ a * b), decide (w.size ≤ a * b)⟩

/-- Shift to the left. The carry flag is the last bit that left. -/
def shlNumbers (w : Width) (a b : Nat) : ArithmeticResult :=
  ⟨if w.bits ≤ b then 0 else (a <<< b) % w.size,
    decide (0 < b) && decide (b ≤ w.bits) && a.testBit (w.bits - b), false⟩

/-- Shift to the right. The carry flag is the last bit that left. -/
def shrNumbers (w : Width) (a b : Nat) : ArithmeticResult :=
  ⟨if w.bits ≤ b then 0 else a >>> b,
    decide (0 < b) && decide (b ≤ w.bits) && a.testBit (b - 1), false⟩

/-- The result of an operation, except for a division by zero. -/
def apply (op : Operation) (w : Width) (a b : Nat) : Option ArithmeticResult :=
  match op with
  | .add => some (addNumbers w a b)
  | .sub => some (subNumbers w a b)
  | .mul => some (mulNumbers w a b)
  | .div => if b = 0 then none else some ⟨a / b, false, false⟩
  | .mod => if b = 0 then none else some ⟨a % b, false, false⟩
  | .and => some ⟨a &&& b, false, false⟩
  | .or => some ⟨a ||| b, false, false⟩
  | .xor => some ⟨a ^^^ b, false, false⟩
  | .shl => some (shlNumbers w a b)
  | .shr => some (shrNumbers w a b)

end Operation

/-- What a conditional jump asks of the flags. -/
inductive Condition where
  | always
  | equal
  | notEqual
  | less
  | greater
  | lessOrEqual
  | greaterOrEqual
  | carry
  | overflow
deriving DecidableEq, Repr

/-- Whether the flags meet a condition. After a comparison, the negative and the overflow flag
differ where the first number is the smaller one. -/
def Condition.holds (c : Condition) (f : Flags) : Bool :=
  match c with
  | .always => true
  | .equal => f.zero
  | .notEqual => !f.zero
  | .less => f.negative != f.overflow
  | .greater => !f.zero && f.negative == f.overflow
  | .lessOrEqual => f.zero || f.negative != f.overflow
  | .greaterOrEqual => f.negative == f.overflow
  | .carry => f.carry
  | .overflow => f.overflow

/-- The flags with zero and negative set from a result. -/
def Flags.ofResult (f : Flags) (w : Width) (value : Nat) : Flags :=
  { f with zero := value == 0, negative := value / w.signBit % 2 == 1 }

end TeachingCpu
