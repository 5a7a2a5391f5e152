/-!
# Symbol tables
-/

namespace TeachingCpu

/-- Names and what they stand for, the latest definition first. -/
structure SymbolTable where
  entries : List (String × Nat) := []
deriving DecidableEq, Repr

namespace SymbolTable

/-- What a name stands for. -/
def find? (t : SymbolTable) (name : String) : Option Nat := t.entries.lookup name

/-- Whether a name is defined. -/
def contains (t : SymbolTable) (name : String) : Bool := (t.find? name).isSome

/-- Defines a name. -/
def define (t : SymbolTable) (name : String) (value : Nat) : SymbolTable :=
  ⟨(name, value) :: t.entries⟩

/-- Number of definitions. -/
def size (t : SymbolTable) : Nat := t.entries.length

/-- The definitions in the order in which they were made. -/
def toList (t : SymbolTable) : List (String × Nat) := t.entries.reverse

@[simp] theorem find?_define_self (t : SymbolTable) (name : String) (value : Nat) :
    (t.define name value).find? name = some value := by
  simp [define, find?]

theorem find?_define_of_ne (t : SymbolTable) {name other : String} (h : other ≠ name)
    (value : Nat) : (t.define name value).find? other = t.find? other := by
  simp [define, find?, List.lookup_cons, beq_false_of_ne h]

end SymbolTable

end TeachingCpu
