/-!
# Files in a table

Named files that are kept in memory. Any text is a name. `FileTable.find?` is the view of a table;
a lemma for each operation says what it does to the contents of every name.
-/

namespace TeachingCpu

/-- Files by name, in the order in which they were made. -/
structure FileTable where
  entries : List (String × List UInt8) := []
deriving DecidableEq, Repr

namespace FileTable

/-- The contents of a file. -/
def find? (t : FileTable) (name : String) : Option (List UInt8) := t.entries.lookup name

/-- Number of files. -/
def size (t : FileTable) : Nat := t.entries.length

/-- Replaces the contents of a name among some entries, or adds it behind them. -/
def put (name : String) (bytes : List UInt8) :
    List (String × List UInt8) → List (String × List UInt8)
  | [] => [(name, bytes)]
  | entry :: rest =>
    if entry.1 = name then (name, bytes) :: rest else entry :: put name bytes rest

/-- Makes a file or replaces its contents. -/
def save (t : FileTable) (name : String) (bytes : List UInt8) : FileTable :=
  ⟨put name bytes t.entries⟩

/-- Makes a file or adds to its contents. -/
def append (t : FileTable) (name : String) (bytes : List UInt8) : FileTable :=
  t.save name ((t.find? name).getD [] ++ bytes)

/-- Removes a file if there is one. -/
def delete (t : FileTable) (name : String) : FileTable :=
  ⟨t.entries.filter (·.1 ≠ name)⟩

theorem lookup_put (name other : String) (bytes : List UInt8)
    (entries : List (String × List UInt8)) :
    (put name bytes entries).lookup other =
      if other = name then some bytes else entries.lookup other := by
  induction entries with
  | nil => grind [put]
  | cons entry rest ih => grind [put]

@[simp] theorem find?_save_self (t : FileTable) (name : String) (bytes : List UInt8) :
    (t.save name bytes).find? name = some bytes := by
  simp [save, find?, lookup_put]

theorem find?_save_of_ne (t : FileTable) {name other : String} (h : other ≠ name)
    (bytes : List UInt8) : (t.save name bytes).find? other = t.find? other := by
  simp [save, find?, lookup_put, h]

@[simp] theorem find?_append_self (t : FileTable) (name : String) (bytes : List UInt8) :
    (t.append name bytes).find? name = some ((t.find? name).getD [] ++ bytes) :=
  find?_save_self ..

theorem find?_append_of_ne (t : FileTable) {name other : String} (h : other ≠ name)
    (bytes : List UInt8) : (t.append name bytes).find? other = t.find? other :=
  find?_save_of_ne t h _

theorem find?_delete (t : FileTable) (name other : String) :
    (t.delete name).find? other = if other = name then none else t.find? other := by
  unfold delete find?
  induction t.entries with
  | nil => simp
  | cons entry rest ih => grind

end FileTable

end TeachingCpu
