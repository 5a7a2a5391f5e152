import TeachingCpu.Proofs.Debugger.Replies
import TeachingCpu.Proofs.Memory.Strings

/-!
# Reading memory dumps

A row of a dump is read by its columns: an address, two hexadecimal digits for each byte in a field
of fixed width, and a character for each byte behind it. Without colours a dump has as many rows as
its range needs, and the rows give back the bytes of the range in order (`memory_readsBack`).
-/

namespace TeachingCpu

namespace Text

/-! ## Columns -/

/-- A number is written with as many digits as it is padded to, if it needs no more. -/
theorem length_hex {width n : Nat} (hwidth : 0 < width) (h : n < 16 ^ width) :
    (hex width n).toList.length = width := by
  have hdigits := Nat.toDigits_length 16 n width hwidth h
  rw [toList_hex, List.length_append, List.length_replicate]
  omega

theorem toList_padRight (width : Nat) (s : String) :
    (padRight width s).toList = s.toList ++ List.replicate (width - s.toList.length) ' ' := by
  rw [padRight, String.toList_ofList, List.rightpad]

/-- Between separators there is nothing. -/
theorem filter_splitAtChar_replicate (separator : Char) (n : Nat) :
    (splitAtChar separator (List.replicate n separator)).filter (!·.isEmpty) = [] := by
  induction n with
  | zero => rfl
  | succ n ih =>
    have hsplit := splitAtChar_append_cons separator [] (List.replicate n separator)
    rw [List.replicate_succ, ← List.nil_append (separator :: _), hsplit, List.filter_append, ih]
    rfl

/-- Words with a separator between them and separators behind them are the pieces that are not
empty. -/
theorem filter_splitAtChar_intercalate {separator : Char} {words : List (List Char)}
    (h : ∀ word ∈ words, word ≠ [] ∧ separator ∉ word) (n : Nat) :
    (splitAtChar separator (List.intercalate [separator] words ++
      List.replicate n separator)).filter (!·.isEmpty) = words := by
  induction words with
  | nil => exact filter_splitAtChar_replicate separator n
  | cons word rest ih =>
    obtain ⟨⟨hne, hplain⟩, hrest⟩ := List.forall_mem_cons.mp h
    have hkept : [word].filter (!·.isEmpty) = [word] :=
      List.filter_cons_of_pos (by simpa using hne)
    cases rest with
    | nil =>
      rw [List.intercalate_singleton]
      cases n with
      | zero => rw [List.replicate_zero, List.append_nil, splitAtChar_of_notMem hplain, hkept]
      | succ n =>
        rw [List.replicate_succ, splitAtChar_append_cons, splitAtChar_of_notMem hplain,
          List.filter_append, filter_splitAtChar_replicate, hkept, List.append_nil]
    | cons next rest =>
      rw [List.intercalate_cons_cons, List.append_assoc, List.append_assoc, List.singleton_append,
        splitAtChar_append_cons, splitAtChar_of_notMem hplain, List.filter_append, ih hrest, hkept,
        List.singleton_append]

/-- Words of one length with a separator between them. -/
theorem length_intercalate {separator : Char} {words : List (List Char)} {n : Nat}
    (h : ∀ word ∈ words, word.length = n) :
    (List.intercalate [separator] words).length = (n + 1) * words.length - 1 := by
  induction words with
  | nil => rfl
  | cons word rest ih =>
    obtain ⟨hword, hrest⟩ := List.forall_mem_cons.mp h
    cases rest with
    | nil =>
      rw [List.intercalate_singleton, hword, List.length_singleton]
      omega
    | cons next rest =>
      have hpos : 0 < (n + 1) * (next :: rest).length :=
        Nat.mul_pos (Nat.succ_pos n) (Nat.succ_pos rest.length)
      rw [List.intercalate_cons_cons, List.length_append, List.length_append, ih hrest, hword,
        List.length_singleton, List.length_cons (a := word), Nat.mul_succ]
      omega

/-- What is in no word is not between separators. -/
theorem notMem_intercalate {c separator : Char} {words : List (List Char)} (hc : c ≠ separator)
    (h : ∀ word ∈ words, c ∉ word) : c ∉ List.intercalate [separator] words := by
  induction words with
  | nil => exact List.not_mem_nil
  | cons word rest ih =>
    obtain ⟨hword, hrest⟩ := List.forall_mem_cons.mp h
    cases rest with
    | nil => rwa [List.intercalate_singleton]
    | cons next rest =>
      rw [List.intercalate_cons_cons, List.mem_append, List.mem_append, List.mem_singleton]
      rintro ((hmem | heq) | hmem)
      · exact hword hmem
      · exact hc heq
      · exact ih hrest hmem

end Text

namespace Report

open Text

/-! ## Rows -/

/-- The columns of a row that have a byte each: what stands between spaces in a field behind the
address. -/
def byteColumns (row : List Char) : List (List Char) :=
  (splitAtChar ' ' ((row.drop 8).take (dumpWidth * 3 - 1))).filter (!·.isEmpty)

/-- The characters of a row that have a byte each: all that stands behind the field. -/
def charColumn (row : List Char) : List Char := row.drop (8 + (dumpWidth * 3 - 1) + 2)

/-- The byte that a column of two hexadecimal digits denotes. -/
def readColumn? (column : List Char) : Option UInt8 :=
  if column.length = 2 then (readDigits? 16 column).map Nat.toUInt8 else none

/-- A character shows a byte: the byte itself where it is printable, else a dot. -/
def Shows (c : Char) (b : UInt8) : Prop :=
  if 0x20 ≤ b.toNat ∧ b.toNat ≤ 0x7e then c.toNat = b.toNat else c = '.'

/-- A row of a dump, read by its columns. -/
structure RowShows (row : List Char) (address : Nat) (contents : List UInt8) : Prop where
  address : '0' :: 'x' :: (hex 4 address).toList <+: row
  bytes : (byteColumns row).map readColumn? = contents.map some
  chars : List.Forall₂ Shows (charColumn row) contents

/-- The columns of some bytes. -/
def columnsOf (bytes : List UInt8) : List (List Char) := bytes.map fun b => (hex 2 b.toNat).toList

/-- A row without colours, in front of its newline. -/
def plainRow (address : Nat) (bytes : List UInt8) : List Char :=
  ('0' :: 'x' :: (hex 4 address).toList) ++ ([' ', ' '] ++
    ((List.intercalate [' '] (columnsOf bytes) ++
      List.replicate (dumpWidth * 3 - 1 - (List.intercalate [' '] (columnsOf bytes)).length) ' ') ++
      ([' ', ' '] ++ bytes.map dumpChar)))

theorem toList_dumpRow (display : Display) (address : Nat) (bytes : List UInt8) :
    (dumpRow display.uncolored address bytes).toList = plainRow address bytes ++ ['\n'] := by
  have hpaint : ∀ (style : Style) (s : String), style.paint display.uncolored s = s :=
    fun _ _ => rfl
  have hcolumns : (String.intercalate " " (bytes.map fun b => hex 2 b.toNat)).toList =
      List.intercalate [' '] (columnsOf bytes) := by
    rw [String.toList_intercalate, List.map_map]
    rfl
  unfold dumpRow
  simp only [hpaint, String.toList_append, toList_padRight, hcolumns, String.toList_ofList]
  simp [plainRow]

theorem length_column {bytes : List UInt8} {column : List Char} (h : column ∈ columnsOf bytes) :
    column.length = 2 := by
  obtain ⟨b, -, rfl⟩ := List.mem_map.mp h
  exact length_hex (by decide) b.toNat_lt

theorem readColumn?_columnsOf (bytes : List UInt8) :
    (columnsOf bytes).map readColumn? = bytes.map some := by
  rw [columnsOf, List.map_map]
  refine List.map_congr_left fun b _ => ?_
  have hread := readDigits?_hex 2 (toNat_lt_integerBound b)
  rw [Function.comp_apply, readColumn?, if_pos (length_hex (by decide) b.toNat_lt), hread,
    Option.map_some, Nat.toUInt8_eq, UInt8.ofNat_toNat]

theorem shows_dumpChar (b : UInt8) : Shows (dumpChar b) b := by
  have hprintable : (0x20 ≤ b ∧ b ≤ 0x7e) ↔ (0x20 ≤ b.toNat ∧ b.toNat ≤ 0x7e) := Iff.rfl
  unfold Shows dumpChar
  rw [if_congr hprintable rfl rfl]
  split
  · exact toNat_charOfByte b
  · rfl

theorem newline_notMem_hex (width n : Nat) : '\n' ∉ (hex width n).toList := fun h =>
  absurd (isAlphanum_of_mem_hex h) (by decide)

theorem space_notMem_hex (width n : Nat) : ' ' ∉ (hex width n).toList := fun h =>
  absurd (isAlphanum_of_mem_hex h) (by decide)

theorem newline_notMem_plainRow (address : Nat) (bytes : List UInt8) :
    '\n' ∉ plainRow address bytes := by
  have hchar : ∀ b, dumpChar b ≠ '\n' := by
    intro b hb
    have hshows := shows_dumpChar b
    rw [hb] at hshows
    unfold Shows at hshows
    split at hshows
    · next hprintable =>
      rw [← hshows] at hprintable
      exact absurd hprintable (by decide)
    · exact absurd hshows (by decide)
  simp only [plainRow, List.mem_append, List.mem_cons, List.mem_replicate, List.mem_map,
    List.not_mem_nil, not_or, or_false]
  refine ⟨⟨by decide, by decide, newline_notMem_hex 4 address⟩, ⟨by decide, by decide⟩,
    ⟨notMem_intercalate (by decide) ?_, fun h => absurd h.2 (by decide)⟩,
    ⟨by decide, by decide⟩, ?_⟩
  · intro column hcolumn
    obtain ⟨b, -, rfl⟩ := List.mem_map.mp hcolumn
    exact newline_notMem_hex 2 b.toNat
  · rintro ⟨b, -, hb⟩
    exact hchar b hb

theorem length_field {bytes : List UInt8} (h : bytes.length ≤ dumpWidth) :
    (List.intercalate [' '] (columnsOf bytes)).length ≤ dumpWidth * 3 - 1 := by
  rw [length_intercalate fun _ => length_column, columnsOf, List.length_map]
  unfold dumpWidth at *
  omega

/-- The row of at most sixteen bytes at an address of sixteen bits reads back. -/
theorem rowShows_plainRow {address : Nat} {bytes : List UInt8} (haddress : address < 65536)
    (hbytes : bytes.length ≤ dumpWidth) : RowShows (plainRow address bytes) address bytes := by
  have hdigits : (hex 4 address).toList.length = 4 := length_hex (by decide) haddress
  have hfield := length_field hbytes
  have hcolumns : ∀ column ∈ columnsOf bytes, column ≠ [] ∧ ' ' ∉ column := by
    intro column hcolumn
    refine ⟨List.ne_nil_of_length_eq_add_one (length_column hcolumn), ?_⟩
    obtain ⟨b, -, rfl⟩ := List.mem_map.mp hcolumn
    exact space_notMem_hex 2 b.toNat
  obtain ⟨front, hfront⟩ : ∃ front, '0' :: 'x' :: (hex 4 address).toList ++ [' ', ' '] = front :=
    ⟨_, rfl⟩
  obtain ⟨field, hfielded⟩ : ∃ field, List.intercalate [' '] (columnsOf bytes) ++
      List.replicate (dumpWidth * 3 - 1 - (List.intercalate [' '] (columnsOf bytes)).length) ' ' =
      field := ⟨_, rfl⟩
  have hrow : plainRow address bytes = front ++ (field ++ ([' ', ' '] ++ bytes.map dumpChar)) := by
    rw [plainRow, hfielded, ← List.append_assoc, hfront]
  have hfrontLength : front.length = 8 := by
    rw [← hfront]
    simp [hdigits]
  have hfieldLength : field.length = dumpWidth * 3 - 1 := by
    rw [← hfielded, List.length_append, List.length_replicate]
    omega
  refine ⟨?_, ?_, ?_⟩
  · exact List.prefix_append _ _
  · rw [byteColumns, hrow, List.drop_left' hfrontLength, List.take_left' hfieldLength, ← hfielded,
      filter_splitAtChar_intercalate hcolumns, readColumn?_columnsOf]
  · have hlength : ((front ++ field) ++ [' ', ' ']).length = 8 + (dumpWidth * 3 - 1) + 2 := by
      rw [List.length_append, List.length_append, hfrontLength, hfieldLength]
      rfl
    rw [charColumn, hrow, ← List.append_assoc, ← List.append_assoc, List.drop_left' hlength,
      List.forall₂_map_left_iff, List.forall₂_same]
    exact fun b _ => shows_dumpChar b

/-! ## Dumps -/

variable {m : Memory} {address length : Nat}

/-- Rows that read back one by one read back together. -/
theorem readsBack_flatten {rows : List (List Char)} {contents : List (List UInt8)}
    (h : List.Forall₂ (fun row bytes => ∃ address, RowShows row address bytes) rows contents) :
    (rows.flatMap byteColumns).map readColumn? = contents.flatten.map some ∧
      List.Forall₂ Shows (rows.flatMap charColumn) contents.flatten := by
  induction h with
  | nil => exact ⟨rfl, .nil⟩
  | cons hrow _ ih =>
    obtain ⟨address, hrow⟩ := hrow
    obtain ⟨hbytes, hchars⟩ := ih
    rw [List.flatMap_cons, List.flatMap_cons, List.map_append, hrow.bytes, hbytes,
      List.flatten_cons, List.map_append]
    exact ⟨rfl, List.rel_append hrow.chars hchars⟩

/-- A piece of a stretch of memory. -/
theorem take_drop_bytesAt (m : Memory) (address length start width : Nat) :
    ((m.bytesAt address length).drop start).take width =
      m.bytesAt (address + start) (min width (length - start)) := by
  apply List.ext_getElem
  · simp [Memory.length_bytesAt]
  · intro k hk hk'
    simp [Memory.bytesAt, Nat.add_assoc]

theorem finish_uncolored {text : Display → String} (h : Faithful text) (display : Display) :
    finish display.uncolored (text display.uncolored) = text display.uncolored := by
  unfold finish
  split
  · exact decolored_of_strips (h display).remains
  · rfl

/-- The bytes in the row of a dump with a number. -/
def rowBytes (m : Memory) (address length k : Nat) : List UInt8 :=
  ((m.bytesAt address length).drop (dumpWidth * k)).take dumpWidth

/-- A dump of memory without colours, row by row. -/
theorem decolored_memory (display : Display) (h : m.InRange address length) :
    ∃ text, memory display m address length = .ok text ∧
      (decolored text).toList =
        ((List.range ((length + dumpWidth - 1) / dumpWidth)).map fun k =>
          plainRow (address + dumpWidth * k) (rowBytes m address length k)).flatMap
            (· ++ ['\n']) := by
  have hslice : m.slice address length = .ok (m.bytesAt address length) :=
    Memory.slice_eq_ok_iff.mpr ⟨h, rfl⟩
  have hrows := faithful_join fun k (_ : k ∈ List.range ((length + dumpWidth - 1) / dumpWidth)) =>
    faithful_dumpRow (address + dumpWidth * k)
      (m.bytesAt (address + dumpWidth * k) (min dumpWidth (length - dumpWidth * k)))
  refine ⟨_, by rw [memory, hslice]; rfl, ?_⟩
  rw [decolored_of_faithful (faithful_finish hrows) display, finish_uncolored hrows,
    String.toList_join, List.flatMap_map, List.flatMap_map]
  refine List.flatMap_congr fun k _ => ?_
  rw [toList_dumpRow, rowBytes, take_drop_bytesAt]

/-- A dump fails exactly where its range is not in memory. -/
theorem exists_error_memory_iff (display : Display) (m : Memory) (address length : Nat) :
    (∃ e, memory display m address length = .error e) ↔ ¬ m.InRange address length := by
  constructor
  · rintro ⟨e, he⟩ hrange
    obtain ⟨text, hok, -⟩ := decolored_memory display hrange
    rw [hok] at he
    cases he
  · intro hrange
    rcases memory_cases m address length with ⟨e, he, -⟩ | ⟨text, hok, -⟩
    · exact ⟨e, he display⟩
    · obtain ⟨bytes, hslice, -⟩ := Except.bind_eq_ok_iff.mp (hok display)
      exact absurd (Memory.slice_eq_ok_iff.mp hslice).1 hrange

/-- Each row of a dump of memory reads back. -/
theorem rowShows_rowBytes (h : m.InRange address length) {k : Nat}
    (hk : k < (length + dumpWidth - 1) / dumpWidth) :
    RowShows (plainRow (address + dumpWidth * k) (rowBytes m address length k))
      (address + dumpWidth * k) (rowBytes m address length k) := by
  have hstart : dumpWidth * k < length := by
    unfold dumpWidth at *
    omega
  have hin : address + dumpWidth * k ≤ m.layout.lastAddressable.toNat := h _ hstart
  have hlast := m.layout.lastAddressable.toNat_lt
  exact rowShows_plainRow (by omega) (List.length_take_le _ _)

/-- The rows of a dump have all bytes of the range. -/
theorem flatMap_rowBytes (m : Memory) (address length : Nat) :
    (List.range ((length + dumpWidth - 1) / dumpWidth)).flatMap (rowBytes m address length) =
      m.bytesAt address length := by
  refine (List.flatMap_drop_take _ dumpWidth _).trans (List.take_of_length_le ?_)
  rw [Memory.length_bytesAt]
  unfold dumpWidth
  omega

/-- A dump fails exactly where its range is not in memory. Else it has, without colours, a row for
each sixteen bytes and one for what is left; row `k` starts with its address, and the columns of all
rows together give back the bytes of the range in order, in hexadecimal and as characters. -/
theorem memory_readsBack (display : Display) (m : Memory) (address length : Nat) :
    ((∃ e, memory display m address length = .error e) ↔ ¬ m.InRange address length) ∧
      (m.InRange address length → ∃ text rows,
        memory display m address length = .ok text ∧
        splitAtChar '\n' (decolored text).toList = rows ++ [[]] ∧
        rows.length = (length + 15) / 16 ∧
        (∀ k row, rows[k]? = some row → RowShows row (address + 16 * k)
          (((m.bytesAt address length).drop (16 * k)).take 16)) ∧
        (rows.flatMap byteColumns).map readColumn? = (m.bytesAt address length).map some ∧
        List.Forall₂ Shows (rows.flatMap charColumn) (m.bytesAt address length)) := by
  refine ⟨exists_error_memory_iff display m address length, fun hrange => ?_⟩
  obtain ⟨text, hok, htext⟩ := decolored_memory display hrange
  set count := (length + dumpWidth - 1) / dumpWidth with hcount
  set rows := (List.range count).map fun k =>
    plainRow (address + dumpWidth * k) (rowBytes m address length k) with hrows
  have hsplit : splitAtChar '\n' (decolored text).toList = rows ++ [[]] := by
    rw [htext]
    refine splitAtChar_flatMap '\n' fun row hmem => ?_
    obtain ⟨k, -, rfl⟩ := List.mem_map.mp hmem
    exact newline_notMem_plainRow _ _
  have hall : List.Forall₂ (fun row contents => ∃ address, RowShows row address contents) rows
      ((List.range count).map (rowBytes m address length)) := by
    rw [List.forall₂_map_left_iff, List.forall₂_map_right_iff, List.forall₂_same]
    exact fun k hk => ⟨_, rowShows_rowBytes hrange (List.mem_range.mp hk)⟩
  obtain ⟨hbytes, hchars⟩ := readsBack_flatten hall
  rw [← List.flatMap_def, flatMap_rowBytes] at hbytes hchars
  refine ⟨text, rows, hok, hsplit, ?_, fun k row hk => ?_, hbytes, hchars⟩
  · rw [hrows, List.length_map, List.length_range]
    rfl
  · rw [hrows, List.getElem?_map, Option.map_eq_some_iff] at hk
    obtain ⟨k', hk', rfl⟩ := hk
    obtain ⟨hlt, rfl⟩ := List.getElem?_eq_some_iff.mp hk'
    rw [List.getElem_range]
    exact rowShows_rowBytes hrange (by rwa [List.length_range] at hlt)

/-- Twenty bytes up to the last address of a memory, with a text across the rows. -/
theorem memory_readsBack_up_to_the_last_address :
    ∃ m : Memory, m.InRange 12 20 ∧ m.bytesAt 26 5 = [0x48, 0x69, 0, 0xe9, 0x7f] ∧
      ∃ text rows, memory ⟨true, false⟩ m 12 20 = .ok text ∧
        splitAtChar '\n' (decolored text).toList = rows ++ [[]] ∧ rows.length = 2 ∧
        (rows.flatMap byteColumns).map readColumn? = (m.bytesAt 12 20).map some ∧
        List.Forall₂ Shows (rows.flatMap charColumn) (m.bytesAt 12 20) := by
  have hrange :
      ((Memory.zeroed ⟨32, 8, 16⟩).replace 26 [0x48, 0x69, 0, 0xe9, 0x7f]).InRange 12 20 :=
    Memory.inRange_succ_iff.mpr (by decide)
  obtain ⟨-, hreads⟩ := memory_readsBack ⟨true, false⟩
    ((Memory.zeroed ⟨32, 8, 16⟩).replace 26 [0x48, 0x69, 0, 0xe9, 0x7f]) 12 20
  obtain ⟨text, rows, htext, hsplit, hcount, -, hbytes, hchars⟩ := hreads hrange
  exact ⟨_, hrange, by decide, text, rows, htext, hsplit, hcount, hbytes, hchars⟩

end Report

end TeachingCpu
