import TeachingCpu.Proofs.Assembly.Alike
import TeachingCpu.Proofs.Assembly.Operands
import TeachingCpu.Proofs.Assembly.Program
import TeachingCpu.Proofs.Assembly.Relayout

/-!
# Listings of assembled programs

The listing of an assembled program can be laid out again (`Assembled.placeable`), and the draft of
its source text has the statements of the program (`Assembled.sameStatements`). The latter needs
that no string literal contains the character with code point zero, which would end it in memory.
-/

namespace TeachingCpu

/-- No string literal that is an operand contains the character with code point zero. -/
def Draft.NulFree (d : Draft) : Prop :=
  ∀ s ∈ d.statements, ∀ t ∈ s.operands, t.kind = .str → '\x00' ∉ t.text.toList

instance (d : Draft) : Decidable d.NulFree := by
  unfold Draft.NulFree
  infer_instance

theorem Draft.Encodes.denotes {d : Draft} {p : StringPool} {t : Token} {o : Operand}
    (h : d.Encodes p t o) (hmode : o.mode ≠ .str) : d.Denotes o.mode o.value.toNat := by
  cases h with
  | literal => exact absurd rfl hmode
  | word _ hword => exact denotes_of_wordOperand hword

/-- The listing of an image with instructions one after the other. -/
def Listing.ofInstructions (image : Image) (instructions : List Instruction) : Listing :=
  ⟨image, listFrom 0 instructions⟩

open Listing (ofInstructions Placeable)

/-! ## Statements of a listing -/

namespace Listing

/-- A token was written for an operand. -/
def Writes (l : Listing) (t : Token) (o : Operand) : Prop :=
  t.content = (l.operandPiece l.targets o).content

section Writes

variable {l : Listing} {t : Token} {o : Operand} (h : l.Writes t o)

include h

theorem Writes.literal (hmode : o.mode = .str) :
    t.kind = .str ∧ t.text = Text.ofBytes (l.groupAt o.value.toNat) := by
  rw [Writes, operandPiece_of_str _ _ hmode] at h
  exact ⟨Token.kind_of_content h, Token.text_of_content h⟩

theorem Writes.word (hmode : o.mode ≠ .str) :
    t.kind ≠ .str ∧ t.text = l.operandSource l.targets o := by
  rw [Writes, operandPiece_of_ne_str _ _ hmode] at h
  refine ⟨?_, Token.text_of_content h⟩
  rw [Token.kind_of_content h]
  exact TokenKind.noConfusion

end Writes

section Restates

variable {l : Listing} {s : Statement} {i : ListedInstruction} (h : Restates l s i)

include h

theorem Restates.opcode : Draft.opcode? s.mnemonic = some i.instruction.opcode := by
  rw [Draft.opcode?, if_pos (Token.kind_of_content h.mnemonic),
    Token.text_of_content h.mnemonic, Opcode.ofMnemonic?_mnemonic]

theorem Restates.writes : List.Forall₂ l.Writes s.operands i.instruction.operands := by
  have hcontents := h.operands
  rw [List.map_map] at hcontents
  exact List.forall₂_of_map_eq_map hcontents

end Restates

/-- The literals in the source text of a listing are groups, which a zero byte would end. -/
theorem Relaid.nulFree {l : Listing} {layout : Layout} {d : Draft} (h : Relaid l layout d) :
    d.NulFree := by
  intro s hs t ht hkind
  obtain ⟨i, -, hrestates⟩ := h.coded.statements.exists_right (List.mem_reverse.mpr hs)
  obtain ⟨o, -, hwrites⟩ := hrestates.writes.exists_right ht
  by_cases hmode : o.mode = .str
  · rw [(hwrites.literal hmode).2, Text.nul_mem_ofBytes_iff]
    exact l.zero_notMem_groupAt _
  · exact absurd hkind (hwrites.word hmode).1

end Listing

namespace Assembled

variable {source : String} {config : Config} {image : Image} {layout : Layout} {d : Draft}
  {p : StringPool} {instructions : List Instruction}
  (h : Assembled source config image layout d p instructions)

include h

/-! ## Operands -/

theorem exists_encodes {o : Operand} (ho : o ∈ (ofInstructions image instructions).operands) :
    ∃ s ∈ d.statementList, ∃ t ∈ s.operands, d.Encodes p t o := by
  obtain ⟨i, hi, ho⟩ := List.mem_flatMap.mp ho
  obtain ⟨s, hs, hlisted⟩ := h.listed.exists_left hi
  obtain ⟨t, ht, hencodes⟩ := hlisted.encodes.operands.exists_left ho
  exact ⟨s, hs, t, ht, hencodes⟩

theorem exists_operand {s : Statement} (hs : s ∈ d.statementList) {t : Token}
    (ht : t ∈ s.operands) :
    ∃ o ∈ (ofInstructions image instructions).operands, d.Encodes p t o := by
  obtain ⟨i, hi, hlisted⟩ := h.listed.exists_right hs
  obtain ⟨o, ho, hencodes⟩ := hlisted.encodes.operands.exists_right ht
  exact ⟨o, List.mem_flatMap.mpr ⟨i, hi, ho⟩, hencodes⟩

/-- Every literal of the pool is the value of an operand. -/
theorem exists_literal {text : String} {address : Nat}
    (hfind : p.interned.find? text = some address) :
    ∃ s ∈ d.statementList, ∃ t ∈ s.operands, t.kind = .str ∧ t.text = text ∧
      address ∈ (ofInstructions image instructions).addresses .str := by
  obtain ⟨s, hs, t, ht, hkind, rfl⟩ := Draft.fromOperands_of_mapM h.pass text address hfind
  obtain ⟨o, ho, hencodes⟩ := h.exists_operand hs ht
  refine ⟨s, hs, t, ht, hkind, rfl, Listing.mem_addresses_iff.mpr ⟨o, ho, ?_⟩⟩
  cases hencodes with
  | word hne => exact absurd hkind hne
  | literal _ hvalue =>
    rw [hfind] at hvalue
    exact ⟨rfl, (Option.some.inj hvalue).symm⟩

/-! ## Memory -/

/-- A group that starts in front of a zero byte ends there or before. -/
theorem groupAt_inside {a stop : Nat} (ha : a < stop) (hzero : p.memory.byteAt (stop - 1) = 0) :
    a + ((ofInstructions image instructions).groupAt a).length < stop := by
  have hbyte : image.memory.getD (a + (stop - 1 - a)) 0 = 0 := by
    rw [h.getD_memory, Nat.add_sub_cancel' (by omega)]
    exact hzero
  have hlength := (ofInstructions image instructions).length_groupAt_le a hbyte
  omega

/-- The variables of data operands lie in the data. -/
theorem data_lt {a : Nat} (ha : a ∈ (ofInstructions image instructions).addresses .data) :
    a < d.dataEnd := by
  obtain ⟨o, ho, hmode, rfl⟩ := Listing.mem_addresses_iff.mp ha
  obtain ⟨s, hs, t, ht, hencodes⟩ := h.exists_encodes ho
  have hdenotes := hencodes.denotes (by simp [hmode])
  rw [hmode] at hdenotes
  obtain ⟨name, hfind⟩ := hdenotes
  exact h.draft.vars name _ hfind

/-- The string literals stand behind the data. -/
theorem le_of_str {a : Nat} (ha : a ∈ (ofInstructions image instructions).addresses .str) :
    d.dataEnd ≤ a := by
  obtain ⟨o, ho, hmode, rfl⟩ := Listing.mem_addresses_iff.mp ha
  obtain ⟨s, hs, t, ht, hencodes⟩ := h.exists_encodes ho
  cases hencodes with
  | literal _ hfind =>
    obtain ⟨bytes, -, hbehind, -⟩ := h.pool.literals _ _ hfind
    exact hbehind
  | word _ hword =>
    obtain rfl : _ = Mode.str := hmode
    exact False.elim (Draft.denotes_of_wordOperand hword)

/-- What the listing declares ends where the pool of literals does, or before. -/
theorem dataEnd_le_next : (ofInstructions image instructions).dataEnd ≤ p.next := by
  rw [Listing.dataEnd, Listing.endOf_le_iff]
  intro a ha
  have hlt : a < p.next := by
    rcases List.mem_append.mp ha with ha | ha
    · exact Nat.lt_of_lt_of_le (h.data_lt ha) h.pool.start
    · by_contra hge
      have hbyte : image.memory.getD a 0 ≠ 0 := (Listing.mem_unreached_iff.mp ha).1.1
      rw [h.getD_memory] at hbyte
      exact hbyte (h.pool.zero a (by omega))
  exact h.groupAt_inside hlt (h.pool.zero _ (by omega))

theorem follow : Listing.Follow 0 (Listing.listFrom 0 instructions) image.rom.length := by
  have hlength : image.rom.length ≤ 65535 := by
    rw [h.length_rom]
    exact h.draft.code.length
  rw [h.rom] at hlength ⊢
  have hfollow : Listing.Follow 0 (Listing.listFrom 0 instructions) (0 + _) :=
    Listing.follow_listFrom h.complete (by rwa [Nat.zero_add])
  rwa [Nat.zero_add] at hfollow

/-- The listing can be laid out again. -/
theorem placeable : Placeable (ofInstructions image instructions) layout := by
  obtain ⟨-, hmin, hmax⟩ := Config.size_of_layout h.layout_eq
  have hlast := Layout.lastAddressable_eq hmax
  have hbound := h.pool.bound
  rw [h.pool.layout, h.draft.layout] at hbound
  have hend := h.dataEnd_le_next
  refine ⟨hmax, by omega, ?_, ?_, h.follow, ?_⟩
  · have hle := h.length_memory_le
    exact Nat.le_of_lt (Text.lt_integerBound (Nat.le_trans hle hmax))
  · intro i hi
    have hmem : i.instruction ∈ instructions := by
      rw [← Listing.map_instruction_listFrom 0 instructions]
      exact List.mem_map_of_mem hi
    exact h.complete _ hmem
  · show image.rom.length ≤ 65535
    rw [h.length_rom]
    exact h.draft.code.length

theorem byteAt_of_literals (hnone : ∀ text, p.interned.find? text = none) (k : Nat) :
    p.memory.byteAt k = d.memory.byteAt k := by
  rcases Nat.lt_or_ge k d.dataEnd with hk | hk
  · exact h.pool.data k hk
  · rw [h.draft.data.zero k (by omega)]
    by_contra hbyte
    obtain ⟨text, address, bytes, hfind, -⟩ := h.pool.covered k hk hbyte
    rw [hnone] at hfind
    cases hfind

section NulFree

variable (hnul : d.NulFree)

include hnul

/-- A literal stands in memory as the group at its address. -/
theorem literal_groupAt {text : String} {address : Nat}
    (hfind : p.interned.find? text = some address) :
    ∃ bytes, Text.toBytes text = .ok bytes ∧ 0 ∉ bytes ∧
      (ofInstructions image instructions).groupAt address = bytes := by
  obtain ⟨bytes, hbytes, -, -, hholds⟩ := h.pool.literals text address hfind
  obtain ⟨s, hs, t, ht, hkind, rfl, -⟩ := h.exists_literal hfind
  have hzero := Text.zero_notMem_of_toBytes hbytes (hnul s (List.mem_reverse.mp hs) t ht hkind)
  refine ⟨bytes, hbytes, hzero, Listing.groupAt_eq _ _ hzero ?_⟩
  intro k hk
  show image.memory.getD (address + k) 0 = _
  rw [h.getD_memory]
  exact hholds k hk

/-- A run of bytes that no operand reaches belongs to the data. -/
theorem unreached_lt {a : Nat} (ha : a ∈ (ofInstructions image instructions).unreached) :
    a < d.dataEnd := by
  obtain ⟨⟨hbyte, hbefore⟩, -, hstr⟩ := Listing.mem_unreached_iff.mp ha
  by_contra hge
  have hbyte' : p.memory.byteAt a ≠ 0 := by
    rw [← h.getD_memory]
    exact hbyte
  obtain ⟨text, address, bytes, hfind, hbytes, hle, hlt⟩ :=
    h.pool.covered a (Nat.le_of_not_lt hge) hbyte'
  obtain ⟨s, hs, t, ht, hkind, rfl, haddress⟩ := h.exists_literal hfind
  rcases Nat.eq_or_lt_of_le hle with rfl | hinside
  · exact hstr haddress
  · -- The byte in front of the run belongs to the literal too, so it is not zero.
    obtain ⟨bytes', hbytes', hzero, hgroup⟩ := h.literal_groupAt hnul hfind
    rw [hbytes] at hbytes'
    cases hbytes'
    have hk : a - 1 - address < ((ofInstructions image instructions).groupAt address).length := by
      rw [hgroup]
      omega
    have hnonzero := ((ofInstructions image instructions).getD_groupAt address hk).2
    rw [show address + (a - 1 - address) = a - 1 by omega] at hnonzero
    rcases hbefore with rfl | hbefore
    · omega
    · exact hnonzero hbefore

/-- The listing declares no memory behind the data. -/
theorem dataEnd_le : (ofInstructions image instructions).dataEnd ≤ d.dataEnd := by
  rw [Listing.dataEnd, Listing.endOf_le_iff]
  intro a ha
  have hlt : a < d.dataEnd := by
    rcases List.mem_append.mp ha with ha | ha
    · exact h.data_lt ha
    · exact h.unreached_lt hnul ha
  apply h.groupAt_inside hlt
  rw [h.pool.data _ (by omega)]
  exact h.draft.data.zero _ (by omega)

end NulFree

/-! ## Statements -/

theorem exists_offset {n : Nat} {name : String} (hfind : d.labels.find? name = some n) :
    n.toUInt16 ∈ (ofInstructions image instructions).instructions.map (·.offset) ++
      [image.rom.length.toUInt16] := by
  rw [h.length_rom]
  rcases h.draft.code.labels name n hfind with rfl | ⟨s, hs, rfl⟩
  · exact List.mem_append_right _ (List.mem_singleton_self _)
  · obtain ⟨i, hi, hlisted⟩ := h.listed.exists_right hs
    rw [← hlisted.offset]
    exact List.mem_append_left _ (List.mem_map_of_mem hi)

section Restated

variable {d' : Draft} (hd' : Listing.Relaid (ofInstructions image instructions) layout d')

include hd'

/-- A label operand is written as a label that stands at its value. -/
theorem exists_label {value : UInt8}
    (ho : ⟨.label, value⟩ ∈ (ofInstructions image instructions).operands) {other : String}
    (hfind : d.labels.find? other = some value.toNat) :
    ∃ name, (ofInstructions image instructions).labelAt?
        (ofInstructions image instructions).targets value.toUInt16 = some name ∧
      d'.labels.find? name = some value.toNat := by
  have htoNat : value.toUInt16.toNat = value.toNat := by simp
  have hbyte : value.toNat.toUInt16 = value.toUInt16 := UInt16.ofNat_uInt8ToNat _
  have hoffset := h.exists_offset hfind
  rw [hbyte] at hoffset
  have htarget : value.toUInt16.toNat ∈ (ofInstructions image instructions).targets :=
    Listing.mem_addresses_iff.mpr ⟨_, ho, rfl, htoNat.symm⟩
  obtain ⟨name, hlabel⟩ := Listing.exists_labelAt? (l := ofInstructions image instructions) htarget
  exact ⟨name, hlabel, (hd'.coded.labels name _).mpr ⟨_, hoffset, htoNat, hlabel⟩⟩

/-- An operand that is no string literal is written as a word with its mode and value. -/
theorem wordOperand_operandSource {o : Operand}
    (ho : o ∈ (ofInstructions image instructions).operands) (hmode : o.mode ≠ .str) :
    d'.wordOperand ((ofInstructions image instructions).operandSource
      (ofInstructions image instructions).targets o) = .ok (o.mode, o.value.toNat) := by
  obtain ⟨s, hs, t, ht, hencodes⟩ := h.exists_encodes ho
  have hdenotes := hencodes.denotes hmode
  obtain ⟨mode, value⟩ := o
  have hsmall := Text.toNat_lt_integerBound value
  cases mode with
  | str => exact absurd rfl hmode
  | direct => exact d'.wordOperand_number (c := '&') rfl (by decide) hsmall
  | indirect => exact d'.wordOperand_number (c := '*') rfl (by decide) hsmall
  | immediate => exact d'.wordOperand_number (c := '$') rfl (by decide) hsmall
  | register =>
    obtain ⟨r, hr⟩ := hdenotes
    dsimp only at hr
    have hid : Register.ofId? value.toNat = some r := by
      rw [hr, Register.ofId?_id]
    show d'.wordOperand (Operand.text ⟨.register, value⟩) = .ok (.register, value.toNat)
    rw [Listing.text_register hid, hr]
    exact d'.wordOperand_register r
  | data =>
    apply Draft.wordOperand_data
    rw [hd'.declared.vars, Listing.mem_declaredVariables_iff]
    exact .inl ⟨Listing.mem_addresses_iff.mpr ⟨_, ho, rfl, rfl⟩, rfl⟩
  | label =>
    obtain ⟨other, hfind⟩ := hdenotes
    obtain ⟨name, hlabel, hfind'⟩ := h.exists_label hd' ho hfind
    show d'.wordOperand (((ofInstructions image instructions).labelAt? _ value.toUInt16).getD _) = _
    rw [hlabel, Option.getD_some]
    exact d'.wordOperand_label (Listing.isName_of_labelAt? hlabel).identifier hfind'

/-- The tokens of an operand, in the source of the program and in that of its listing. -/
theorem sameToken (hnul : d.NulFree) {t t' : Token} {o : Operand}
    (ho : o ∈ (ofInstructions image instructions).operands) (hencodes : d.Encodes p t o)
    (ht' : (ofInstructions image instructions).Writes t' o) : d.SameToken d' t t' := by
  cases hencodes with
  | literal hkind hfind =>
    obtain ⟨bytes, hbytes, -, hgroup⟩ := h.literal_groupAt hnul hfind
    obtain ⟨hkind', htext⟩ := ht'.literal rfl
    rw [hgroup, Text.ofBytes_of_toBytes hbytes] at htext
    exact .literal hkind hkind' htext
  | @word mode value hkind hword =>
    have hmode : mode ≠ .str := by
      intro heq
      subst heq
      exact Draft.denotes_of_wordOperand hword
    have hwritten := h.wordOperand_operandSource hd' ho hmode
    obtain ⟨hkind', htext⟩ := ht'.word hmode
    exact .word hkind hkind' (by rw [htext, hwritten, hword])

/-- The source text of the listing has the statements of the program. -/
theorem sameStatements (hnul : d.NulFree) :
    List.Forall₂ (d.SameStatement d') d.statementList d'.statementList := by
  refine h.listed.mem_right.through ?_ hd'.coded.statements.flip
  rintro s i s' ⟨hi, hs⟩ (hs' : Listing.Restates _ s' i)
  constructor
  · rw [hs.encodes.opcode, hs'.opcode]
  · refine hs.encodes.operands.mem_right.through ?_ hs'.writes.flip
    intro t o t' hparts ht'
    rcases hparts with ⟨ho, ht⟩
    exact h.sameToken hd' hnul (List.mem_flatMap.mpr ⟨i, hi, ho⟩) ht ht'

end Restated

end Assembled

end TeachingCpu
