import TeachingCpu.Proofs.Assembly.Lay
import TeachingCpu.Proofs.Memory
import TeachingCpu.Proofs.Source.Rows

/-!
# Literals of a listing

The literals that a listing writes for bytes are read back exactly (`literals_readBack`): a string
literal scans to one token for its bytes, wherever it stands on a line between other tokens, and the
two lines that declare bytes under a name at an address store these bytes and a zero behind them
there, and nothing else.
-/

namespace TeachingCpu

open Draft (isIdentifier addLine)
open Source (Piece Reads Row Spells contentsOf splitLines tokenize)

namespace Source

/-- A name is in canonical form unless it names a signal. -/
theorem canonical_identifier {name : String} (h : isIdentifier name)
    (hsignal : signal? name = none) : (Piece.word name).Canonical := by
  obtain ⟨c, rest, htext, hstart, hrest⟩ := Draft.exists_of_isIdentifier h
  have hplain : ∀ {c' : Char}, Draft.startsName c' = false → c ≠ c' := by
    rintro c' hc' rfl
    rw [hstart] at hc'
    cases hc'
  have hword : ∀ x ∈ c :: rest, endsWord x = false := fun x hx =>
    endsWord_of_inName (Draft.inName_of_isIdentifier h x (htext ▸ hx))
  have hbracket : bracketed? (c :: rest) = none := by
    unfold bracketed?
    split
    · next heq => exact absurd (List.cons.inj heq).1 (hplain rfl)
    · rfl
  have hsigil : takesNumber c = false := by
    simp only [takesNumber, Bool.or_eq_false_iff, beq_eq_false_iff_ne]
    exact ⟨⟨hplain rfl, hplain rfl⟩, hplain rfl⟩
  refine ⟨⟨?_, ?_, ?_⟩, ?_⟩
  · rw [htext]
    exact List.cons_ne_nil c rest
  · rw [htext]
    exact hword
  · rw [htext]
    exact fun hc => hplain rfl (Option.some.inj hc)
  · unfold canonicalWord
    rw [htext]
    simp only [startsHex_cons_of_ne (hplain rfl) rest, hbracket, hsigil, hsignal,
      Bool.false_eq_true, if_false]

end Source

namespace Listing

/-! ## String literals -/

/-- The text of a string literal for bytes is their text with escapes, between quotes. -/
theorem toList_quoted (bytes : List UInt8) :
    (quoted bytes).toList = Source.stringQuote ::
      ((Text.ofBytes bytes).toList.flatMap Source.quotedChar ++ [Source.stringQuote]) := by
  rw [Source.quoted_eq, Source.quotedText, String.toList_ofList]
  rfl

/-- A string literal between two rows is scanned to one token for its bytes. -/
theorem scanLine_quoted (bytes : List UInt8) {front back : List Char}
    {said said' : List (TokenKind × String)} (hfront : Row front said) (hback : Row back said')
    (offset : Nat) :
    ∃ before after, contentsOf before = said ∧ contentsOf after = said' ∧
      Source.scanLine offset (front ++ ((quoted bytes).toList ++ back)) [] =
        .ok (before ++ ⟨.str, Text.ofBytes bytes, .of (offset + Source.byteLength front)
          (Source.byteLength (quoted bytes).toList)⟩ :: after) := by
  have hscan := Source.scanLine_between hfront hback
    (Source.quoted_flatMap (Text.ofBytes bytes).toList) (Source.newline_notMem_flatMap _) offset
  rwa [← toList_quoted, String.ofList_toList] at hscan

/-- A line with a literal between two rows is the only line of its text. -/
theorem newline_notMem_quoted (bytes : List UInt8) {front back : List Char}
    {said said' : List (TokenKind × String)} (hfront : Row front said) (hback : Row back said') :
    '\n' ∉ front ++ ((quoted bytes).toList ++ back) := by
  have hbody := Source.newline_notMem_flatMap (Text.ofBytes bytes).toList
  rw [toList_quoted]
  simp [Source.newline_notMem_row hfront, Source.newline_notMem_row hback, hbody,
    Source.stringQuote]

/-- A line with a literal between two rows, alone in its text. -/
theorem tokenize_quoted (bytes : List UInt8) {front back : List Char}
    {said said' : List (TokenKind × String)} (hfront : Row front said) (hback : Row back said') :
    ∃ before after, contentsOf before = said ∧ contentsOf after = said' ∧
      tokenize (String.ofList (front ++ ((quoted bytes).toList ++ back))) =
        .ok [⟨1, before ++ ⟨.str, Text.ofBytes bytes, .of (Source.byteLength front)
          (Source.byteLength (quoted bytes).toList)⟩ :: after⟩] := by
  obtain ⟨before, after, hbefore, hafter, hscan⟩ := scanLine_quoted bytes hfront hback 0
  refine ⟨before, after, hbefore, hafter, ?_⟩
  have hlines : splitLines (front ++ ((quoted bytes).toList ++ back)) =
      [front ++ ((quoted bytes).toList ++ back)] :=
    Text.splitAtChar_of_notMem (newline_notMem_quoted bytes hfront hback)
  rw [Nat.zero_add] at hscan
  rw [tokenize, String.toList_ofList, hlines, Source.scanLines_cons_eq_ok_iff]
  refine ⟨_, [], hscan, rfl, ?_⟩
  rw [Source.lineOf, if_neg (by simp), List.append_nil]

/-- A line with a literal between two rows, anywhere in a source. -/
theorem exists_line_of_tokenize {bytes : List UInt8} {front back : List Char}
    {said said' : List (TokenKind × String)} (hfront : Row front said) (hback : Row back said')
    {source : String} {above below : List (List Char)} {lines : List Line}
    (hsource : splitLines source.toList =
      above ++ (front ++ ((quoted bytes).toList ++ back)) :: below)
    (h : tokenize source = .ok lines) :
    ∃ tokens earlier later, lines = earlier ++ ⟨above.length + 1, tokens⟩ :: later ∧
      contentsOf tokens = said ++ (.str, Text.ofBytes bytes) :: said' := by
  rw [tokenize, hsource] at h
  obtain ⟨offset, earlier, rest, hrest, rfl⟩ := Source.exists_of_scanLines_append h
  obtain ⟨tokens, later, htokens, -, rfl⟩ := Source.scanLines_cons_eq_ok_iff.mp hrest
  obtain ⟨before, after, hbefore, hafter, hscan⟩ := scanLine_quoted bytes hfront hback offset
  have hparts := Except.ok.inj (htokens.symm.trans hscan)
  refine ⟨tokens, earlier, later, ?_, ?_⟩
  · rw [Source.lineOf, if_neg (by simp [hparts]), Nat.add_comm]
    rfl
  · rw [← hbefore, ← hafter, hparts, contentsOf, List.map_append]
    rfl

/-! ## Data lines -/

/-- A name that a data line can declare: not a word of data blocks, and not the name of a signal,
which is read as its number. -/
structure IsVariableName (name : String) : Prop where
  identifier : isIdentifier name
  signal : signal? name = none
  ne_end : name ≠ Draft.endWord
  ne_origin : name ≠ Draft.originWord

/-- The two lines that declare some bytes under a name at an address. -/
def declarationLines (name : String) (address : Nat) (bytes : List UInt8) : List String :=
  ["org " ++ toString address, name ++ " " ++ dataLiteral bytes]

/-- A memory that holds some bytes and a zero behind them at an address, and is like another one
elsewhere. -/
def Stores (address : Nat) (bytes : List UInt8) (m m' : Memory) : Prop :=
  m'.layout = m.layout ∧ ∀ k, m'.byteAt k =
    if address ≤ k ∧ k ≤ address + bytes.length then bytes.getD (k - address) 0 else m.byteAt k

variable {name : String} {address : Nat} {bytes : List UInt8}

theorem canonical_origin (address : Nat) :
    ∀ p ∈ [Piece.word "org", .word (toString address)], p.Canonical := by
  simpa using ⟨canonical_org, Source.canonical_number address⟩

theorem canonical_variable (hname : (Piece.word name).Canonical) :
    ∀ p ∈ .word name :: valuePieces bytes, p.Canonical :=
  List.forall_mem_cons.mpr ⟨hname, canonical_valuePieces bytes⟩

theorem spells_origin (address : Nat) :
    Spells ("org " ++ toString address) [.word "org", .word (toString address)] := by
  simpa [Piece.text] using Source.spells_intercalate (canonical_origin address)

theorem spells_variable (hname : (Piece.word name).Canonical) (hbytes : bytes ≠ []) :
    Spells (name ++ " " ++ dataLiteral bytes) (.word name :: valuePieces bytes) := by
  have hcanonical : ∀ p ∈ .word name :: valuePieces bytes, p.Canonical := canonical_variable hname
  have hspells := Source.spells_intercalate hcanonical
  rwa [intercalate_valuePieces, if_neg (by simpa using hbytes)] at hspells

/-- The lines of a declaration are read as they are written, wherever they stand in a source. -/
theorem exists_declaration_of_read (hname : IsVariableName name) (hbytes : bytes ≠ [])
    {source : String} {above below : List (List Char)} {lines : List Line}
    (hsource : splitLines source.toList =
      above ++ (declarationLines name address bytes).map String.toList ++ below)
    (h : Source.read source = .ok lines) :
    ∃ origin declaration earlier later, lines = earlier ++ ([origin, declaration] ++ later) ∧
      origin.number = above.length + 1 ∧ declaration.number = above.length + 2 ∧
      Reads origin [.word "org", .word (toString address)] ∧
      Reads declaration (.word name :: valuePieces bytes) := by
  have hcanonical := Source.canonical_identifier hname.identifier hname.signal
  obtain ⟨scanned, htokenize, hread⟩ := Except.bind_eq_ok_iff.mp h
  rw [tokenize, hsource, List.append_assoc] at htokenize
  obtain ⟨_, earlier, rest, hrest, rfl⟩ := Source.exists_of_scanLines_append htokenize
  obtain ⟨_, origin, behind, hnumber, horigin, hbehind, rfl⟩ :=
    Source.exists_of_scanLines_spells (spells_origin address) hrest
  obtain ⟨_, declaration, later, hnumber', hdeclaration, -, rfl⟩ :=
    Source.exists_of_scanLines_spells (spells_variable hcanonical hbytes) hbehind
  have hkept := Source.mapM_canonicalLine (.cons horigin (.cons hdeclaration .nil))
    (List.forall_mem_cons.mpr ⟨canonical_origin address,
      List.forall_mem_singleton.mpr (canonical_variable hcanonical)⟩)
  obtain ⟨earlier, later, rfl⟩ := Except.exists_of_mapM_append hkept hread
  exact ⟨origin, declaration, earlier, later, rfl, by omega, by omega, horigin, hdeclaration⟩

/-- Both lines of a declaration store its bytes, in any draft with a data block that is open. -/
theorem forM_addLine_declaration {origin declaration : Line} {layout : Layout} {config : Config}
    (horigin : Reads origin [.word "org", .word (toString address)])
    (hdeclaration : Reads declaration (.word name :: valuePieces bytes))
    (hname : IsVariableName name) (hlayout : config.layout = .ok layout)
    (hfits : address + bytes.length < layout.size) {d : Draft} (hd : d.memory.layout = layout)
    (hopen : d.position.isSome) (hnew : d.vars.find? name = none) :
    ∃ d', [origin, declaration].forM addLine d = .ok () d' ∧
      Stores address bytes d.memory d'.memory ∧ d'.vars = d.vars.define name address ∧
      d'.position = some (address + bytes.length + 1) := by
  obtain ⟨hmin, -, hmax⟩ := Config.size_of_layout hlayout
  rw [← hd] at hfits hmax
  have hlast : address + bytes.length ≤ d.memory.layout.lastAddressable.toNat := by
    rw [Layout.lastAddressable_eq hmax]
    omega
  have hfirst := Draft.addLine_origin horigin hopen (by omega) (by omega)
  have hsecond := Draft.addLine_variable (d := { d with position := some address }) hdeclaration rfl
    hname.identifier hname.ne_end hname.ne_origin hnew hlast
  refine ⟨Draft.putGroup { d with vars := d.vars.define name address, position := some address }
    bytes, ?_, ⟨rfl, Memory.byteAt_replace_string hfits⟩, rfl, rfl⟩
  · change (addLine origin >>= fun _ => addLine declaration >>= fun _ => pure ()) d = _
    rw [Attempt.bind_of_ok hfirst, Attempt.bind_of_ok hsecond]
    rfl

/-- A data block with nothing but a declaration stores its bytes in memory, which is zero
elsewhere. -/
theorem read_block {layout : Layout} {config : Config} (hname : IsVariableName name)
    (hbytes : bytes ≠ []) (hlayout : config.layout = .ok layout)
    (hfits : address + bytes.length < layout.size) :
    ∃ d, Draft.read (String.join ((".DATA" :: (declarationLines name address bytes ++ ["end"])).map
        (· ++ "\n"))) config = .ok d ∧
      Stores address bytes (.zeroed layout) d.memory ∧ d.vars.find? name = some address := by
  have hcanonical := Source.canonical_identifier hname.identifier hname.signal
  have hspells : List.Forall₂ Spells (".DATA" :: (declarationLines name address bytes ++ ["end"]))
      [[.word ".DATA"], [.word "org", .word (toString address)], .word name :: valuePieces bytes,
        [.word "end"]] :=
    .cons (spells_word canonical_dataWord) (.cons (spells_origin address)
      (.cons (spells_variable hcanonical hbytes) (.cons (spells_word canonical_end) .nil)))
  obtain ⟨lines, hread, hlines⟩ := Source.read_of_spells hspells <|
    List.forall_mem_cons.mpr ⟨List.forall_mem_singleton.mpr canonical_dataWord,
      List.forall_mem_cons.mpr ⟨canonical_origin address,
        List.forall_mem_cons.mpr ⟨canonical_variable hcanonical,
          List.forall_mem_singleton.mpr (List.forall_mem_singleton.mpr canonical_end)⟩⟩⟩
  obtain ⟨start, _, hstart, hinside, rfl⟩ := List.forall₂_cons_right_iff.mp hlines
  obtain ⟨origin, _, horigin, hbehind, rfl⟩ := List.forall₂_cons_right_iff.mp hinside
  obtain ⟨declaration, _, hdeclaration, hend, rfl⟩ := List.forall₂_cons_right_iff.mp hbehind
  obtain ⟨stop, _, hstop, ⟨⟩, rfl⟩ := List.forall₂_cons_right_iff.mp hend
  have hfirst := Draft.addLine_dataWord (d := .empty layout) hstart rfl
  obtain ⟨d, hadd, hstores, hvars, hposition⟩ := forM_addLine_declaration (d :=
    { Draft.empty layout with position := some 0 }) horigin hdeclaration hname hlayout hfits rfl rfl
    rfl
  obtain ⟨overruns, hlast⟩ := Draft.addLine_end (d := d) hstop (by rw [hposition]; rfl)
  refine ⟨{ d with position := none, overruns }, ?_, hstores, ?_⟩
  · refine Draft.read_eq_ok_iff.mpr ⟨layout, _, hlayout, hread, ?_⟩
    refine Draft.addLines_eq_ok_iff.mpr ⟨?_, rfl⟩
    change (addLine start >>= fun _ => ([origin, declaration] ++ [stop]).forM addLine) _ = _
    rw [Attempt.bind_of_ok hfirst, Draft.forM_append, Attempt.bind_of_ok hadd]
    change (addLine stop >>= fun _ => pure ()) d = _
    rw [Attempt.bind_of_ok hlast]
    rfl
  · rw [hvars]
    exact SymbolTable.find?_define_self _ _ _

/-! ## Reading back -/

/-- Literals of a listing are read back exactly. A string literal scans to one token for its bytes,
alone or between other tokens on its line, and so in any source that is accepted. The lines that
declare bytes, in any open block of a source that is accepted, store the bytes and a zero behind
them at their address and nothing else; a block of its own is accepted. -/
theorem literals_readBack (bytes : List UInt8) :
    (∀ {front back : List Char} {said said' : List (TokenKind × String)},
      Row front said → Row back said' →
        (∃ before after, contentsOf before = said ∧ contentsOf after = said' ∧
          tokenize (String.ofList (front ++ ((quoted bytes).toList ++ back))) =
            .ok [⟨1, before ++ ⟨.str, Text.ofBytes bytes, .of (Source.byteLength front)
              (Source.byteLength (quoted bytes).toList)⟩ :: after⟩]) ∧
        ∀ {source : String} {above below : List (List Char)} {lines : List Line},
          splitLines source.toList =
            above ++ (front ++ ((quoted bytes).toList ++ back)) :: below →
          tokenize source = .ok lines →
          ∃ tokens earlier later, lines = earlier ++ ⟨above.length + 1, tokens⟩ :: later ∧
            contentsOf tokens = said ++ (.str, Text.ofBytes bytes) :: said') ∧
    ∀ {name : String} {address : Nat} {config : Config} {layout : Layout},
      bytes ≠ [] → IsVariableName name → config.layout = .ok layout →
      address + bytes.length < layout.size →
        (∃ d, Draft.read (String.join ((".DATA" :: (declarationLines name address bytes ++
            ["end"])).map (· ++ "\n"))) config = .ok d ∧
          Stores address bytes (.zeroed layout) d.memory ∧ d.vars.find? name = some address) ∧
        ∀ {source : String} {above below : List (List Char)} {lines : List Line},
          splitLines source.toList =
            above ++ (declarationLines name address bytes).map String.toList ++ below →
          Source.read source = .ok lines →
          ∃ origin declaration earlier later, lines = earlier ++ ([origin, declaration] ++ later) ∧
            origin.number = above.length + 1 ∧ declaration.number = above.length + 2 ∧
            ∀ {d : Draft}, d.memory.layout = layout → d.position.isSome →
              d.vars.find? name = none →
              ∃ d', [origin, declaration].forM addLine d = .ok () d' ∧
                Stores address bytes d.memory d'.memory ∧
                d'.vars = d.vars.define name address ∧
                d'.position = some (address + bytes.length + 1) := by
  constructor
  · intro front back said said' hfront hback
    refine ⟨tokenize_quoted bytes hfront hback, fun hsource h => ?_⟩
    exact exists_line_of_tokenize hfront hback hsource h
  · intro name address config layout hbytes hname hlayout hfits
    refine ⟨read_block hname hbytes hlayout hfits, fun hsource h => ?_⟩
    obtain ⟨origin, declaration, earlier, later, hlines, hnumber, hnumber', horigin,
      hdeclaration⟩ := exists_declaration_of_read hname hbytes hsource h
    refine ⟨origin, declaration, earlier, later, hlines, hnumber, hnumber', fun hd hopen hnew => ?_⟩
    exact forM_addLine_declaration horigin hdeclaration hname hlayout hfits hd hopen hnew

/-- A quote, a backslash, a newline, a zero and a byte beyond the printable ones, as the operand of
a statement and as the value of a variable. -/
theorem literals_readBack_quote_and_backslash :
    (∃ before after, contentsOf before = [(.word, "lea")] ∧ contentsOf after = [] ∧
      tokenize (String.ofList (['l', 'e', 'a', ' '] ++
        ((quoted [0x22, 0x5c, 0x0a, 0x00, 0xe9]).toList ++ []))) =
          .ok [⟨1, before ++ ⟨.str, Text.ofBytes [0x22, 0x5c, 0x0a, 0x00, 0xe9],
            .of (Source.byteLength ['l', 'e', 'a', ' '])
              (Source.byteLength (quoted [0x22, 0x5c, 0x0a, 0x00, 0xe9]).toList)⟩ :: after⟩]) ∧
    ∃ d, Draft.read (String.join ((".DATA" :: (declarationLines "text" 32
        [0x22, 0x5c, 0x0a, 0x00, 0xe9] ++ ["end"])).map (· ++ "\n"))) {} = .ok d ∧
      Stores 32 [0x22, 0x5c, 0x0a, 0x00, 0xe9] (.zeroed ⟨4096, 2048, 3072⟩) d.memory ∧
      d.vars.find? "text" = some 32 := by
  have hword : Source.Lexeme ['l', 'e', 'a'] (.word, ['l', 'e', 'a']) :=
    .word (canonical_mnemonic .lea).1
  have hrow : Row ['l', 'e', 'a', ' '] [(.word, "lea")] :=
    .token hword (fun _ => by rintro c ⟨⟩; rfl) (.separator rfl .nil)
  have hname : IsVariableName "text" :=
    ⟨rfl, Source.signal?_of_head rfl (by decide) (by decide), by decide, by decide⟩
  obtain ⟨hscans, hstores⟩ := literals_readBack [0x22, 0x5c, 0x0a, 0x00, 0xe9]
  exact ⟨(hscans hrow .nil).1, (hstores (by decide) hname rfl (by decide)).1⟩

end Listing

end TeachingCpu
