import WordMachine.Assembly.Resolution
import WordMachine.Proofs.StringData

/-!
# Sources that one string fills

One string can have more bytes than 32 bits count.  The cursor behind it is as many
bytes behind the start of the data as 32 bits keep of their number: a label that
follows stands there, and what the string puts behind that is in the program all the
same.  If the start of the data and the bytes that are kept do not fit 32 bits together,
the assembler breaks down.
-/

namespace WordMachine

open Text

/-! ## Reading the lines -/

namespace Text

theorem lineParts_of_ended {line : Text} (hline : '\n' ∉ line) :
    lineParts (line ++ ['\n']) = [line ++ ['\n']] := by
  induction line with
  | nil => rfl
  | cons c line ih =>
      have hc : c ≠ '\n' := fun hend => hline (by simp [hend])
      rw [List.cons_append, lineParts, if_neg hc, ih fun hmem => hline (by simp [hmem])]

theorem lines_of_ended {front : Text} {c : Char} (hline : '\n' ∉ front ++ [c]) (hc : c ≠ '\r') :
    lines (front ++ [c] ++ ['\n']) = [front ++ [c]] := by
  rw [lines, lineParts_of_ended hline, List.map_singleton]
  simp [dropLineEnd, hc]

theorem width_replicate (count : Nat) : width (List.replicate count 'a') = count := by
  induction count with
  | zero => rfl
  | succ count ih =>
      have hsize : Char.utf8Size 'a' = 1 := rfl
      rw [List.replicate_succ, width_cons, ih, hsize, Nat.add_comm]

/-- The line of the string. -/
def filling (text : Text) : Text := ".ASCII ".toList ++ doubleQuoted text

/-- Data from address 1 on, which is one string, and a label behind it. -/
def filledSource (text : Text) : Text :=
  ".DATA\n.ORG 1\n".toList ++ filling text ++ "\nx:".toList

theorem lines_filledSource (text : Text) :
    lines (filledSource text) =
      [".DATA".toList, ".ORG 1".toList, filling text, "x:".toList] := by
  have hline : '\n' ∉ filling text := by
    intro hmem
    rcases List.mem_append.mp hmem with hword | hquoted
    · exact absurd hword (by decide)
    · exact not_mem_newline_doubleQuoted text hquoted
  have hends : filling text = (".ASCII ".toList ++ '"' :: text.flatMap escaped) ++ ['"'] :=
    (List.append_assoc ..).symm
  have hfirst : lines (".DATA".toList ++ ['\n']) = [".DATA".toList] := by rfl
  have hsecond : lines (".ORG 1".toList ++ ['\n']) = [".ORG 1".toList] := by rfl
  have hlast : lines "x:".toList = ["x:".toList] := by rfl
  have hthird : lines (filling text ++ ['\n']) = [filling text] := by
    rw [hends] at hline ⊢
    exact lines_of_ended hline (by decide)
  have hsource : filledSource text =
      ".DATA".toList ++ '\n' ::
        (".ORG 1".toList ++ '\n' :: (filling text ++ '\n' :: "x:".toList)) :=
    List.append_assoc ..
  rw [hsource, lines_append, hfirst, lines_append, hsecond, lines_append, hlast, hthird]
  rfl

end Text

namespace SourceLine

/-- A statement without a label is read as that. -/
theorem read?_statement {statement : Text} (htight : IsTight statement) (hcode : IsCode statement)
    (hlabel : splitLabel? statement = none) (number : Nat) :
    read? number statement =
      some { number, code := statement, label := none, statement := some ⟨statement, 1⟩ } := by
  have hstrip : stripComment .outside statement = statement := by simpa using hcode []
  simp [read?, hstrip, htight.trimRight_eq, splitCode, Piece.trimmed_of_isTight htight, hlabel,
    htight.ne_nil]

def originLine : SourceLine :=
  { number := 2, code := ".ORG 1".toList, label := none, statement := some ⟨".ORG 1".toList, 1⟩ }

def fillingLine (text : Text) : SourceLine :=
  { number := 3, code := filling text, label := none, statement := some ⟨filling text, 1⟩ }

def behindLine : SourceLine :=
  { number := 4, code := "x:".toList, label := some ⟨"x".toList, 1⟩, statement := none }

theorem ofText_filledSource (text : Text) :
    ofText (filledSource text) = [dataLine, originLine, fillingLine text, behindLine] := by
  have hquoted := isTight_doubleQuoted text
  have htight : IsTight (filling text) := by
    have hword : IsTight ".ASCII".toList :=
      ⟨⟨'.', "ASCII".toList, rfl, rfl⟩, ⟨".ASCI".toList, 'I', rfl, rfl⟩⟩
    exact hword.append [' '] hquoted
  have hcode : IsCode (filling text) := by
    have hfront : IsCode ".ASCII ".toList := .of_plain (by simp)
    exact hfront.append (isCode_doubleQuoted text)
  have hlabel : splitLabel? (filling text) = none := by
    apply splitLabel?_of_head?_ne
    have hword : ∀ c ∈ ".ASCII".toList, isLabelChar c = true := List.all_eq_true.mp rfl
    have hblank : isLabelChar ' ' = false := rfl
    have hafter : (filling text).dropWhile isLabelChar = ' ' :: doubleQuoted text :=
      dropWhile_stop hword hblank (doubleQuoted text)
    rw [hafter, trimLeft_blank rfl, hquoted.trimLeft_eq]
    simp [doubleQuoted]
  have hfirst : read? 1 ".DATA".toList = some dataLine := by rfl
  have hsecond : read? 2 ".ORG 1".toList = some originLine := by rfl
  have hthird : read? 3 (filling text) = some (fillingLine text) :=
    read?_statement htight hcode hlabel 3
  have hfourth : read? 4 "x:".toList = some behindLine := by rfl
  rw [ofText, lines_filledSource]
  simp only [List.zipIdx_cons, List.zipIdx_nil, List.filterMap_cons, List.filterMap_nil,
    Nat.reduceAdd, hfirst, hsecond, hthird, hfourth]

end SourceLine

/-! ## Placing the lines -/

namespace Layout

/-- The layout behind the string. -/
def filled (text : Text) : Layout :=
  { current := .data, data := (utf8 text).toArray, dataStart := 1 }

theorem size_data_filled (text : Text) : (filled text).data.size = width text := length_utf8 text

theorem dataCursor_filled (text : Text) :
    (filled text).dataCursor = 1 + width text % 4294967296 := by
  rw [dataCursor, size_data_filled]
  rfl

theorem placeStatement_filling (text : Text) :
    placeStatement { current := .data, dataStart := 1 } ⟨filling text, 1⟩ 3 =
      ((filled text).checkedCursor >>= fun cursor =>
        if addressSpace < cursor then reject .dataOverflow 3 1 else .ok (filled text)) := by
  have hword : ∀ c ∈ ".ASCII".toList, isBlank c = false := by simp [isBlank, blankRanges]
  have hdirective : Directive.ofText? ".ASCII".toList = some .ascii := by rfl
  have hlist : quotedList [text] = doubleQuoted text := List.intercalate_singleton
  obtain ⟨pieces, hsome, hpieces, hread⟩ :=
    exists_pieces (List.cons_ne_nil text []) 3 (1 + width ".ASCII".toList + 1)
  have happly : apply { current := .data, dataStart := 1 } .ascii 3 1 pieces =
      .ok (filled text) := by
    have hbytes : List.Forall₂ (fun piece part => stringArgument 3 piece = .ok part)
        pieces ([text].map utf8) := List.forall₂_map_right_iff.mpr hread
    have hemitted : emit { current := .data, dataStart := 1 } ([text].map utf8).flatten =
        filled text := by
      simp [emit, filled]
    rw [← hemitted]
    exact emitEach_of_forall₂ _ hsome hbytes
  rw [hlist] at hpieces
  have hstatement : placeStatement { current := .data, dataStart := 1 } ⟨filling text, 1⟩ 3 =
      placeDirective { current := .data, dataStart := 1 }
        ⟨".ASCII".toList ++ ' ' :: doubleQuoted text, 1⟩ 3 := by rfl
  rw [hstatement]
  exact placeDirective_list hword (isTight_doubleQuoted text) hdirective rfl hpieces happly

/-- The string is placed if the cursor behind it is inside memory. -/
theorem ofLines_filling {text : Text} (hcursor : (filled text).dataCursor ≤ addressSpace) :
    ofLines [.dataLine, .originLine, .fillingLine text] = .ok (filled text) := by
  have hcounted : (filled text).checkedCursor = .ok (filled text).dataCursor :=
    checkedCursor_eq_ok_iff.mpr ⟨Nat.lt_of_le_of_lt hcursor (by decide), rfl⟩
  have hplace : place { current := .data, dataStart := 1 } (.fillingLine text) =
      .ok (filled text) := by
    have hstatement := placeStatement_filling text
    rw [hcounted, ok_bind, if_neg (Nat.not_lt_of_le hcursor)] at hstatement
    exact hstatement
  have hfirst : place {} .dataLine = .ok { current := .data } := by rfl
  have hsecond : place { current := .data } .originLine =
      .ok { current := .data, dataStart := 1 } := by rfl
  rw [ofLines, List.foldlM_cons, hfirst, ok_bind, List.foldlM_cons, hsecond, ok_bind,
    List.foldlM_cons, hplace, ok_bind, List.foldlM_nil]
  rfl

end Layout

/-- The program of a string that is placed, with the label where the cursor is. -/
def Program.filled (text : Text) : Program where
  instructions := #[]
  symbols :=
    ⟨[{ name := "x".toList, value := (Layout.filled text).dataCursor, kind := .data, line := 4 }]⟩
  data := (utf8 text).toArray
  textStart := 0
  dataStart := 1

theorem assemble_filledSource {text : Text}
    (hcursor : (Layout.filled text).dataCursor < addressSpace) :
    assemble (filledSource text) = .ok (.filled text) := by
  have hlayout := Layout.ofLines_filling (Nat.le_of_lt hcursor)
  have hcounted : (Layout.filled text).checkedCursor = .ok (Layout.filled text).dataCursor :=
    Layout.checkedCursor_eq_ok_iff.mpr ⟨Nat.lt_trans hcursor (by decide), rfl⟩
  have hlabel : (Layout.filled text).placeLabel ⟨"x".toList, 1⟩ 4 =
      .ok { Layout.filled text with symbols := (Program.filled text).symbols } := by
    have hname : Layout.isDefinable "x".toList = true := by rfl
    rw [Layout.placeLabel, hname]
    have hcurrent : (Layout.filled text).current = .data := rfl
    rw [hcurrent]
    simp only [hcounted, ok_bind, if_neg (Nat.not_le_of_lt hcursor)]
    rfl
  have hlast : (Layout.filled text).place .behindLine =
      .ok { Layout.filled text with symbols := (Program.filled text).symbols } := by
    rw [Layout.place, SourceLine.behindLine]
    simp only [hlabel, ok_bind]
  have hlines : [SourceLine.dataLine, .originLine, .fillingLine text, .behindLine] =
      [.dataLine, .originLine, .fillingLine text] ++ [.behindLine] := rfl
  rw [Layout.ofLines] at hlayout
  rw [assemble, Layout.ofText, SourceLine.ofText_filledSource, Layout.ofLines, hlines,
    List.foldlM_append, hlayout, ok_bind, List.foldlM_cons, hlast, ok_bind, List.foldlM_nil]
  rfl

/-- Where the cursor does not fit 32 bits, the assembler breaks down. -/
theorem assemble_filledSource_overflow {text : Text}
    (hcursor : 4294967296 ≤ (Layout.filled text).dataCursor) :
    assemble (filledSource text) = .error .overflow := by
  have hoverflow : (Layout.filled text).checkedCursor = .error .overflow := by
    rw [Layout.checkedCursor, if_neg (Nat.not_lt_of_le hcursor)]
  have hplace : Layout.place { current := .data, dataStart := 1 } (.fillingLine text) =
      .error .overflow := by
    have hstatement := Layout.placeStatement_filling text
    rw [hoverflow] at hstatement
    exact hstatement
  have hfirst : Layout.place {} .dataLine = .ok { current := .data } := by rfl
  have hsecond : Layout.place { current := .data } .originLine =
      .ok { current := .data, dataStart := 1 } := by rfl
  rw [assemble, Layout.ofText, SourceLine.ofText_filledSource, Layout.ofLines,
    List.foldlM_cons, hfirst, ok_bind, List.foldlM_cons, hsecond, ok_bind, List.foldlM_cons, hplace]
  rfl

end WordMachine
