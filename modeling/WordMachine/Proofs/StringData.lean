import WordMachine.Proofs.CommentedSources
import WordMachine.Proofs.LayoutSteps
import WordMachine.Proofs.OperandLists
import WordMachine.Proofs.QuotedLiterals

/-!
# String data through the assembler

A text in double quotes, with a backslash before every backslash and double quote
and `\n` for every newline, is one literal to every scan of the line.  So a list
of such literals comes through the cutting of comments, labels and operands
whole, and the data section of the program holds the bytes of the texts.
-/

namespace WordMachine

open Text

/-! ## Writing a literal -/

/-- How a character stands in a literal in double quotes. -/
def Text.escaped (c : Char) : Text :=
  if c = '\\' then ['\\', '\\']
  else if c = '"' then ['\\', '"']
  else if c = '\n' then ['\\', 'n']
  else [c]

def Text.doubleQuoted (text : Text) : Text := '"' :: text.flatMap escaped ++ ['"']

theorem escaped_cases (c : Char) :
    (∃ escape, escaped c = ['\\', escape] ∧ escapeValue escape = some c ∧ escape ≠ '\n') ∨
      (escaped c = [c] ∧ c ≠ '\\' ∧ c ≠ '"' ∧ c ≠ '\n') := by
  unfold escaped
  split_ifs with hbackslash hquote hnewline
  · subst hbackslash
    exact .inl ⟨'\\', rfl, rfl, by decide⟩
  · subst hquote
    exact .inl ⟨'"', rfl, rfl, by decide⟩
  · subst hnewline
    exact .inl ⟨'n', rfl, rfl, by decide⟩
  · exact .inr ⟨rfl, hbackslash, hquote, hnewline⟩

theorem unescape_flatMap_escaped (text : Text) : unescape (text.flatMap escaped) = .ok text := by
  induction text with
  | nil => rfl
  | cons c text ih =>
      rw [List.flatMap_cons]
      rcases escaped_cases c with ⟨escape, hc, hvalue, -⟩ | ⟨hc, hplain, -, -⟩
      · simp [hc, unescape_escape hvalue, ih]
      · simp [hc, unescape_plain hplain, ih]

theorem bytes_doubleQuoted (text : Text) :
    Literal.bytes (doubleQuoted text) = .ok (utf8 text) := by
  have hbody : Literal.body? '"' (text.flatMap escaped ++ ['"']) = some (text.flatMap escaped) :=
    body?_eq_some_iff.mpr rfl
  have hquote : Quoting.isQuote '"' = true := rfl
  simp [Literal.bytes, doubleQuoted, hquote, hbody, Literal.readBody, unescape_flatMap_escaped]

theorem not_mem_newline_doubleQuoted (text : Text) : '\n' ∉ doubleQuoted text := by
  have hescaped : ∀ c, '\n' ∉ escaped c := by
    intro c
    rcases escaped_cases c with ⟨escape, hc, -, hescape⟩ | ⟨hc, -, -, hnewline⟩
    · simp [hc, Ne.symm hescape]
    · simp [hc, Ne.symm hnewline]
  simp [doubleQuoted, hescaped]

theorem isTight_doubleQuoted (text : Text) : IsTight (doubleQuoted text) :=
  ⟨⟨'"', _, rfl, by decide⟩, ⟨'"' :: text.flatMap escaped, '"', rfl, by decide⟩⟩

/-- The scan of a literal passes over what stands between its quotes. -/
theorem closing_flatMap_escaped (text rest : Text) :
    (Quoting.inside '"').closing (text.flatMap escaped ++ '"' :: rest) =
      (text.flatMap escaped ++ ['"'], rest) := by
  induction text with
  | nil => rfl
  | cons c text ih =>
      rw [List.flatMap_cons]
      rcases escaped_cases c with ⟨escape, hc, -, -⟩ | ⟨hc, hplain, hquote, -⟩
      · simp [hc, Quoting.closing, Quoting.next, ih]
      · simp [hc, Quoting.closing, Quoting.next, hplain, hquote, ih]

theorem doubleQuoted_append (text rest : Text) :
    doubleQuoted text ++ rest = '"' :: (text.flatMap escaped ++ '"' :: rest) := by
  simp [doubleQuoted]

theorem literal_doubleQuoted (text rest : Text) :
    literal (doubleQuoted text ++ rest) = (doubleQuoted text, rest) := by
  rw [doubleQuoted_append, literal, closing_flatMap_escaped]
  rfl

theorem isWhole_doubleQuoted (text : Text) : Piece.IsWhole (doubleQuoted text) := by
  intro rest
  rw [doubleQuoted_append, Piece.segments?_of_quote rfl, ← doubleQuoted_append,
    literal_doubleQuoted]

theorem isCode_doubleQuoted (text : Text) : SourceLine.IsCode (doubleQuoted text) := by
  intro rest
  rw [doubleQuoted_append, SourceLine.stripComment_of_quote rfl, ← doubleQuoted_append,
    literal_doubleQuoted]

/-! ## The line of a label -/

namespace SourceLine

/-- A label, a blank and a statement are read as these. -/
theorem read?_labelled {name statement : Text} (hlabel : ∀ c ∈ name, isLabelChar c = true)
    (hname : IsTight name) (hstatement : IsTight statement)
    (hcode : IsCode (name ++ ':' :: ' ' :: statement)) (number : Nat) :
    ∃ column,
      read? number (name ++ ':' :: ' ' :: statement) =
        some
          { number
            code := name ++ ':' :: ' ' :: statement
            label := some ⟨name, 1⟩
            statement := some ⟨statement, column⟩ } := by
  have htight : IsTight (name ++ ':' :: ' ' :: statement) := by
    simpa using hname.append [':', ' '] hstatement
  have hstrip : stripComment .outside (name ++ ':' :: ' ' :: statement) =
      name ++ ':' :: ' ' :: statement := by
    simpa using hcode []
  have hsplit : splitLabel? (name ++ ':' :: ' ' :: statement) = some (name, ' ' :: statement) := by
    have hcolon : isLabelChar ':' = false := rfl
    have hvisible : isBlank ':' = false := rfl
    simp [splitLabel?, takeWhile_stop hlabel hcolon, dropWhile_stop hlabel hcolon,
      trimLeft_cons hvisible, hname.ne_nil]
  have hblank : isBlank ' ' = true := rfl
  simp [read?, hstrip, htight.trimRight_eq, splitCode, Piece.trimmed_of_isTight htight, hsplit,
    hstatement.trim_blank hblank, hstatement.ne_nil, Piece.trimmed_blank hstatement]

end SourceLine

/-! ## Placing the data -/

/-- The strings of a directive, separated by commas. -/
def Text.quotedList (texts : List Text) : Text := [','].intercalate (texts.map doubleQuoted)

/-- A source that defines one label and, behind it, strings that end in a zero byte. -/
def Text.stringSource (texts : List Text) : Text :=
  ".DATA\nx: .ASCIZ ".toList ++ quotedList texts

/-- The bytes of the strings, each with a zero behind it. -/
def Text.zeroTerminated (texts : List Text) : List UInt8 :=
  texts.flatMap fun text => utf8 text ++ [0]

theorem length_zeroTerminated (texts : List Text) :
    (zeroTerminated texts).length = (texts.flatMap utf8).length + texts.length := by
  induction texts with
  | nil => rfl
  | cons text texts ih =>
      simp only [zeroTerminated, List.flatMap_cons, List.length_append, List.length_cons,
        List.length_nil] at ih ⊢
      omega

variable {texts : List Text}

theorem isTight_quotedList (hne : texts ≠ []) : IsTight (quotedList texts) := by
  apply Piece.isTight_intercalate (by simpa using hne)
  simpa using fun text _ => isTight_doubleQuoted text

theorem isCode_quotedList (hne : texts ≠ []) : SourceLine.IsCode (quotedList texts) := by
  have hcomma : SourceLine.IsCode [','] := .of_plain (by simp)
  apply Piece.intercalate_induction (by simpa using hne)
  · simpa using fun text _ => isCode_doubleQuoted text
  · exact fun a b ha hb => (ha.append hcomma).append hb

theorem not_mem_newline_quotedList (hne : texts ≠ []) : '\n' ∉ quotedList texts := by
  have hquoted : ∀ text ∈ texts.map doubleQuoted, '\n' ∉ text := by
    simpa using fun text _ => not_mem_newline_doubleQuoted text
  apply Piece.intercalate_induction (by simpa using hne) hquoted
  intro a b ha hb
  simp [ha, hb]

theorem lines_stringSource (hne : texts ≠ []) :
    lines (stringSource texts) =
      [".DATA".toList, "x: .ASCIZ ".toList ++ quotedList texts] := by
  have hline : '\n' ∉ "x: .ASCIZ ".toList ++ quotedList texts := by
    simpa using not_mem_newline_quotedList hne
  have hfirst : lines (".DATA".toList ++ ['\n']) = [".DATA".toList] := by rfl
  have hsource : stringSource texts =
      ".DATA".toList ++ '\n' :: ("x: .ASCIZ ".toList ++ quotedList texts) := by rfl
  rw [hsource, lines_append, hfirst, lines_of_line hline (by simp)]
  rfl

/-- The line that enters the data section. -/
def SourceLine.dataLine : SourceLine :=
  { number := 1, code := ".DATA".toList, label := none, statement := some ⟨".DATA".toList, 1⟩ }

/-- The line that defines the label with its strings. -/
def SourceLine.stringLine (texts : List Text) (column : Nat) : SourceLine :=
  { number := 2
    code := "x: .ASCIZ ".toList ++ quotedList texts
    label := some ⟨"x".toList, 1⟩
    statement := some ⟨".ASCIZ ".toList ++ quotedList texts, column⟩ }

theorem ofText_stringSource (hne : texts ≠ []) :
    ∃ column, SourceLine.ofText (stringSource texts) = [.dataLine, .stringLine texts column] := by
  have hname : IsTight "x".toList := ⟨⟨'x', [], rfl, rfl⟩, ⟨[], 'x', rfl, rfl⟩⟩
  have hstatement : IsTight (".ASCIZ ".toList ++ quotedList texts) := by
    have hword : IsTight ".ASCIZ".toList :=
      ⟨⟨'.', "ASCIZ".toList, rfl, rfl⟩, ⟨".ASCI".toList, 'Z', rfl, rfl⟩⟩
    exact hword.append [' '] (isTight_quotedList hne)
  have hcode : SourceLine.IsCode ("x: .ASCIZ ".toList ++ quotedList texts) := by
    have hfront : SourceLine.IsCode "x: .ASCIZ ".toList := .of_plain (by simp)
    exact hfront.append (isCode_quotedList hne)
  have hfirst : SourceLine.read? 1 ".DATA".toList = some .dataLine := by rfl
  have hlabel : ∀ c ∈ "x".toList, SourceLine.isLabelChar c = true := List.all_eq_true.mp rfl
  obtain ⟨column, hsecond⟩ := SourceLine.read?_labelled hlabel hname hstatement hcode 2
  have hsecond : SourceLine.read? 2 ("x: .ASCIZ ".toList ++ quotedList texts) =
      some (.stringLine texts column) := hsecond
  refine ⟨column, ?_⟩
  rw [SourceLine.ofText, lines_stringSource hne]
  simp only [List.zipIdx_cons, List.zipIdx_nil, List.filterMap_cons, List.filterMap_nil,
    Nat.reduceAdd, hfirst, hsecond]

namespace Layout

variable {layout applied : Layout} {line column : Nat}

/-- Reading a list gives the strings that it was written from. -/
theorem exists_pieces (hne : texts ≠ []) (line listColumn : Nat) :
    ∃ pieces,
      pieces ≠ [] ∧ Piece.splitOperands ⟨quotedList texts, listColumn⟩ = some pieces ∧
        List.Forall₂ (fun piece text => stringArgument line piece = .ok (utf8 text))
          pieces texts := by
  have hquoted : texts.map doubleQuoted ≠ [] := by simpa using hne
  have hsegments : (Piece.segments? .outside 0 (quotedList texts)).map (List.map trim) =
      some (texts.map doubleQuoted) := by
    have hwhole : ∀ text ∈ texts.map doubleQuoted, Piece.IsWhole text := by
      simpa using fun text _ => isWhole_doubleQuoted text
    have htrim : ∀ text ∈ texts.map doubleQuoted, trim text = text := by
      simpa using fun text _ => (isTight_doubleQuoted text).trim_eq
    rw [quotedList, Piece.segments?_intercalate hquoted hwhole]
    exact congrArg some ((List.map_congr_left htrim).trans (List.map_id' _))
  have hbytes : List.Forall₂ (fun token text => Literal.bytes token = .ok (utf8 text))
      (texts.map doubleQuoted) texts := by
    rw [List.forall₂_map_left_iff, List.forall₂_same]
    exact fun text _ => bytes_doubleQuoted text
  obtain ⟨pieces, hpieces, hread⟩ := Piece.exists_splitOperands hsegments hbytes
  refine ⟨pieces, ?_, hpieces, hread.imp fun piece text hbytes => ?_⟩
  · rintro rfl
    cases hread
    exact hne rfl
  · simp only [stringArgument, hbytes]

theorem emitEach_of_forall₂ {bytes : Piece → Except AssemblyFailure (List UInt8)}
    {pieces : List Piece} {parts : List (List UInt8)} (wrongArguments : AssemblyFailure)
    (hne : pieces ≠ [])
    (hread : List.Forall₂ (fun piece part => bytes piece = .ok part) pieces parts) :
    layout.emitEach wrongArguments bytes pieces = .ok (layout.emit parts.flatten) := by
  rw [emitEach, if_neg (by simpa using hne), mapM_eq_ok_of_forall₂ hread]
  rfl

/-- A directive is carried out with the operands of its list, and then its bytes are counted. -/
theorem placeDirective_list {word list : Text} {directive : Directive} {pieces : List Piece}
    (hword : ∀ c ∈ word, isBlank c = false) (hlist : IsTight list)
    (hdirective : Directive.ofText? word = some directive) (hdata : layout.current = .data)
    (hpieces : Piece.splitOperands ⟨list, column + width word + 1⟩ = some pieces)
    (happly : layout.apply directive line column pieces = .ok applied) :
    layout.placeDirective ⟨word ++ ' ' :: list, column⟩ line =
      (applied.checkedCursor >>= fun cursor =>
        if addressSpace < cursor then reject .dataOverflow line column else .ok applied) := by
  rw [placeDirective, Piece.splitWord_append hword hlist column]
  dsimp only
  rw [hdirective]
  dsimp only
  rw [if_neg (by simp [hdata]), operandPieces_some hpieces, ok_bind, happly, ok_bind]

theorem place_strings (hne : texts ≠ []) (hdata : layout.current = .data)
    (hroom : layout.dataEnd + (zeroTerminated texts).length ≤ addressSpace) :
    layout.placeStatement ⟨".ASCIZ ".toList ++ quotedList texts, column⟩ line =
      .ok (layout.emit (zeroTerminated texts)) := by
  have hword : ∀ c ∈ ".ASCIZ".toList, isBlank c = false := by simp [isBlank, blankRanges]
  have hdirective : Directive.ofText? ".ASCIZ".toList = some .asciz := by rfl
  obtain ⟨pieces, hsome, hpieces, hread⟩ :=
    exists_pieces hne line (column + width ".ASCIZ".toList + 1)
  have happly : layout.apply .asciz line column pieces =
      .ok (layout.emit (zeroTerminated texts)) := by
    rw [zeroTerminated, List.flatMap_def]
    apply emitEach_of_forall₂ _ hsome
    rw [List.forall₂_map_right_iff]
    exact hread.imp fun piece text hstring => by rw [hstring, map_ok]
  have hends : (layout.emit (zeroTerminated texts)).dataEnd ≤ addressSpace := by
    rwa [dataEnd_emit]
  have hcounted : (layout.emit (zeroTerminated texts)).checkedCursor =
      .ok (layout.emit (zeroTerminated texts)).dataEnd := by
    rw [checkedCursor, dataCursor_eq_dataEnd (dataEnd_lt_of_le hends),
      if_pos (dataEnd_lt_of_le hends)]
  have hstatement : layout.placeStatement ⟨".ASCIZ ".toList ++ quotedList texts, column⟩ line =
      layout.placeDirective ⟨".ASCIZ".toList ++ ' ' :: quotedList texts, column⟩ line := by rfl
  rw [hstatement,
    placeDirective_list hword (isTight_quotedList hne) hdirective hdata hpieces happly,
    hcounted, ok_bind, if_neg (Nat.not_lt_of_le hends)]

end Layout

/-- String data survives assembly: the program is its bytes, each string with a zero behind it,
and the label at their start. -/
theorem assemble_keeps_strings (texts : List Text) (hne : texts ≠ [])
    (hroom : (texts.flatMap utf8).length + texts.length ≤ 65536) :
    assemble (stringSource texts) =
      .ok
        { instructions := #[]
          symbols := ⟨[{ name := "x".toList, value := 0, kind := .data, line := 2 }]⟩
          data := (zeroTerminated texts).toArray
          textStart := 0
          dataStart := 0 } := by
  obtain ⟨column, hlines⟩ := ofText_stringSource hne
  let labelled : Layout :=
    { symbols := ⟨[{ name := "x".toList, value := 0, kind := .data, line := 2 }]⟩
      current := .data }
  have hfirst : Layout.place {} .dataLine = .ok { current := .data } := by rfl
  have hlabel : Layout.placeLabel { current := .data } ⟨"x".toList, 1⟩ 2 = .ok labelled := by rfl
  have hstrings : labelled.placeStatement ⟨".ASCIZ ".toList ++ quotedList texts, column⟩ 2 =
      .ok (labelled.emit (zeroTerminated texts)) := by
    apply Layout.place_strings hne rfl
    rw [length_zeroTerminated]
    simpa [labelled, Layout.dataEnd, addressSpace] using hroom
  have hsecond : Layout.place { current := .data } (.stringLine texts column) =
      .ok (labelled.emit (zeroTerminated texts)) := by
    rw [Layout.place, SourceLine.stringLine]
    simp only [hlabel, ok_bind, hstrings]
  have hprogram : (labelled.emit (zeroTerminated texts)).program =
      .ok
        { instructions := #[]
          symbols := labelled.symbols
          data := labelled.data ++ zeroTerminated texts
          textStart := 0
          dataStart := 0 } := by
    rfl
  have hdata : labelled.data ++ zeroTerminated texts = (zeroTerminated texts).toArray := by
    simp [labelled]
  rw [hdata] at hprogram
  rw [assemble, Layout.ofText, hlines, Layout.ofLines, List.foldlM_cons, hfirst, ok_bind,
    List.foldlM_cons, hsecond, ok_bind, List.foldlM_nil]
  exact hprogram

theorem assemble_keeps_strings_marks :
    let texts := ["a,\"b\"; \\".toList, "//\n:[é".toList]
    stringSource texts =
        ".DATA\nx: .ASCIZ \"a,\\\"b\\\"; \\\\\",\"//\\n:[é\"".toList ∧
      ∃ program,
        assemble (stringSource texts) = .ok program ∧
          program.data.toList =
            [97, 44, 34, 98, 34, 59, 32, 92, 0, 47, 47, 10, 58, 91, 0xc3, 0xa9, 0] := by
  intro texts
  have hroom : (texts.flatMap utf8).length + texts.length ≤ 65536 := by
    decide +kernel
  refine ⟨by decide +kernel, _, assemble_keeps_strings texts (by simp [texts]) hroom, ?_⟩
  decide +kernel

end WordMachine
