import WordMachine.Proofs.ByteReading
import WordMachine.Proofs.EarlyValues

/-!
# Pieces and their columns

The column of a piece is the byte at which its text stands in the line, whatever
trimming and splitting it went through, and every line stands in the source.  So no
piece is wider than the source.
-/

namespace WordMachine

open Text

variable {raw line : Text} {piece : Piece}

/-! ## Pieces that stand in a line -/

namespace Piece

/-- The text is in the line, at the column. -/
def StandsIn (piece : Piece) (line : Text) : Prop :=
  ∃ front back, line = front ++ piece.text ++ back ∧ piece.column = width front + 1

/-- To stand in a line is to be what the bytes from the column on spell. -/
theorem StandsIn.slice? (hpiece : piece.StandsIn line) :
    1 ≤ piece.column ∧
      slice? line (piece.column - 1) (piece.column - 1 + width piece.text) = some piece.text := by
  obtain ⟨front, back, hline, hcolumn⟩ := hpiece
  refine ⟨by omega, slice?_eq_some_iff.mpr ⟨front, back, hline, by omega, by omega⟩⟩

theorem standsIn_self (line : Text) : StandsIn ⟨line, 1⟩ line := ⟨[], [], by simp, rfl⟩

theorem StandsIn.of_isPrefix (hbegins : line <+: raw) (hpiece : piece.StandsIn line) :
    piece.StandsIn raw := by
  obtain ⟨behind, rfl⟩ := hbegins
  obtain ⟨front, back, rfl, hcolumn⟩ := hpiece
  exact ⟨front, back ++ behind, by simp, hcolumn⟩

theorem StandsIn.part (hpiece : piece.StandsIn line) {front part back : Text}
    (htext : piece.text = front ++ part ++ back) :
    StandsIn ⟨part, piece.column + width front⟩ line := by
  obtain ⟨before, after, rfl, hcolumn⟩ := hpiece
  refine ⟨before ++ front, back ++ after, by simp [htext], ?_⟩
  rw [width_append]
  dsimp only
  omega

theorem StandsIn.first (hpiece : piece.StandsIn line) {part back : Text}
    (htext : piece.text = part ++ back) : StandsIn ⟨part, piece.column⟩ line := by
  have hfirst : piece.text = [] ++ part ++ back := htext
  exact hpiece.part hfirst

theorem StandsIn.rest (hpiece : piece.StandsIn line) {front part : Text}
    (htext : piece.text = front ++ part) : StandsIn ⟨part, piece.column + width front⟩ line :=
  hpiece.part (htext.trans (List.append_nil _).symm)

theorem StandsIn.trimmed (hpiece : piece.StandsIn line) : piece.trimmed.StandsIn line := by
  rw [Piece.trimmed, width_sub_width_trimLeft]
  exact hpiece.part (blanks_append_trim piece.text).symm

/-! ## Words and operands -/

/-- The leading word and what follows it. -/
def words (piece : Piece) : List Piece := piece.splitWord.1 :: piece.splitWord.2.toList

theorem StandsIn.words (hpiece : piece.StandsIn line) :
    ∀ word ∈ piece.words, word.StandsIn line := by
  have hwhole := firstWord_append_afterFirstWord piece.text
  intro word hword
  rcases List.mem_cons.mp hword with rfl | hrest
  · exact hpiece.first hwhole.symm
  · rw [Option.mem_toList, splitWord] at hrest
    dsimp only at hrest
    split at hrest
    · cases hrest
    · cases hrest
      exact (hpiece.rest hwhole.symm).trimmed

theorem standsIn_of_place {segments : List Text} {column : Nat}
    (hlist : StandsIn ⟨[','].intercalate segments, column⟩ line) :
    ∀ piece ∈ place column segments, piece.StandsIn line := by
  induction segments generalizing column with
  | nil => exact fun _ hpiece => absurd hpiece List.not_mem_nil
  | cons segment rest ih =>
      intro piece hpiece
      cases rest with
      | nil =>
          obtain rfl := List.mem_singleton.mp hpiece
          rwa [List.intercalate_singleton] at hlist
      | cons next rest =>
          rw [List.intercalate_cons_cons] at hlist
          rcases List.mem_cons.mp hpiece with rfl | hlater
          · exact hlist.first (List.append_assoc _ _ _)
          · have hrest := hlist.rest rfl
            rw [width_append, ← Nat.add_assoc] at hrest
            exact ih hrest piece hlater

theorem StandsIn.cut (hpiece : piece.StandsIn line) :
    ∀ operand ∈ piece.cut, operand.StandsIn line := by
  intro operand hoperand
  obtain ⟨segment, hsegment, rfl⟩ := List.mem_map.mp hoperand
  refine (standsIn_of_place ?_ segment hsegment).trimmed
  rwa [intercalate_segments]

end Piece

/-! ## Lines -/

namespace SourceLine

/-- What follows the blanks in front of code splits into the pieces of the line. -/
theorem standsIn_of_splitCode {code : Text} {label statement : Option Piece}
    (hsplit : splitCode code = (label, statement)) :
    ∀ piece ∈ label.toList ++ statement.toList, piece.StandsIn code := by
  have hstart := (Piece.standsIn_self code).trimmed
  rw [splitCode] at hsplit
  dsimp only at hsplit
  split at hsplit
  · cases hsplit
    simpa using hstart
  next name rest hlabel =>
    obtain ⟨gap, htext⟩ := exists_of_splitLabel? hlabel
    have hfront : (Piece.mk code 1).trimmed.text = (name ++ gap ++ [':']) ++ rest := by
      simpa using htext
    have hwidth : width (Piece.mk code 1).trimmed.text - width rest =
        width (name ++ gap ++ [':']) := by
      rw [hfront, width_append]
      omega
    have hafter := (hstart.rest hfront).trimmed
    rw [hwidth] at hsplit
    cases hsplit
    intro piece hpiece
    rcases List.mem_append.mp hpiece with hname | hrest
    · obtain rfl := List.mem_singleton.mp hname
      exact hstart.first htext
    · split at hrest
      · cases hrest
      · obtain rfl := List.mem_singleton.mp hrest
        exact hafter

/-- Every piece that a line is read into: its label, its statement and the arguments of that,
with the word that each of them begins with and what follows the word. -/
def pieces (line : SourceLine) : List Piece :=
  line.label.toList ++
    (line.statement.toList ++ line.arguments).flatMap fun piece => piece :: piece.words

theorem standsIn_of_arguments {line : SourceLine} {code : Text}
    (hstatement : ∀ statement ∈ line.statement, statement.StandsIn code) :
    ∀ argument ∈ line.arguments, argument.StandsIn code := by
  intro argument hargument
  unfold arguments at hargument
  split at hargument
  next statement hline =>
    cases hrest : statement.splitWord.2 with
    | none =>
        rw [hrest] at hargument
        cases hargument
    | some rest =>
        rw [hrest] at hargument
        have hstands := (hstatement statement hline).words rest (by simp [Piece.words, hrest])
        exact hstands.cut argument hargument
  · cases hargument

theorem code_of_read? {number : Nat} {line : SourceLine} (hread : read? number raw = some line) :
    line.number = number ∧ line.code <+: raw ∧ trimRight line.code = line.code ∧
      splitCode line.code = (line.label, line.statement) := by
  unfold read? at hread
  dsimp only at hread
  split at hread
  · cases hread
  · cases hread
    exact ⟨rfl, (trimRight_isPrefix _).trans (stripComment_isPrefix .outside raw),
      trimRight_trimRight _, rfl⟩

theorem standsIn_code_of_read? {number : Nat} {line : SourceLine}
    (hread : read? number raw = some line) : ∀ piece ∈ line.pieces, piece.StandsIn line.code := by
  obtain ⟨-, -, -, hsplit⟩ := code_of_read? hread
  have hparts := standsIn_of_splitCode hsplit
  have hstatement : ∀ statement ∈ line.statement, statement.StandsIn line.code := fun _ hmem =>
    hparts _ (List.mem_append_right _ (Option.mem_toList.mpr hmem))
  intro piece hpiece
  rcases List.mem_append.mp hpiece with hlabel | hrest
  · exact hparts piece (List.mem_append_left _ hlabel)
  · obtain ⟨whole, hwhole, hpart⟩ := List.mem_flatMap.mp hrest
    have hstands : whole.StandsIn line.code := by
      rcases List.mem_append.mp hwhole with hmem | hargument
      · exact hstatement whole (Option.mem_toList.mp hmem)
      · exact standsIn_of_arguments hstatement whole hargument
    rcases List.mem_cons.mp hpart with rfl | hword
    · exact hstands
    · exact hstands.words piece hword

theorem standsIn_of_read? {number : Nat} {line : SourceLine}
    (hread : read? number raw = some line) : ∀ piece ∈ line.pieces, piece.StandsIn raw := by
  obtain ⟨-, hbegins, -, -⟩ := code_of_read? hread
  exact fun piece hpiece => (standsIn_code_of_read? hread piece hpiece).of_isPrefix hbegins

theorem statement_mem_pieces {line : SourceLine} (hstatement : line.statement = some piece) :
    piece ∈ line.pieces := by
  simp [pieces, hstatement]

theorem label_mem_pieces {line : SourceLine} (hlabel : line.label = some piece) :
    piece ∈ line.pieces := by
  simp [pieces, hlabel]

theorem mem_pieces_of_arguments {line : SourceLine}
    (hpiece : piece ∈ line.arguments.flatMap fun argument => argument :: argument.words) :
    piece ∈ line.pieces := by
  rw [pieces, List.flatMap_append]
  exact List.mem_append_right _ (List.mem_append_right _ hpiece)

theorem arguments_eq {line : SourceLine} (hstatement : line.statement = some piece) :
    line.arguments = Layout.cutOperands piece.splitWord.2 := by
  rw [arguments, hstatement]

theorem exists_of_mem_instructions {lines : List SourceLine} {number : Nat} {statement : Piece}
    (hmem : (number, statement) ∈ instructions lines) :
    ∃ line ∈ lines, line.number = number ∧ line.statement = some statement := by
  obtain ⟨line, hline, hinstruction⟩ := List.mem_filterMap.mp hmem
  refine ⟨line, hline, ?_⟩
  unfold instruction? at hinstruction
  split at hinstruction
  next found hstatement =>
    split at hinstruction
    · cases hinstruction
    · cases hinstruction
      exact ⟨rfl, hstatement⟩
  · cases hinstruction

theorem exists_raw_of_mem_ofText {source : Text} {line : SourceLine}
    (hline : line ∈ ofText source) :
    ∃ raw, 1 ≤ line.number ∧ (lines source)[line.number - 1]? = some raw ∧
      read? line.number raw = some line := by
  obtain ⟨⟨raw, number⟩, hraw, hread⟩ := List.mem_filterMap.mp hline
  obtain ⟨hfirst, hget⟩ := List.mk_mem_zipIdx_iff_le_and_getElem?_sub.mp hraw
  obtain rfl := (code_of_read? hread).1
  exact ⟨raw, hfirst, hget, hread⟩

end SourceLine

/-! ## Lines in the source -/

namespace Text

variable {source part : Text} {index : Nat}

theorem dropLineEnd_isPrefix (part : Text) : dropLineEnd part <+: part := by
  unfold dropLineEnd
  split
  next rest hreverse =>
    rw [← List.reverse_reverse part, hreverse]
    exact ⟨['\r', '\n'], by simp⟩
  next rest _ hreverse =>
    rw [← List.reverse_reverse part, hreverse]
    exact ⟨['\n'], by simp⟩
  · exact List.prefix_rfl

theorem eq_of_lineParts (hpart : (lineParts source)[index]? = some part) :
    source = ((lineParts source).take index).flatten ++ part ++
      ((lineParts source).drop (index + 1)).flatten := by
  obtain ⟨hindex, rfl⟩ := List.getElem?_eq_some_iff.mp hpart
  have hparts : lineParts source =
      (lineParts source).take index ++ (lineParts source)[index] ::
        (lineParts source).drop (index + 1) := by simp
  have hflatten := congrArg List.flatten hparts
  rwa [flatten_lineParts, List.flatten_append, List.flatten_cons, ← List.append_assoc]
    at hflatten

theorem exists_of_lines (hraw : (lines source)[index]? = some raw) :
    ∃ part, (lineParts source)[index]? = some part ∧ raw <+: part := by
  rw [lines, List.getElem?_map] at hraw
  obtain ⟨part, hpart, rfl⟩ := Option.map_eq_some_iff.mp hraw
  exact ⟨part, hpart, dropLineEnd_isPrefix part⟩

end Text

end WordMachine
