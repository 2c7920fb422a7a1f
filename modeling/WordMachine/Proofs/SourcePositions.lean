import WordMachine.Disassembly
import WordMachine.Proofs.FilledSources
import WordMachine.Proofs.RejectionPlaces

/-!
# Positions in a source text

The column of a piece is the byte at which its text stands in the line, and the bytes
of an instruction's statement are those of the source at its line and column.  No range
that is cut out on the way falls inside a character or past an end, and no number that
is counted on the way leaves its 32 bits before a source is of almost as many bytes, so
that a shorter one of any characters is read to its end.
-/

namespace WordMachine

open Text

variable {raw : Text} {piece : Piece}

/-! ## Lines in the source -/

/-- A piece of a line is in the source as many bytes behind the start of the line. -/
theorem Piece.StandsIn.slice?_source {source : Text} {index : Nat} (hpiece : piece.StandsIn raw)
    (hraw : (lines source)[index]? = some raw) :
    Text.slice? source (width ((lineParts source).take index).flatten + piece.column - 1)
      (width ((lineParts source).take index).flatten + piece.column - 1 + width piece.text) =
        some piece.text := by
  obtain ⟨part, hpart, hbegins⟩ := exists_of_lines hraw
  obtain ⟨front, back, rfl, hcolumn⟩ := hpiece.of_isPrefix hbegins
  have hsource := eq_of_lineParts hpart
  refine slice?_eq_some_iff.mpr
    ⟨((lineParts source).take index).flatten ++ front,
      back ++ ((lineParts source).drop (index + 1)).flatten, ?_, ?_, ?_⟩
  · conv_lhs => rw [hsource]
    simp
  · rw [width_append]
    omega
  · rw [width_append]
    omega

theorem Program.statementSpan?_eq_some {source : Text} {statement : Piece}
    {instruction : Instruction} (hraw : (lines source)[instruction.line - 1]? = some raw)
    (hstands : statement.StandsIn raw) (hcolumn : instruction.column = statement.column)
    (hsource : instruction.source = statement.text) :
    ∃ span, statementSpan? source instruction = some span ∧
      slice? source span.offset (span.offset + span.length) = some instruction.source := by
  have hslice := hstands.slice?_source hraw
  rw [← hcolumn, ← hsource] at hslice
  obtain ⟨front, back, hwhole, hfront, hstop⟩ := slice?_eq_some_iff.mp hslice
  have hwidth := congrArg width hwhole
  refine ⟨_, if_pos ?_, hslice⟩
  simp only [width_append] at hwidth
  dsimp only
  omega

/-! ## The result -/

/-- Every piece of a line is what its column says, no reader cuts a range that is none, and the
statements of a program are found again.  A source that is not too long is read to its end. -/
theorem source_positions_are_faithful (source : Text) :
    (∀ line ∈ SourceLine.ofText source, ∃ raw,
      1 ≤ line.number ∧ (lines source)[line.number - 1]? = some raw ∧
        ∀ piece ∈ line.pieces,
          1 ≤ piece.column ∧
            slice? raw (piece.column - 1) (piece.column - 1 + width piece.text) =
              some piece.text) ∧
    ((∀ line, Bytewise.stripComment? line = some (SourceLine.stripComment .outside line)) ∧
      (∀ number raw, Bytewise.readLine? number raw = some (SourceLine.read? number raw)) ∧
      (∀ piece, Bytewise.splitWord? piece = some piece.splitWord) ∧
      (∀ piece, Bytewise.splitOperands? piece = some piece.splitOperands) ∧
      (∀ token, Bytewise.bytes? token = some (Literal.bytes token)) ∧
      ∀ token, Bytewise.unchecked? token = some (Literal.unchecked token)) ∧
    (∀ program, assemble source = .ok program →
      ∀ instruction ∈ program.instructions, ∃ span,
        Program.statementSpan? source instruction = some span ∧
          slice? source span.offset (span.offset + span.length) = some instruction.source) ∧
    (width source < sourceLimit → ∀ message, assemble source ≠ .error (.breakdown message)) := by
  refine ⟨?_, ⟨Bytewise.stripComment?_eq, Bytewise.readLine?_eq, Bytewise.splitWord?_eq,
    Bytewise.splitOperands?_eq, Bytewise.bytes?_eq, Bytewise.unchecked?_eq⟩, ?_, ?_⟩
  · intro line hline
    obtain ⟨raw, hnumber, hraw, hread⟩ := SourceLine.exists_raw_of_mem_ofText hline
    exact ⟨raw, hnumber, hraw, fun piece hpiece =>
      (SourceLine.standsIn_of_read? hread piece hpiece).slice?⟩
  · intro program hassemble instruction hinstruction
    obtain ⟨layout, hlayout, hprogram⟩ := exists_of_bind_eq_ok hassemble
    obtain ⟨index, hindex⟩ := Array.getElem?_of_mem hinstruction
    obtain ⟨number, statement, hstatement, -, hreads⟩ :=
      Layout.instruction_of_program hlayout hprogram hindex
    obtain ⟨line, hline, hnumber, hmem⟩ :=
      SourceLine.exists_of_mem_instructions (List.mem_of_getElem? hstatement)
    obtain ⟨raw, -, hraw, hread⟩ := SourceLine.exists_raw_of_mem_ofText hline
    rw [hnumber, ← hreads.line] at hraw
    exact Program.statementSpan?_eq_some hraw
      (SourceLine.standsIn_of_read? hread statement (SourceLine.statement_mem_pieces hmem))
      hreads.column hreads.source
  · intro hsource message hbreakdown
    obtain ⟨line, -, hlong⟩ := failsWith_assemble source _ hbreakdown
    exact Nat.not_le_of_lt hsource hlong

/-- A blank of three bytes, a character of two and a line end of two. -/
def wideSource : Text := "NOP\r\n\u3000a: ADD R0, #'é' ; ü\r\n".toList

/-- The statement behind the wide blank is found with both bytes of its character. -/
theorem source_positions_are_faithful_wide :
    ∃ program instruction,
      assemble wideSource = .ok program ∧ program.instructions[1]? = some instruction ∧
        instruction.source = "ADD R0, #'é'".toList ∧
          Program.statementSpan? wideSource instruction = some ⟨11, 13⟩ ∧
            slice? wideSource 11 24 = some "ADD R0, #'é'".toList := by
  have hresult : (assemble wideSource).toOption.map
      (fun program => program.instructions[1]?.map fun instruction =>
        (instruction.line, instruction.column, instruction.source)) =
          some (some (2, 7, "ADD R0, #'é'".toList)) := by
    decide +kernel
  cases hassemble : assemble wideSource with
  | error failure =>
      rw [hassemble] at hresult
      cases hresult
  | ok program =>
      rw [hassemble] at hresult
      obtain ⟨instruction, hget, hplace⟩ := Option.map_eq_some_iff.mp (Option.some.inj hresult)
      obtain ⟨-, -, hspans, -⟩ := source_positions_are_faithful wideSource
      obtain ⟨span, hspan, hslice⟩ :=
        hspans program hassemble instruction (Array.mem_of_getElem? hget)
      obtain ⟨hline, hcolumn, hsource⟩ : instruction.line = 2 ∧ instruction.column = 7 ∧
          instruction.source = "ADD R0, #'é'".toList := by simpa using hplace
      have hplaced : Program.statementSpan? wideSource instruction = some ⟨11, 13⟩ := by
        rw [Program.statementSpan?, hline, hcolumn, hsource]
        decide
      rw [hplaced] at hspan
      cases hspan
      rw [hsource] at hslice
      exact ⟨program, instruction, rfl, hget, hsource, hplaced, hslice⟩

/-- The data starts at address 1 and has one byte less than 32 bits count. -/
theorem not_every_source_is_read_to_its_end :
    ¬∀ source message, assemble source ≠ .error (.breakdown message) := by
  intro hall
  have hwidth := width_replicate 4294967295
  generalize List.replicate 4294967295 'a' = text at hwidth
  have hcursor : 4294967296 ≤ (Layout.filled text).dataCursor := by
    rw [Layout.dataCursor_filled, hwidth]
  exact hall _ _ (assemble_filledSource_overflow hcursor)

end WordMachine
