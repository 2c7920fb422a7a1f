import WordMachine.Proofs.FilledSources
import WordMachine.Proofs.SourceLimits

/-!
# The places of an assembled program

What an assembled program consists of stands where the statements of its source put it.
For labels of the data section that is as far behind its start as 32 bits keep of the
number of bytes before them, which is all of that number in a source that is not too
long.
-/

namespace WordMachine

open Text

/-- The layout of an assembled program is exact.  Its instructions are the instruction
statements in order, numbered without a gap from the final start of the text section.  A
label is a code or data symbol by the section in which its line begins, and is as many
instructions or bytes from the final start of that section as the lines before it hold,
but for what 32 bits do not keep of the number of bytes. -/
theorem assemble_places_exactly
    (source : Text) (program : Program) (hassemble : assemble source = .ok program) :
    let lines := SourceLine.ofText source
    (program.instructions.size = (SourceLine.instructions lines).length ∧
      ∀ index instruction, program.instructions[index]? = some instruction →
        ∃ number statement,
          (SourceLine.instructions lines)[index]? = some (number, statement) ∧
            instruction.address.toNat = program.textStart.toNat + index ∧
              instruction.ReadsAs program.symbols number statement) ∧
      ∀ before line after label,
        lines = before ++ line :: after → line.label = some label →
          ∃ early,
            Layout.ofLines before = .ok early ∧
              early.data.toList <+: program.data.toList ∧
                program.symbols.get? label.text =
                    some
                      (program.labelSymbol before (early.data.size % 4294967296) label
                        line.number) ∧
                  (width source < sourceLimit → early.data.size < 4294967296) := by
  intro lines
  obtain ⟨layout, hlayout, hprogram⟩ := exists_of_bind_eq_ok hassemble
  refine ⟨⟨?_, ?_⟩, ?_⟩
  · obtain ⟨instructions, hresolve, rfl⟩ := Layout.of_program hprogram
    rw [List.size_toArray, (Layout.of_resolve hresolve).1]
    exact Layout.size_entries_of_ofLines hlayout
  · intro index instruction hinstruction
    exact Layout.instruction_of_program hlayout hprogram hinstruction
  · intro before line after label hlines hlabel
    have hparts : Layout.ofLines (before ++ line :: after) = .ok layout := by
      rw [← hlines]
      exact hlayout
    obtain ⟨early, hearly, hprefix, hget⟩ := Layout.label_of_program hparts hprogram hlabel
    refine ⟨early, hearly, hprefix, hget, fun hsource => ?_⟩
    have hends := Layout.dataEnd_lt_of_le (Layout.dataEnd_le_of_ofText hsource hlayout)
    have hlength : early.data.size ≤ program.data.size := hprefix.length_le
    obtain ⟨instructions, -, rfl⟩ := Layout.of_program hprogram
    unfold Layout.dataEnd at hends
    dsimp only at hlength
    omega

/-- Labels before late origins of both sections, the source of the instance below. -/
def interleavedSource : Text :=
  "s: .ORG 16\n MOV R0, x\n .DATA\nx: .ORG 32\n.BYTE 1\n.ALIGN 4\nz: .TEXT\nl: JMP s".toList

theorem assemble_places_exactly_interleaved :
    ∃ program,
      assemble interleavedSource = .ok program ∧
        program.instructions.size = 2 ∧
          program.symbols.get? ['s'] =
              some { name := ['s'], value := 16, kind := .code, line := 1 } ∧
            program.symbols.get? ['z'] =
              some { name := ['z'], value := 36, kind := .data, line := 7 } := by
  have hstarts : (assemble interleavedSource).toOption.map
      (fun program => (program.textStart, program.dataStart)) = some (16, 32) := by
    decide +kernel
  cases hassemble : assemble interleavedSource with
  | error failure =>
      rw [hassemble] at hstarts
      cases hstarts
  | ok program =>
      rw [hassemble] at hstarts
      obtain ⟨htext, hdata⟩ := Prod.mk.inj (Option.some.inj hstarts)
      obtain ⟨⟨hsize, -⟩, hlabels⟩ :=
        assemble_places_exactly interleavedSource program hassemble
      refine ⟨program, rfl, ?_, ?_, ?_⟩
      · rw [hsize]
        decide +kernel
      · obtain ⟨early, hearly, -, hget, -⟩ :=
          hlabels []
            { number := 1, code := "s: .ORG 16".toList, label := some ⟨['s'], 1⟩
              statement := some ⟨".ORG 16".toList, 4⟩ }
            ((SourceLine.ofText interleavedSource).drop 1) ⟨['s'], 1⟩
            (by decide +kernel) rfl
        rw [hget, Program.labelSymbol, htext]
        rfl
      · obtain ⟨early, hearly, -, hget, -⟩ :=
          hlabels ((SourceLine.ofText interleavedSource).take 6)
            { number := 7, code := "z: .TEXT".toList, label := some ⟨['z'], 1⟩
              statement := some ⟨".TEXT".toList, 4⟩ }
            ((SourceLine.ofText interleavedSource).drop 7) ⟨['z'], 1⟩
            (by decide +kernel) rfl
        have hbytes : (Layout.ofLines ((SourceLine.ofText interleavedSource).take 6)).toOption.map
            (·.data.size) = some 4 := by
          decide +kernel
        have hsection :
            SourceLine.sectionOf ((SourceLine.ofText interleavedSource).take 6) = .data := by
          decide +kernel
        rw [hearly] at hbytes
        have hfour : early.data.size = 4 := Option.some.inj hbytes
        rw [hget, Program.labelSymbol, hsection, hdata, hfour]
        rfl

/-- Behind 2 ^ 32 bytes a label stands where it would stand behind none. -/
theorem not_every_label_counts_all_bytes :
    ¬∀ source program, assemble source = .ok program →
      ∀ before line after label,
        SourceLine.ofText source = before ++ line :: after → line.label = some label →
          ∃ early,
            Layout.ofLines before = .ok early ∧
              program.symbols.get? label.text =
                some (program.labelSymbol before early.data.size label line.number) := by
  intro hall
  have hwidth := width_replicate 4294967296
  generalize List.replicate 4294967296 'a' = text at hwidth
  have hcursor : (Layout.filled text).dataCursor = 1 := by
    rw [Layout.dataCursor_filled, hwidth]
  have hassemble : assemble (filledSource text) = .ok (.filled text) := by
    apply assemble_filledSource
    rw [hcursor]
    decide
  obtain ⟨early, hearly, hget⟩ :=
    hall _ _ hassemble [.dataLine, .originLine, .fillingLine text] .behindLine [] ⟨"x".toList, 1⟩
      (SourceLine.ofText_filledSource text) rfl
  have hplaced := Layout.ofLines_filling (hcursor.trans_le (by decide))
  obtain rfl := Except.ok.inj (hearly.symm.trans hplaced)
  have hsection : SourceLine.sectionOf [.dataLine, .originLine, .fillingLine text] = .data := by rfl
  rw [Program.labelSymbol, hsection, Layout.size_data_filled, hwidth] at hget
  have hvalue := congrArg Symbol.value (Option.some.inj hget)
  have hone : ((Layout.filled text).dataCursor : Int) = 4294967297 := hvalue
  omega

end WordMachine
