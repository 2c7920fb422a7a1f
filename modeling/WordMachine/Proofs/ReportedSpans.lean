import WordMachine.Diagnostic.Report
import WordMachine.Proofs.RejectionPlaces

/-!
# Where a report points

The report of a rejected source has one label, which starts at the line and the column
of the rejection.  Its length is that of the token there, and at least one byte: so the
label lies in the source where a token, a comma or a blank of one byte stands, and
reaches past the end of the source, or ends inside a blank, where nothing or a wider
blank does.
-/

namespace WordMachine

open Text

/-- The bytes of the span are whole characters of the source. -/
def Span.LiesIn (span : Span) (source : Text) : Prop :=
  ∃ text, slice? source span.offset (span.offset + span.length) = some text

/-! ## Tokens -/

namespace Span

variable {c : Char}

theorem tokenLength_of_stop (hstop : isBlank c = true ∨ c = ',') (rest : Text) :
    tokenLength (c :: rest) = 1 := by
  have hsize := c.utf8Size_pos
  have htoken : (trimRight (c :: rest)).takeWhile (fun c => !isBlank c && c != ',') = [] := by
    have hbegins := trimRight_isPrefix (c :: rest)
    cases htrim : trimRight (c :: rest) with
    | nil => rfl
    | cons first behind =>
        rw [htrim] at hbegins
        obtain ⟨rfl, -⟩ := List.cons_prefix_cons.mp hbegins
        rcases hstop with hblank | rfl
        · simp [hblank]
        · simp
  unfold tokenLength
  dsimp only
  rw [htoken, width_cons, width_nil]
  omega

theorem exists_token (hc : isBlank c = false) (hcomma : c ≠ ',') (rest : Text) :
    ∃ token behind, c :: rest = token ++ behind ∧ tokenLength (c :: rest) = width token := by
  have hsize := c.utf8Size_pos
  obtain ⟨tail, htrim⟩ := head_trimRight hc rest
  have hbegins := (List.takeWhile_prefix (fun c => !isBlank c && c != ',')).trans
    (trimRight_isPrefix (c :: rest))
  obtain ⟨behind, hwhole⟩ := hbegins
  have hwidth := congrArg width hwhole
  refine ⟨_, behind, hwhole.symm, ?_⟩
  unfold tokenLength
  dsimp only
  have hfirst : c.utf8Size ≤
      width ((trimRight (c :: rest)).takeWhile fun c => !isBlank c && c != ',') := by
    rw [htrim]
    simp [hc, hcomma]
  rw [width_append] at hwidth
  omega

theorem isSome_cut?_one_iff (c : Char) (rest : Text) :
    (cut? 1 (c :: rest)).isSome = true ↔ c.utf8Size = 1 := by
  have hsize := c.utf8Size_pos
  rw [cut?]
  split
  next hle =>
    have hone : c.utf8Size = 1 := by omega
    simp [hone, cut?]
  next hle =>
    have hwide : c.utf8Size ≠ 1 := by omega
    simp [hwide]

/-- From the start of a token its length leads to the end of a character. -/
theorem isSome_cut?_tokenLength_iff {rest behind : Text} (hlast : rest = [] → behind = []) :
    (cut? (tokenLength rest) (rest ++ behind)).isSome = true ↔
      ∃ c ∈ (rest ++ behind).head?, isBlank c = true → c.utf8Size = 1 := by
  cases rest with
  | nil =>
      rw [hlast rfl]
      have hlength : tokenLength [] = 1 := rfl
      simp [hlength, cut?]
  | cons c rest =>
      have hhead : (∃ d ∈ (c :: rest ++ behind).head?, isBlank d = true → d.utf8Size = 1) ↔
          (isBlank c = true → c.utf8Size = 1) := by simp
      rw [hhead]
      by_cases hstop : isBlank c = true ∨ c = ','
      · rw [tokenLength_of_stop hstop, List.cons_append, isSome_cut?_one_iff]
        rcases hstop with hblank | rfl
        · simp [hblank]
        · exact ⟨fun hsize _ => hsize, fun _ => rfl⟩
      · obtain ⟨hblank, hcomma⟩ := not_or.mp hstop
        obtain ⟨token, after, hwhole, hlength⟩ :=
          exists_token (by simpa using hblank) hcomma rest
        rw [hlength, hwhole, List.append_assoc, cut?_append]
        simp [hblank]

end Span

/-! ## Places in a line -/

namespace Text

variable {source part : Text} {index : Nat}

/-- Every line but the last ends in a newline. -/
theorem getLast?_of_lineParts {next : Text} (hpart : (lineParts source)[index]? = some part)
    (hnext : (lineParts source)[index + 1]? = some next) : part.getLast? = some '\n' := by
  induction source generalizing index part with
  | nil => cases hpart
  | cons c rest ih =>
      unfold lineParts at hpart hnext
      split at hpart
      next hend =>
        rw [if_pos hend] at hnext
        cases index with
        | zero =>
            cases hpart
            exact congrArg some hend
        | succ index => exact ih hpart hnext
      next hend =>
        rw [if_neg hend] at hnext
        cases hparts : lineParts rest with
        | nil =>
            rw [hparts] at hnext
            cases hnext
        | cons first others =>
            rw [hparts] at hpart hnext ih
            cases index with
            | zero =>
                cases hpart
                have hlast := ih rfl hnext
                simp [List.getLast?_cons, hlast]
            | succ index => exact ih hpart hnext

theorem drop_lineParts (hpart : (lineParts source)[index]? = some part)
    (htight : trimRight part = part) : (lineParts source).drop (index + 1) = [] := by
  cases hnext : (lineParts source)[index + 1]? with
  | none => exact List.drop_eq_nil_iff.mpr (List.getElem?_eq_none_iff.mp hnext)
  | some next =>
      have hlast := getLast?_of_lineParts hpart hnext
      obtain ⟨front, rfl⟩ := List.getLast?_eq_some_iff.mp hlast
      have hblank : ∀ c ∈ ['\n'], isBlank c = true := List.forall_mem_singleton.mpr rfl
      rw [trimRight_append_blanks front hblank] at htight
      have hlength := (trimRight_isPrefix front).length_le
      rw [htight, List.length_append] at hlength
      simp at hlength

end Text

theorem Span.inLine_eq {code front rest : Text} (htight : trimRight code = code)
    (hfront : front <+: code) (hcode : code <+: front ++ rest) (start : Nat) :
    inLine start (front ++ rest) (width front + 1) =
      .ok ⟨start + width front, tokenLength rest⟩ := by
  obtain ⟨behind, hpart⟩ := hcode
  obtain ⟨after, hwhole⟩ := hfront.trans (prefix_trimRight htight behind)
  rw [hpart] at hwhole
  have hwidth := congrArg width hwhole
  rw [width_append] at hwidth
  have hcolumn : min (width front + 1 - 1) (width (trimRight (front ++ rest))) = width front := by
    omega
  rw [inLine, hcolumn, dropBytes_append]
  rfl

/-! ## The report of a rejected source -/

/-- The line of a rejection is cut in two at its column, and no later than behind its code. -/
theorem exists_rest_of_rejection {source : Text} {rejection : Rejection}
    (hassemble : assemble source = .error (.rejected rejection)) :
    ∃ front rest code,
      1 ≤ rejection.line ∧ (lineParts source)[rejection.line - 1]? = some (front ++ rest) ∧
        rejection.column = width front + 1 ∧
          trimRight code = code ∧ front <+: code ∧ code <+: front ++ rest := by
  obtain ⟨line, hline, hnumber, piece, hpiece, hcolumn⟩ :=
    failsWith_assemble source (.rejected rejection) hassemble
  obtain ⟨raw, hfirst, hraw, hread⟩ := SourceLine.exists_raw_of_mem_ofText hline
  obtain ⟨-, hcode, htight, -⟩ := SourceLine.code_of_read? hread
  obtain ⟨front, back, hstands, hplace⟩ := SourceLine.standsIn_code_of_read? hread piece hpiece
  obtain ⟨part, hpart, hbegins⟩ := exists_of_lines hraw
  obtain ⟨behind, hbehind⟩ := hcode.trans hbegins
  have hrest : front ++ (piece.text ++ back ++ behind) = part := by
    rw [← hbehind, hstands]
    simp
  refine ⟨front, piece.text ++ back ++ behind, line.code, ?_, ?_, ?_, htight, ?_, ?_⟩
  · rwa [hnumber]
  · rwa [hnumber, hrest]
  · rw [hcolumn, hplace]
  · rw [hstands, List.append_assoc]
    exact List.prefix_append front _
  · rw [hrest]
    exact hcode.trans hbegins

theorem Report.exists_of_ofColumn {source : Text} {span : Span} (diagnostic : Diagnostic)
    (hspan : Span.ofColumn source diagnostic.line diagnostic.column = .ok (some span)) :
    ∃ report, ofDiagnostic source diagnostic = .ok report ∧ report.labels = [(span, "here")] := by
  rw [ofDiagnostic, hspan]
  exact ⟨_, rfl, rfl⟩

/-- The label starts at the place of the rejection.  It lies in the source unless nothing follows
that place, or a blank of several bytes does. -/
theorem report_points_at_rejection {source : Text} {rejection : Rejection}
    (hassemble : assemble source = .error (.rejected rejection)) :
    ∃ report span after,
      Report.ofDiagnostic source rejection.diagnostic = .ok report ∧
        report.labels = [(span, "here")] ∧
          (1 ≤ rejection.line ∧ 1 ≤ rejection.column ∧
            span.offset =
              width ((lineParts source).take (rejection.line - 1)).flatten +
                (rejection.column - 1)) ∧
            from? source span.offset = some after ∧
              (span.LiesIn source ↔ ∃ c ∈ after.head?, isBlank c = true → c.utf8Size = 1) := by
  obtain ⟨front, rest, code, hline, hpart, hcolumn, htight, hfront, hcode⟩ :=
    exists_rest_of_rejection hassemble
  have hoffset : width front = rejection.column - 1 := by omega
  have hspan : Span.ofColumn source rejection.line rejection.column =
      .ok (some ⟨width ((lineParts source).take (rejection.line - 1)).flatten + width front,
        Span.tokenLength rest⟩) := by
    rw [Span.ofColumn, if_neg (by omega), hpart]
    dsimp only
    rw [hcolumn, Span.inLine_eq htight hfront hcode]
    rfl
  obtain ⟨report, hreport, hlabels⟩ := Report.exists_of_ofColumn rejection.diagnostic hspan
  have hfrom : from? source
      (width ((lineParts source).take (rejection.line - 1)).flatten + width front) =
        some (rest ++ ((lineParts source).drop (rejection.line - 1 + 1)).flatten) := by
    refine from?_eq_some_iff.mpr
      ⟨((lineParts source).take (rejection.line - 1)).flatten ++ front, ?_, width_append _ _⟩
    simpa using eq_of_lineParts hpart
  -- where the line has nothing left it ends without a newline, so it is the last
  have hlast : rest = [] →
      ((lineParts source).drop (rejection.line - 1 + 1)).flatten = [] := by
    rintro rfl
    rw [List.append_nil] at hpart hcode
    obtain rfl := hfront.eq_of_length_le hcode.length_le
    rw [drop_lineParts hpart htight]
    rfl
  refine ⟨report, _, _, hreport, hlabels, ⟨hline, by omega, congrArg _ hoffset⟩, hfrom, ?_⟩
  rw [← Span.isSome_cut?_tokenLength_iff hlast, Span.LiesIn, slice?_eq_cut? hfrom]
  simp [Option.isSome_iff_exists]

/-- The operand that is no operand is a character of two bytes behind a blank of three. -/
def misspelledSource : Text := "NOP\nADD R0,\u3000é".toList

theorem report_points_at_rejection_wide :
    ∃ rejection report span,
      assemble misspelledSource = .error (.rejected rejection) ∧
        Report.ofDiagnostic misspelledSource rejection.diagnostic = .ok report ∧
          report.labels = [(span, "here")] ∧ span.offset = 14 ∧
            span.LiesIn misspelledSource := by
  have hassemble : assemble misspelledSource =
      .error (.rejected { cause := .operand (.badOperand ['é']), line := 2, column := 11 }) := by
    decide +kernel
  obtain ⟨report, span, after, hreport, hlabels, ⟨-, -, hoffset⟩, hfrom, hinside⟩ :=
    report_points_at_rejection hassemble
  have hstart : span.offset = 14 := hoffset.trans (by decide)
  have hafter : from? misspelledSource 14 = some ['é'] := by decide
  rw [hstart, hafter] at hfrom
  cases hfrom
  have hvisible : isBlank 'é' = false := by decide
  refine ⟨_, report, span, hassemble, hreport, hlabels, hstart, hinside.mpr ?_⟩
  exact ⟨'é', rfl, by simp [hvisible]⟩

/-- The value that the comma announces is missing. -/
def missingValue : Rejection :=
  { cause := .operand (.badLiteral [] .malformedDecimal), line := 1, column := 8 }

/-- Behind the last comma of a source there is no byte that the label could be. -/
theorem not_every_label_lies_in_the_source :
    ¬∀ source rejection, assemble source = .error (.rejected rejection) →
      ∃ report span,
        Report.ofDiagnostic source rejection.diagnostic = .ok report ∧
          report.labels = [(span, "here")] ∧ span.LiesIn source := by
  intro hall
  have hassemble : assemble ".EQU a,".toList = .error (.rejected missingValue) := by decide +kernel
  have hspan : Span.ofColumn ".EQU a,".toList missingValue.diagnostic.line
      missingValue.diagnostic.column = .ok (some ⟨7, 1⟩) := by decide +kernel
  obtain ⟨report, span, hreport, hlabels, text, htext⟩ := hall _ _ hassemble
  obtain ⟨found, hfound, hpast⟩ := Report.exists_of_ofColumn missingValue.diagnostic hspan
  rw [hreport] at hfound
  cases hfound
  rw [hlabels] at hpast
  cases hpast
  cases htext

end WordMachine
