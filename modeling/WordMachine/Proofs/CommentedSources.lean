import WordMachine.Proofs.LineNumbers

/-!
# Comments and blank lines

A comment behind a line whose quotes are closed is cut off with the blanks before
it, whatever the comment says.  A line of blanks and comment alone says nothing,
so with it the numbers of the lines behind change and nothing else does.
-/

namespace WordMachine

open Text

/-- A text that starts with the mark of a comment. -/
def Text.IsComment (text : Text) : Prop := text.head? = some ';' ∨ ['/', '/'] <+: text

/-- Blanks and, behind them, a comment or nothing. -/
def Text.IsBlankLine (line : Text) : Prop :=
  ∃ blanks comment, line = blanks ++ comment ∧ (∀ c ∈ blanks, isBlank c = true) ∧
    (comment = [] ∨ IsComment comment)

namespace SourceLine

/-! ## Code without comments -/

/-- No comment starts in the text, and it ends outside quotes. -/
def IsCode (text : Text) : Prop :=
  ∀ rest, stripComment .outside (text ++ rest) = text ++ stripComment .outside rest

theorem isCode_nil : IsCode [] := fun _ => rfl

theorem IsCode.append {a b : Text} (ha : IsCode a) (hb : IsCode b) : IsCode (a ++ b) := by
  intro rest
  rw [List.append_assoc, ha, hb, List.append_assoc]

theorem IsCode.of_plain {text : Text}
    (hplain : ∀ c ∈ text, c ∉ ['\'', '"', ';', '/']) : IsCode text := by
  induction text with
  | nil => exact isCode_nil
  | cons c text ih =>
      intro rest
      have hc : c ≠ '\'' ∧ c ≠ '"' ∧ c ≠ ';' ∧ c ≠ '/' := by simpa using hplain c (by simp)
      have hnext : Quoting.outside.next c = .outside := by
        simp [Quoting.next, Quoting.isQuote, hc]
      have hrest := ih fun d hd => hplain d (by simp [hd])
      rw [List.cons_append, stripComment_outside (by simp [hc]), hnext, hrest,
        List.cons_append]

theorem isCode_of_blanks {blanks : Text} (hblanks : ∀ c ∈ blanks, isBlank c = true) :
    IsCode blanks := by
  have hmarks : ['\'', '"', ';', '/'].all (!isBlank ·) = true := rfl
  apply IsCode.of_plain
  intro c hc hmark
  have hvisible := List.all_eq_true.mp hmarks c hmark
  simp [hblanks c hc] at hvisible

/-! ## One line with a comment behind it -/

theorem stripComment_comment {comment : Text} (hcomment : IsComment comment) :
    stripComment .outside comment = [] := by
  rcases hcomment with hsemicolon | ⟨rest, rfl⟩
  · obtain ⟨rest, rfl⟩ := List.head?_eq_some_iff.mp hsemicolon
    simp [stripComment]
  · simp [stripComment]

/-- Either a comment starts in the text, and what follows does not matter, or the scan goes on
behind it. -/
theorem stripComment_append {rest : Text} (hrest : rest.head? ≠ some '/') (quoting : Quoting)
    (text : Text) :
    stripComment quoting (text ++ rest) = stripComment quoting text ∨
      stripComment quoting text = text ∧
        stripComment quoting (text ++ rest) = text ++ stripComment (quoting.after text) rest := by
  induction text generalizing quoting with
  | nil => exact .inr ⟨rfl, rfl⟩
  | cons c text ih =>
      have hhead : (text ++ rest).head? = some '/' ↔ text.head? = some '/' := by
        simp [List.head?_append, Option.or_eq_some_iff, hrest]
      rw [List.cons_append, stripComment, stripComment]
      simp only [hhead]
      split
      · exact .inl rfl
      · rcases ih (quoting.next c) with hsame | ⟨hall, hbehind⟩
        · exact .inl (congrArg (c :: ·) hsame)
        · exact .inr ⟨congrArg (c :: ·) hall, congrArg (c :: ·) hbehind⟩

theorem read?_comment {line comment : Text}
    (hclosed : Quoting.outside.after (stripComment .outside line) = .outside)
    (hcomment : IsComment comment) (number : Nat) :
    read? number (line ++ ' ' :: comment) = read? number line := by
  have hblank : ∀ c ∈ [' '], isBlank c = true := List.all_eq_true.mp rfl
  have hcut : stripComment .outside (' ' :: comment) = [' '] := by
    rw [← List.singleton_append, isCode_of_blanks hblank, stripComment_comment hcomment]
    rfl
  have htrim : trimRight (stripComment .outside (line ++ ' ' :: comment)) =
      trimRight (stripComment .outside line) := by
    have hspace : (' ' :: comment).head? ≠ some '/' := by simp
    rcases stripComment_append hspace .outside line with hsame | ⟨hall, hbehind⟩
    · rw [hsame]
    · rw [hall] at hclosed
      rw [hbehind, hall, hclosed, hcut, trimRight_append_blanks line hblank]
  rw [read?, htrim, read?]

theorem read?_blankLine {line : Text} (hline : IsBlankLine line) (number : Nat) :
    read? number line = none := by
  obtain ⟨blanks, comment, rfl, hblanks, hcomment⟩ := hline
  have hcut : stripComment .outside comment = [] := by
    rcases hcomment with rfl | hcomment
    · rfl
    · exact stripComment_comment hcomment
  simp [read?, isCode_of_blanks hblanks comment, hcut, trimRight_blanks hblanks]

/-! ## The lines of a source -/

/-- The lines that say something, numbered from `first` on. -/
def numbered (first : Nat) (raws : List Text) : List SourceLine :=
  (raws.zipIdx first).filterMap fun line => read? line.2 line.1

theorem read?_renumber (f : Nat → Nat) (number : Nat) (raw : Text) :
    read? (f number) raw = (read? number raw).map (·.renumber f) := by
  unfold read?
  dsimp only
  split
  · rfl
  · rfl

theorem ofText_eq (source : Text) : ofText source = numbered 1 (lines source) := rfl

theorem numbered_cons (first : Nat) (raw : Text) (raws : List Text) :
    numbered first (raw :: raws) = (read? first raw).toList ++ numbered (first + 1) raws := by
  rw [numbered, List.zipIdx_cons, List.filterMap_cons]
  cases read? first raw with
  | none => rfl
  | some line => rfl

theorem numbered_append (first : Nat) (before after : List Text) :
    numbered first (before ++ after) =
      numbered first before ++ numbered (first + before.length) after := by
  rw [numbered, List.zipIdx_append, List.filterMap_append]
  rfl

theorem numbered_renumber {f : Nat → Nat} {first first' : Nat} {raws : List Text}
    (hnumbers : ∀ index < raws.length, f (first + index) = first' + index) :
    numbered first' raws = (numbered first raws).map (·.renumber f) := by
  induction raws generalizing first first' with
  | nil => rfl
  | cons raw raws ih =>
      have hfirst : f first = first' := hnumbers 0 (by simp)
      have hrest : numbered (first' + 1) raws = (numbered (first + 1) raws).map (·.renumber f) := by
        apply ih
        intro index hindex
        have hnumber := hnumbers (index + 1) (by simpa using hindex)
        rw [Nat.add_right_comm, Nat.add_assoc, hnumber]
        omega
      have hread := read?_renumber f first raw
      rw [hfirst] at hread
      rw [numbered_cons, numbered_cons, hread, hrest, List.map_append]
      cases read? first raw with
      | none => rfl
      | some line => rfl

theorem ofText_comment {source source' : Text} {before after : List Text} {line comment : Text}
    (hsource : lines source = before ++ line :: after)
    (hsource' : lines source' = before ++ (line ++ ' ' :: comment) :: after)
    (hclosed : Quoting.outside.after (stripComment .outside line) = .outside)
    (hcomment : IsComment comment) : ofText source' = ofText source := by
  rw [ofText_eq, ofText_eq, hsource, hsource', numbered_append, numbered_append, numbered_cons,
    numbered_cons, read?_comment hclosed hcomment]

/-- The number that a line has when a line has been put in behind the first `count`. -/
def shifted (count number : Nat) : Nat := if number ≤ count then number else number + 1

theorem ofText_blankLine {source source' : Text} {before after : List Text} {blank : Text}
    (hsource : lines source = before ++ after) (hsource' : lines source' = before ++ blank :: after)
    (hblank : IsBlankLine blank) :
    ofText source' = (ofText source).map (·.renumber (shifted before.length)) := by
  have hbefore : numbered 1 before =
      (numbered 1 before).map (·.renumber (shifted before.length)) := by
    apply numbered_renumber
    intro index hindex
    rw [shifted, if_pos (by omega)]
  have hafter : numbered (1 + before.length + 1) after =
      (numbered (1 + before.length) after).map (·.renumber (shifted before.length)) := by
    apply numbered_renumber
    intro index _
    rw [shifted, if_neg (by omega)]
    omega
  rw [ofText_eq, ofText_eq, hsource, hsource', numbered_append, numbered_append, numbered_cons,
    read?_blankLine hblank, List.map_append, ← hbefore, ← hafter]
  rfl

end SourceLine

/-- A comment behind a line changes nothing, and a blank line nothing but line numbers. -/
theorem comments_and_blank_lines_are_ignored
    (source source' : Text) (before after : List Text) :
    (∀ line comment,
      lines source = before ++ line :: after →
        lines source' = before ++ (line ++ ' ' :: comment) :: after →
          Quoting.outside.after (SourceLine.stripComment .outside line) = .outside →
            IsComment comment → assemble source' = assemble source) ∧
      ∀ blank,
        lines source = before ++ after → lines source' = before ++ blank :: after →
          IsBlankLine blank →
            (∀ program, assemble source = .ok program →
              assemble source' = .ok (program.renumber (SourceLine.shifted before.length))) ∧
              (∀ rejection, assemble source = .error (.rejected rejection) →
                ∃ rejection',
                  assemble source' = .error (.rejected rejection') ∧
                    rejection'.cause.code = rejection.cause.code ∧
                      rejection'.line = SourceLine.shifted before.length rejection.line ∧
                        rejection'.column = rejection.column ∧
                          rejection'.suggestion = rejection.suggestion) ∧
              ∀ message, assemble source = .error (.breakdown message) →
                assemble source' = .error (.breakdown message) := by
  refine ⟨?_, ?_⟩
  · intro line comment hsource hsource' hclosed hcomment
    have hlines := SourceLine.ofText_comment hsource hsource' hclosed hcomment
    rw [assemble, Layout.ofText, hlines]
    rfl
  · intro blank hsource hsource' hblank
    have hassemble := assemble_renumber (SourceLine.ofText_blankLine hsource hsource' hblank)
    refine ⟨?_, ?_, ?_⟩
    · intro program hprogram
      rw [hassemble, hprogram]
      rfl
    · intro rejection hrejection
      rw [hrejection] at hassemble
      exact ⟨_, hassemble, rejection.cause.code_renumber, rfl, rfl, rfl⟩
    · intro message hbreakdown
      rw [hassemble, hbreakdown]
      rfl

theorem comments_and_blank_lines_are_ignored_jump :
    let source := "start: JMP start\r\nHLT".toList
    assemble "start: JMP start // it's\r\nHLT".toList = assemble source ∧
      ∃ program,
        assemble source = .ok program ∧
          assemble "start: JMP start\r\n\t; \"\nHLT".toList =
            .ok (program.renumber (SourceLine.shifted 1)) := by
  intro source
  let first := "start: JMP start".toList
  let last := "HLT".toList
  have hsource : lines source = [first, last] := by rfl
  have hclosed : Quoting.outside.after (SourceLine.stripComment .outside first) = .outside := by
    rfl
  have hcomment : IsComment "// it's".toList := .inr ⟨" it's".toList, rfl⟩
  have hblank : IsBlankLine "\t; \"".toList :=
    ⟨"\t".toList, "; \"".toList, rfl, List.all_eq_true.mp rfl, .inr (.inl rfl)⟩
  have hcommented : lines "start: JMP start // it's\r\nHLT".toList =
      [] ++ (first ++ ' ' :: "// it's".toList) :: [last] := by rfl
  have hspaced : lines "start: JMP start\r\n\t; \"\nHLT".toList =
      [first] ++ "\t; \"".toList :: [last] := by rfl
  obtain ⟨hsame, -⟩ := comments_and_blank_lines_are_ignored source _ [] [last]
  obtain ⟨-, hshifted⟩ := comments_and_blank_lines_are_ignored source _ [first] [last]
  refine ⟨hsame first _ hsource hcommented hclosed hcomment, ?_⟩
  obtain ⟨program, hprogram⟩ : ∃ program, assemble source = .ok program := by
    exact ⟨_, rfl⟩
  exact ⟨program, hprogram, (hshifted _ hsource hspaced hblank).1 program hprogram⟩

end WordMachine
