import WordMachine.Text.Blank

/-!
# Lines

`lineParts` cuts a text after each newline, so that joining the parts gives the
text back.  `lines` takes the line ends off: a newline, with one carriage return
before it.
-/

namespace WordMachine
namespace Text

/-- The lines of a text, each with its newline; only the last may lack one. -/
def lineParts : Text → List Text
  | [] => []
  | c :: rest =>
      if c = '\n' then [c] :: lineParts rest
      else
        match lineParts rest with
        | [] => [[c]]
        | first :: others => (c :: first) :: others

theorem flatten_lineParts (text : Text) : (lineParts text).flatten = text := by
  induction text with
  | nil => rfl
  | cons c rest ih =>
      unfold lineParts
      split
      · simp [ih]
      · split <;> rename_i heq <;> rw [heq] at ih <;> simp_all

/-- Take the line end off one part. -/
def dropLineEnd (part : Text) : Text :=
  match part.reverse with
  | '\n' :: '\r' :: rest => rest.reverse
  | '\n' :: rest => rest.reverse
  | _ => part

def lines (text : Text) : List Text := (lineParts text).map dropLineEnd

/-! ## Lines put together -/

/-- Behind a newline the lines of a text start afresh. -/
theorem lineParts_append (front back : Text) :
    lineParts (front ++ '\n' :: back) = lineParts (front ++ ['\n']) ++ lineParts back := by
  induction front with
  | nil => simp [lineParts]
  | cons c front ih =>
      by_cases hend : c = '\n'
      · simp [lineParts, hend, ih]
      · have hparts : lineParts (front ++ ['\n']) ≠ [] := by
          intro hnone
          have hflatten := flatten_lineParts (front ++ ['\n'])
          simp [hnone] at hflatten
        obtain ⟨first, others, hfirst⟩ := List.exists_cons_of_ne_nil hparts
        simp [lineParts, hend, ih, hfirst]

theorem lines_append (front back : Text) :
    lines (front ++ '\n' :: back) = lines (front ++ ['\n']) ++ lines back := by
  rw [lines, lineParts_append, List.map_append]
  rfl

theorem lineParts_of_line {line : Text} (hline : '\n' ∉ line) (hne : line ≠ []) :
    lineParts line = [line] := by
  induction line with
  | nil => exact absurd rfl hne
  | cons c line ih =>
      have hc : c ≠ '\n' := fun hend => hline (by simp [hend])
      cases line with
      | nil => simp [lineParts, hc]
      | cons d line =>
          have hrest := ih (fun hmem => hline (by simp [hmem])) (by simp)
          rw [lineParts, if_neg hc, hrest]

theorem dropLineEnd_of_line {line : Text} (hline : '\n' ∉ line) : dropLineEnd line = line := by
  have hend : ∀ rest, line.reverse ≠ '\n' :: rest := by
    intro rest hreverse
    have hmem : '\n' ∈ line.reverse := by simp [hreverse]
    exact hline (List.mem_reverse.mp hmem)
  unfold dropLineEnd
  split
  next rest hreverse => exact absurd hreverse (hend ('\r' :: rest))
  next rest _ hreverse => exact absurd hreverse (hend rest)
  · rfl

theorem lines_of_line {line : Text} (hline : '\n' ∉ line) (hne : line ≠ []) :
    lines line = [line] := by
  rw [lines, lineParts_of_line hline hne, List.map_singleton, dropLineEnd_of_line hline]

end Text
end WordMachine
