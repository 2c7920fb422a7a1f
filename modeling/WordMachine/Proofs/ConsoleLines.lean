import WordMachine.Machine.Console

/-!
# Console output as one text

A line that is still open is carried from one write to the next, so where the
output is cut into writes should not show.  It does not: the lines are those of
all the text written since the console was cleared, split at its newlines.
-/

namespace WordMachine

namespace Console

/-- The parts of a text between its newlines; an empty part at the end is no line. -/
def split (text : Text) : List Text :=
  let parts := text.splitOn '\n'
  if parts.getLast? = some [] then parts.dropLast else parts

/-- What a program does to its console. -/
inductive Output
  | write (text : Text)
  | newline

def Output.text : Output → Text
  | write text => text
  | newline => ['\n']

def emit (console : Console) : Output → Console
  | .write text => console.write text
  | .newline => console.newline

def emitAll (console : Console) (outputs : List Output) : Console := outputs.foldl emit console

/-! ## Newlines stand between lines only -/

structure Unbroken (console : Console) : Prop where
  finished : ∀ line ∈ console.finished, '\n' ∉ line
  pending : '\n' ∉ console.pending

variable {console : Console}

theorem unbroken_clear (console : Console) : console.clear.Unbroken := ⟨nofun, nofun⟩

theorem Unbroken.put (h : console.Unbroken) (c : Char) : (console.put c).Unbroken := by
  unfold Console.put
  by_cases hend : c = '\n'
  · rw [if_pos hend]
    refine ⟨List.forall_mem_cons.mpr ⟨?_, h.finished⟩, nofun⟩
    rw [List.mem_reverse]
    exact h.pending
  · rw [if_neg hend]
    exact ⟨h.finished, by simp [Ne.symm hend, h.pending]⟩

theorem Unbroken.foldl_put (h : console.Unbroken) (text : Text) :
    (text.foldl Console.put console).Unbroken := by
  induction text generalizing console with
  | nil => exact h
  | cons c rest ih => exact ih (h.put c)

theorem Unbroken.write (h : console.Unbroken) (text : Text) : (console.write text).Unbroken :=
  ⟨(h.foldl_put text).finished, (h.foldl_put text).pending⟩

theorem Unbroken.emit (h : console.Unbroken) (output : Output) :
    (console.emit output).Unbroken := by
  cases output with
  | write text => exact h.write text
  | newline => exact h.write ['\n']

theorem Unbroken.emitAll (h : console.Unbroken) (outputs : List Output) :
    (console.emitAll outputs).Unbroken := by
  induction outputs generalizing console with
  | nil => exact h
  | cons output rest ih => exact ih (h.emit output)

/-! ## The console shows its text -/

theorem text_emit (console : Console) (output : Output) :
    (console.emit output).text = console.text ++ output.text := by
  cases output with
  | write text => exact text_write console text
  | newline => exact text_write console ['\n']

theorem text_emitAll (console : Console) (outputs : List Output) :
    (console.emitAll outputs).text = console.text ++ outputs.flatMap Output.text := by
  induction outputs generalizing console with
  | nil => simp [emitAll]
  | cons output rest ih =>
      rw [emitAll, List.foldl_cons, ← emitAll, ih, text_emit, List.flatMap_cons,
        List.append_assoc]

theorem splitOn_lines {finished : List Text} {pending : Text}
    (hfinished : ∀ line ∈ finished, '\n' ∉ line) (hpending : '\n' ∉ pending) :
    (finished.flatMap (· ++ ['\n']) ++ pending).splitOn '\n' = finished ++ [pending] := by
  induction finished with
  | nil => exact List.splitOn_eq_singleton hpending
  | cons line rest ih =>
      obtain ⟨hline, hrest⟩ := List.forall_mem_cons.mp hfinished
      rw [List.flatMap_cons, List.append_assoc, List.append_assoc, List.singleton_append,
        List.splitOn_append_cons_self_of_not_mem hline, ih hrest, List.cons_append]

/-- The lines of a console are the parts of its text. -/
theorem Unbroken.lines_eq (h : console.Unbroken) : console.lines = split console.text := by
  have hfinished : ∀ line ∈ console.finished.reverse, '\n' ∉ line := fun line hmem =>
    h.finished line (List.mem_reverse.mp hmem)
  have hpending : '\n' ∉ console.pending.reverse := fun hmem =>
    h.pending (List.mem_reverse.mp hmem)
  rw [split, text, splitOn_lines hfinished hpending, lines]
  cases console.pending with
  | nil => simp
  | cons c rest => simp

theorem isEmpty_iff_text (console : Console) : console.isEmpty = true ↔ console.text = [] := by
  rw [isEmpty, text, Bool.and_eq_true, List.isEmpty_iff, List.isEmpty_iff,
    List.append_eq_nil_iff, List.reverse_eq_nil_iff]
  cases console.finished with
  | nil => simp
  | cons line rest => simp

end Console

open Console

/-- What a console shows depends only on the text that all outputs since it was cleared make
together: its lines are that text split at the newlines, it is empty if the text is, and so any
other outputs of the same text show the same. -/
theorem console_shows_the_whole_text (console : Console) (outputs : List Output) :
    let text := outputs.flatMap Output.text
    let shown := console.clear.emitAll outputs
    shown.lines = split text ∧
      (shown.isEmpty = true ↔ text = []) ∧
        ∀ (other : Console) (others : List Output), others.flatMap Output.text = text →
          (other.clear.emitAll others).lines = shown.lines := by
  have hshows : ∀ (console : Console) (outputs : List Output),
      (console.clear.emitAll outputs).lines = split (outputs.flatMap Output.text) := by
    intro console outputs
    have hunbroken := (unbroken_clear console).emitAll outputs
    rw [hunbroken.lines_eq, text_emitAll]
    rfl
  intro text shown
  refine ⟨hshows console outputs, ?_, ?_⟩
  · rw [isEmpty_iff_text, text_emitAll]
    rfl
  · intro other others hsame
    rw [hshows other others, hsame, ← hshows console outputs]

example : Console.split "a\n\nb\n".toList = ["a".toList, [], "b".toList] := by
  decide

end WordMachine
