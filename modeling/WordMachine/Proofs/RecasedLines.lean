import WordMachine.Proofs.OperandLists
import WordMachine.Proofs.RecasedTexts
import WordMachine.Source.Line
import Mathlib.Data.List.Forall2
import Mathlib.Data.Option.Basic

/-!
# Lines recased outside quotes

The scan for quotes, comments, commas and brackets does not see the case of
letters.  So a line whose code is recased has its comment at the same place, and
the same label, statement, word and operands, each recased at the same column.
-/

namespace WordMachine

/-! ## The scan for quotes -/

namespace Quoting

variable {quoting : Quoting} {c d : Char}

/-- Only quotes open a literal. -/
def Opened : Quoting → Prop
  | outside => True
  | inside quote | escaped quote => isQuote quote = true

theorem opened_outside : outside.Opened := trivial

theorem next_eq (hopened : quoting.Opened) (hsame : c.toUpper = d.toUpper) :
    quoting.next c = quoting.next d := by
  cases quoting with
  | outside =>
      rw [next, next, Text.blind_isQuote.eq hsame]
      by_cases hquote : isQuote d = true
      · rw [Text.eq_of_toUpper_eq hsame.symm (Text.isAlpha_of_isQuote hquote)]
      · rw [if_neg hquote, if_neg hquote]
  | inside quote =>
      have hbackslash : c = '\\' ↔ d = '\\' := Text.eq_mark_iff hsame (by decide)
      have hquote : c = quote ↔ d = quote :=
        Text.eq_mark_iff hsame (Text.isAlpha_of_isQuote hopened)
      simp only [next, hbackslash, hquote]
  | escaped quote => rfl

theorem Opened.next (hopened : quoting.Opened) (c : Char) : (quoting.next c).Opened := by
  cases quoting with
  | outside =>
      rw [Quoting.next]
      split
      next hquote => exact hquote
      · trivial
  | inside quote =>
      rw [Quoting.next]
      split
      · exact hopened
      · split
        · trivial
        · exact hopened
  | escaped quote => exact hopened

end Quoting

/-! ## Pieces -/

/-- The pieces start at the same column and have recased texts. -/
structure Piece.Recased (piece piece' : Piece) : Prop where
  text : Text.Recased piece.text piece'.text
  column_eq : piece.column = piece'.column

namespace Piece

open Text

variable {piece piece' : Piece}

theorem Recased.trimmed (h : piece.Recased piece') : piece.trimmed.Recased piece'.trimmed where
  text := h.text.trim
  column_eq := by
    rw [Piece.trimmed, Piece.trimmed, h.column_eq, h.text.width_eq, h.text.trimLeft.width_eq]

theorem Recased.splitWord (h : piece.Recased piece') :
    piece.splitWord.1.Recased piece'.splitWord.1 ∧
      Option.Rel Recased piece.splitWord.2 piece'.splitWord.2 := by
  have hword : Text.Recased (firstWord piece.text) (firstWord piece'.text) :=
    h.text.takeWhile blind_isBlank.not
  have hafter : Piece.Recased
      ⟨afterFirstWord piece.text, piece.column + width (firstWord piece.text)⟩
      ⟨afterFirstWord piece'.text, piece'.column + width (firstWord piece'.text)⟩ := by
    refine ⟨h.text.dropWhile blind_isBlank.not, ?_⟩
    dsimp only
    rw [h.column_eq, hword.width_eq]
  refine ⟨⟨hword, h.column_eq⟩, ?_⟩
  dsimp only [Piece.splitWord]
  rw [hafter.text.trim.isEmpty_eq]
  split
  · exact .none
  · exact .some hafter.trimmed

/-! ## Lists of operands -/

theorem nextDepth_toUpper (depth : Nat) (c : Char) :
    nextDepth depth c.toUpper = nextDepth depth c := by
  have hopen : c.toUpper = '[' ↔ c = '[' := toUpper_eq_mark_iff (by decide)
  have hclose : c.toUpper = ']' ↔ c = ']' := toUpper_eq_mark_iff (by decide)
  simp only [nextDepth, hopen, hclose]

theorem segments_upper {quoting : Quoting} (hopened : quoting.Opened) (depth : Nat) (a : Text) :
    segments quoting depth (upper a) = (segments quoting depth a).map upper := by
  induction a generalizing quoting depth with
  | nil => rfl
  | cons c a ih =>
      have hcomma : c.toUpper = ',' ↔ c = ',' := toUpper_eq_mark_iff (by decide)
      have hnext : quoting.next c.toUpper = quoting.next c :=
        Quoting.next_eq hopened (toUpper_toUpper c)
      rw [upper_cons, segments, segments]
      simp only [hcomma, nextDepth_toUpper, hnext]
      split
      next hcut => rw [List.map_cons, ih Quoting.opened_outside, upper_nil]
      next hkept =>
        rw [ih (hopened.next c)]
        cases segments (quoting.next c)
            (if quoting = .outside then nextDepth depth c else depth) a with
        | nil => rfl
        | cons segment others => rfl

theorem isSome_segments?_upper {quoting : Quoting} (hopened : quoting.Opened) (depth : Nat)
    (a : Text) :
    (segments? quoting depth (upper a)).isSome = (segments? quoting depth a).isSome := by
  induction a generalizing quoting depth with
  | nil => rfl
  | cons c a ih =>
      have hcomma : c.toUpper = ',' ↔ c = ',' := toUpper_eq_mark_iff (by decide)
      have hopen : c.toUpper = '[' ↔ c = '[' := toUpper_eq_mark_iff (by decide)
      have hnext : quoting.next c.toUpper = quoting.next c :=
        Quoting.next_eq hopened (toUpper_toUpper c)
      rw [upper_cons, segments?, segments?]
      simp only [hcomma, hopen, nextDepth_toUpper, hnext]
      split
      next hcut => rw [Option.isSome_map, Option.isSome_map, ih Quoting.opened_outside]
      next hkept =>
        split
        · rfl
        · rw [Option.isSome_map, Option.isSome_map, ih (hopened.next c)]

/-- Texts that are joined from parts of the same lengths have recased parts. -/
theorem recased_of_intercalate {parts parts' : List Text}
    (hlength : parts.map List.length = parts'.map List.length)
    (h : Text.Recased ([','].intercalate parts) ([','].intercalate parts')) :
    List.Forall₂ Text.Recased parts parts' := by
  induction parts generalizing parts' with
  | nil =>
      cases parts' with
      | nil => exact .nil
      | cons => cases hlength
  | cons part parts ih =>
      cases parts' with
      | nil => cases hlength
      | cons part' parts' =>
          obtain ⟨hpart, hparts⟩ := List.cons.inj hlength
          cases parts with
          | nil =>
              cases parts' with
              | nil => exact .cons (by simpa using h) .nil
              | cons => cases hparts
          | cons next others =>
              cases parts' with
              | nil => cases hparts
              | cons next' others' =>
                  rw [List.intercalate_cons_cons, List.intercalate_cons_cons] at h
                  have htotal := h.length_eq
                  simp only [List.length_append, List.length_singleton] at htotal
                  refine .cons ?_ (ih hparts ?_)
                  · refine h.of_prefix ?_ ?_ hpart
                    · rw [List.append_assoc]
                      exact List.prefix_append _ _
                    · rw [List.append_assoc]
                      exact List.prefix_append _ _
                  · exact h.of_suffix (List.suffix_append _ _) (List.suffix_append _ _) (by omega)

theorem recased_segments {quoting : Quoting} (hopened : quoting.Opened) (depth : Nat)
    {a b : Text} (h : Text.Recased a b) :
    List.Forall₂ Text.Recased (segments quoting depth a) (segments quoting depth b) := by
  apply recased_of_intercalate
  · have hlengths : ∀ a, (segments quoting depth a).map List.length =
        (segments quoting depth (upper a)).map List.length := by
      intro a
      rw [segments_upper hopened, List.map_map]
      exact List.map_congr_left fun segment _ => (length_upper segment).symm
    rw [hlengths, h.upper_eq, ← hlengths]
  · rwa [intercalate_segments, intercalate_segments]

theorem recased_place {texts texts' : List Text} (h : List.Forall₂ Text.Recased texts texts')
    (column : Nat) : List.Forall₂ Recased (place column texts) (place column texts') := by
  induction h generalizing column with
  | nil => exact .nil
  | cons htext _ ih =>
      rw [place, place, htext.width_eq]
      exact .cons ⟨htext, rfl⟩ (ih _)

theorem Recased.cut (h : piece.Recased piece') :
    List.Forall₂ Recased piece.cut piece'.cut := by
  have hsegments := recased_segments Quoting.opened_outside 0 h.text
  have hplaced := recased_place hsegments piece.column
  rw [Piece.cut, Piece.cut, ← h.column_eq, List.forall₂_map_left_iff,
    List.forall₂_map_right_iff]
  exact hplaced.imp fun _ _ hpiece => hpiece.trimmed

theorem Recased.splitOperands (h : piece.Recased piece') :
    Option.Rel (List.Forall₂ Recased) piece.splitOperands piece'.splitOperands := by
  have hsome : piece.splitOperands.isSome = piece'.splitOperands.isSome := by
    rw [Piece.splitOperands, Piece.splitOperands, Option.isSome_map, Option.isSome_map,
      ← isSome_segments?_upper Quoting.opened_outside, h.text.upper_eq,
      isSome_segments?_upper Quoting.opened_outside]
  cases hsplit : piece.splitOperands with
  | none =>
      rw [hsplit] at hsome
      rw [Option.not_isSome_iff_eq_none.mp (Bool.eq_false_iff.mp hsome.symm)]
      exact .none
  | some operands =>
      rw [hsplit] at hsome
      obtain ⟨operands', hsplit'⟩ := Option.isSome_iff_exists.mp hsome.symm
      rw [hsplit', eq_cut_of_splitOperands hsplit, eq_cut_of_splitOperands hsplit']
      exact .some h.cut

end Piece

/-! ## Lines -/

namespace SourceLine

open Text

variable {line line' : SourceLine} {code code' comment : Text}

/-- A line whose code is recased, with the same comment. -/
def RecasedText (raw raw' : Text) : Prop :=
  ∃ comment code',
    raw = stripComment .outside raw ++ comment ∧ raw' = code' ++ comment ∧
      Text.Recased (stripComment .outside raw) code'

/-- The lines agree but for the case of letters outside quotes. -/
structure Recased (line line' : SourceLine) : Prop where
  number_eq : line.number = line'.number
  label : Option.Rel Piece.Recased line.label line'.label
  statement : Option.Rel Piece.Recased line.statement line'.statement

/-- The comment of a recased line starts at the same place. -/
theorem stripComment_of_upper_eq {quoting : Quoting} (hopened : quoting.Opened)
    (hupper : upper code = upper code')
    (hcode : stripComment quoting (code ++ comment) = code) :
    stripComment quoting (code' ++ comment) = code' := by
  induction code generalizing quoting code' with
  | nil =>
      obtain rfl := List.length_eq_zero_iff.mp (length_eq_of_upper_eq hupper).symm
      exact hcode
  | cons c code ih =>
      obtain ⟨d, rest, rfl⟩ := List.exists_cons_of_length_eq_add_one
        (length_eq_of_upper_eq hupper).symm
      obtain ⟨hhead, hrest⟩ := List.cons.inj hupper
      have hnext : quoting.next d = quoting.next c := Quoting.next_eq hopened hhead.symm
      by_cases houtside : quoting = .outside
      · subst houtside
        have hslash : (code ++ comment).head? = some '/' ↔ (rest ++ comment).head? = some '/' := by
          cases code with
          | nil => rw [List.length_eq_zero_iff.mp (length_eq_of_upper_eq hrest).symm]
          | cons e code =>
              obtain ⟨f, others, rfl⟩ := List.exists_cons_of_length_eq_add_one
                (length_eq_of_upper_eq hrest).symm
              simpa using eq_mark_iff (List.cons.inj hrest).1 (by decide)
        by_cases hmarker : c = ';' ∨ c = '/' ∧ (code ++ comment).head? = some '/'
        · have hcut : stripComment .outside (c :: (code ++ comment)) = [] := by
            rw [stripComment, if_pos ⟨rfl, hmarker⟩]
          rw [List.cons_append, hcut] at hcode
          cases hcode
        · have hmarker' : ¬(d = ';' ∨ d = '/' ∧ (rest ++ comment).head? = some '/') := by
            rwa [← eq_mark_iff hhead (by decide), ← eq_mark_iff hhead (by decide), ← hslash]
          rw [List.cons_append, stripComment_outside hmarker] at hcode
          rw [List.cons_append, stripComment_outside hmarker', hnext,
            ih (hopened.next c) hrest (List.cons.inj hcode).2]
      · rw [List.cons_append, stripComment_inside houtside] at hcode
        rw [List.cons_append, stripComment_inside houtside, hnext,
          ih (hopened.next c) hrest (List.cons.inj hcode).2]

theorem blind_isLabelChar : Blind isLabelChar := by
  intro c
  simp [isLabelChar, blind_isBlank c, toUpper_eq_mark_iff]

theorem recased_splitLabel? (h : Text.Recased code code') :
    Option.Rel (fun split split' =>
        Text.Recased split.1 split'.1 ∧ Text.Recased split.2 split'.2)
      (splitLabel? code) (splitLabel? code') := by
  have hname := h.takeWhile blind_isLabelChar
  have hafter := (h.dropWhile blind_isLabelChar).trimLeft
  have hhead : (trimLeft (code.dropWhile isLabelChar)).head? = some ':' ↔
      (trimLeft (code'.dropWhile isLabelChar)).head? = some ':' :=
    hafter.head?_eq_mark_iff (by decide)
  by_cases hcolon : (trimLeft (code.dropWhile isLabelChar)).head? = some ':'
  · obtain ⟨rest, hrest⟩ := List.head?_eq_some_iff.mp hcolon
    obtain ⟨rest', hrest'⟩ := List.head?_eq_some_iff.mp (hhead.mp hcolon)
    rw [hrest, hrest'] at hafter
    rw [splitLabel?_colon hrest, splitLabel?_colon hrest', hname.isEmpty_eq]
    split
    · exact .none
    · exact .some ⟨hname, hafter.of_cons.2⟩
  · rw [splitLabel?_of_head?_ne hcolon, splitLabel?_of_head?_ne fun h => hcolon (hhead.mpr h)]
    exact .none

theorem recased_splitCode (h : Text.Recased code code') :
    Option.Rel Piece.Recased (splitCode code).1 (splitCode code').1 ∧
      Option.Rel Piece.Recased (splitCode code).2 (splitCode code').2 := by
  have hstart : ((⟨code, 1⟩ : Piece).trimmed).Recased (⟨code', 1⟩ : Piece).trimmed :=
    Piece.Recased.trimmed ⟨h, rfl⟩
  have hlabel := recased_splitLabel? hstart.text
  unfold splitCode
  dsimp only
  generalize (⟨code, 1⟩ : Piece).trimmed = start at *
  generalize (⟨code', 1⟩ : Piece).trimmed = start' at *
  generalize splitLabel? start.text = split at *
  generalize splitLabel? start'.text = split' at *
  cases hlabel with
  | none => exact ⟨.none, .some hstart⟩
  | some hsplit =>
      obtain ⟨hname, hrest⟩ := hsplit
      refine ⟨.some ⟨hname, hstart.column_eq⟩, ?_⟩
      dsimp only
      rw [hrest.trim.isEmpty_eq, hstart.column_eq, hstart.text.width_eq, hrest.width_eq]
      split
      · exact .none
      · exact .some (Piece.Recased.trimmed ⟨hrest, rfl⟩)

theorem recased_read? {raw raw' : Text} (h : RecasedText raw raw') (number : Nat) :
    Option.Rel Recased (read? number raw) (read? number raw') := by
  obtain ⟨comment, code', hraw, hraw', hcode⟩ := h
  have hstripped : stripComment .outside raw' = code' := by
    rw [hraw']
    apply stripComment_of_upper_eq Quoting.opened_outside hcode.upper_eq
    rw [← hraw]
  obtain ⟨hlabel, hstatement⟩ := recased_splitCode hcode.trimRight
  unfold read?
  dsimp only
  rw [hstripped, hcode.trimRight.isEmpty_eq]
  split
  · exact .none
  · exact .some ⟨rfl, hlabel, hstatement⟩

theorem recased_ofText {source source' : Text}
    (h : List.Forall₂ RecasedText (lines source) (lines source')) :
    List.Forall₂ Recased (ofText source) (ofText source') := by
  have hnumbered : ∀ {raws raws' : List Text}, List.Forall₂ RecasedText raws raws' →
      ∀ start,
        List.Forall₂ Recased
          ((raws.zipIdx start).filterMap fun line => read? line.2 line.1)
          ((raws'.zipIdx start).filterMap fun line => read? line.2 line.1) := by
    intro raws raws' hraws
    induction hraws with
    | nil => exact fun _ => .nil
    | cons hraw _ ih =>
        intro start
        have hline := recased_read? hraw start
        rw [List.zipIdx_cons, List.zipIdx_cons, List.filterMap_cons, List.filterMap_cons]
        dsimp only
        generalize read? start _ = read at *
        generalize read? start _ = read' at *
        cases hline with
        | none => exact ih (start + 1)
        | some hline => exact .cons hline (ih (start + 1))
  exact hnumbered h 1

end SourceLine
end WordMachine
