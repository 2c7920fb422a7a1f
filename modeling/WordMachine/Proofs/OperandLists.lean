import WordMachine.Source.Piece
import Mathlib.Data.List.Forall2
import Mathlib.Data.List.TakeWhile

/-!
# Written statements come apart again

A statement is a word, a blank and a list of operands.  The list comes apart at
the commas that were put between its operands, as long as no operand has a comma
of its own outside quotes and brackets and each closes the quotes and brackets
that it opens.
-/

namespace WordMachine
namespace Piece

open Text

/-! ## The word and what follows it -/

variable {word rest : Text}

theorem trimmed_of_isTight (htight : IsTight rest) (column : Nat) :
    trimmed ⟨rest, column⟩ = ⟨rest, column⟩ := by
  simp [trimmed, htight.trim_eq, htight.trimLeft_eq]

theorem trimmed_blank (htight : IsTight rest) (column : Nat) :
    trimmed ⟨' ' :: rest, column⟩ = ⟨rest, column + 1⟩ := by
  have hblank : trimLeft (' ' :: rest) = rest := by
    rw [trimLeft_blank (by decide), htight.trimLeft_eq]
  have hsize : Char.utf8Size ' ' = 1 := by decide
  simp [trimmed, trim, hblank, htight.trimRight_eq, hsize]

theorem splitWord_word (hword : ∀ c ∈ word, isBlank c = false) (column : Nat) :
    splitWord ⟨word, column⟩ = (⟨word, column⟩, none) := by
  have hfirst : firstWord word = word := List.takeWhile_eq_self_iff.mpr (by simpa using hword)
  have hafter : afterFirstWord word = [] := List.dropWhile_eq_nil_iff.mpr (by simpa using hword)
  simp [splitWord, hfirst, hafter, trim, trimLeft, trimRight]

theorem splitWord_append (hword : ∀ c ∈ word, isBlank c = false) (htight : IsTight rest)
    (column : Nat) :
    splitWord ⟨word ++ ' ' :: rest, column⟩ =
      (⟨word, column⟩, some ⟨rest, column + width word + 1⟩) := by
  have hblank : isBlank ' ' = true := by decide
  have hvisible : ∀ c ∈ word, (!isBlank c) = true := by simpa using hword
  have hstop : (!isBlank ' ') = false := by decide
  simp [splitWord, firstWord, afterFirstWord, takeWhile_stop hvisible hstop,
    dropWhile_stop hvisible hstop, htight.trim_blank hblank, htight.ne_nil, trimmed_blank htight]

/-! ## Lists cut without counting brackets -/

/-- The segments of a text, however many of its brackets are open. -/
def segments (quoting : Quoting) (depth : Nat) : Text → List Text
  | [] => [[]]
  | c :: rest =>
      if quoting = .outside ∧ c = ',' ∧ depth = 0 then
        [] :: segments .outside 0 rest
      else
        let depth := if quoting = .outside then nextDepth depth c else depth
        (segments (quoting.next c) depth rest).modifyHead (c :: ·)

/-- The operands of a list, however many of its brackets are open. -/
def cut (piece : Piece) : List Piece :=
  (place piece.column (segments .outside 0 piece.text)).map trimmed

theorem eq_segments_of_segments? {quoting : Quoting} {depth : Nat} {text : Text}
    {cuts : List Text} (hsome : segments? quoting depth text = some cuts) :
    cuts = segments quoting depth text := by
  induction text generalizing quoting depth cuts with
  | nil => exact (Option.some.inj hsome).symm
  | cons c rest ih =>
      rw [segments?] at hsome
      rw [segments]
      split at hsome
      next hcut =>
        obtain ⟨later, hlater, rfl⟩ := Option.map_eq_some_iff.mp hsome
        rw [if_pos hcut, ih hlater]
      next hstays =>
        obtain ⟨-, hrest⟩ := Option.ite_none_left_eq_some.mp hsome
        obtain ⟨later, hlater, rfl⟩ := Option.map_eq_some_iff.mp hrest
        rw [if_neg hstays, ih hlater]

theorem eq_cut_of_splitOperands {piece : Piece} {operands : List Piece}
    (hsome : piece.splitOperands = some operands) : operands = piece.cut := by
  obtain ⟨cuts, hcuts, rfl⟩ := Option.map_eq_some_iff.mp hsome
  rw [eq_segments_of_segments? hcuts]
  rfl

/-! ## Segments joined again -/

theorem segments_ne_nil (quoting : Quoting) (depth : Nat) (text : Text) :
    segments quoting depth text ≠ [] := by
  induction text generalizing quoting depth with
  | nil => simp [segments]
  | cons c rest ih =>
      rw [segments]
      split
      · simp
      · simp [ih]

theorem intercalate_cons {texts : List Text} (hne : texts ≠ []) (separator text : Text) :
    separator.intercalate (text :: texts) = text ++ separator ++ separator.intercalate texts := by
  obtain ⟨next, rest, rfl⟩ := List.exists_cons_of_ne_nil hne
  exact List.intercalate_cons_cons

theorem intercalate_modifyHead {texts : List Text} (hne : texts ≠ []) (separator : Text)
    (c : Char) :
    separator.intercalate (texts.modifyHead (c :: ·)) = c :: separator.intercalate texts := by
  obtain ⟨text, rest, rfl⟩ := List.exists_cons_of_ne_nil hne
  cases rest with
  | nil => simp
  | cons next rest => simp [List.intercalate_cons_cons]

/-- The segments of a text are the text with its commas taken out. -/
theorem intercalate_segments (quoting : Quoting) (depth : Nat) (text : Text) :
    [','].intercalate (segments quoting depth text) = text := by
  induction text generalizing quoting depth with
  | nil => rfl
  | cons c rest ih =>
      rw [segments]
      split
      next hcut =>
        obtain ⟨-, rfl, -⟩ := hcut
        rw [intercalate_cons (segments_ne_nil _ _ _), ih]
        rfl
      · rw [intercalate_modifyHead (segments_ne_nil _ _ _), ih]

/-! ## Lists that do not open too many brackets -/

theorem nextDepth_le (depth : Nat) (c : Char) (rest : Text) :
    nextDepth depth c + rest.count '[' ≤ depth + (c :: rest).count '[' := by
  rw [List.count_cons, nextDepth]
  by_cases hopen : c = '['
  · rw [if_pos hopen, if_pos (beq_iff_eq.mpr hopen)]
    omega
  · rw [if_neg hopen, if_neg (mt beq_iff_eq.mp hopen)]
    split
    · omega
    · omega

theorem segments?_of_count_lt {quoting : Quoting} {depth : Nat} {text : Text}
    (hcount : depth + text.count '[' < depthLimit) :
    segments? quoting depth text = some (segments quoting depth text) := by
  induction text generalizing quoting depth with
  | nil => rfl
  | cons c rest ih =>
      have hmore := List.count_le_count_cons (a := '[') (b := c) (l := rest)
      rw [segments?, segments]
      split
      next hcut => rw [ih (by omega), Option.map_some]
      next =>
        have hcounted : ¬(quoting = .outside ∧ c = '[' ∧ depthLimit ≤ depth + 1) := by
          rintro ⟨-, rfl, hfull⟩
          rw [List.count_cons_self] at hcount
          omega
        have hrest : (if quoting = .outside then nextDepth depth c else depth) +
            rest.count '[' < depthLimit := by
          have hnext := nextDepth_le depth c rest
          split
          · omega
          · omega
        rw [if_neg hcounted]
        dsimp only
        rw [ih hrest, Option.map_some]

/-- A list with fewer brackets than can be counted is cut. -/
theorem splitOperands_of_count_lt {piece : Piece} (hcount : piece.text.count '[' < depthLimit) :
    piece.splitOperands = some piece.cut := by
  rw [splitOperands, segments?_of_count_lt (by rwa [Nat.zero_add]), Option.map_some]
  rfl

/-! ## Texts that are not cut -/

/-- The splitting passes over the text, and goes on behind it as at the start of a list. -/
def IsWhole (text : Text) : Prop :=
  ∀ rest,
    segments? .outside 0 (text ++ rest) =
      (segments? .outside 0 rest).map (·.modifyHead (text ++ ·))

theorem IsWhole.append {a b : Text} (ha : IsWhole a) (hb : IsWhole b) : IsWhole (a ++ b) := by
  intro rest
  rw [List.append_assoc, ha, hb, Option.map_map]
  congr 1
  funext segments
  simp [List.modifyHead_modifyHead, Function.comp_def]

/-- A character that neither cuts an operand list nor opens or closes anything in it. -/
structure IsPlain (c : Char) : Prop where
  quote : Quoting.isQuote c = false
  comma : c ≠ ','
  opening : c ≠ '['
  closing : c ≠ ']'

theorem segments?_plain {text : Text} (hplain : ∀ c ∈ text, IsPlain c) (depth : Nat)
    (rest : Text) :
    segments? .outside depth (text ++ rest) =
      (segments? .outside depth rest).map (·.modifyHead (text ++ ·)) := by
  induction text with
  | nil =>
      have hsame : (fun cuts : List Text => cuts.modifyHead ([] ++ ·)) = id :=
        funext (congrFun List.modifyHead_id)
      rw [List.nil_append, hsame, Option.map_id_apply]
  | cons c text ih =>
      have hc := hplain c (by simp)
      have hnext : Quoting.outside.next c = .outside := by simp [Quoting.next, hc.quote]
      have hdepth : nextDepth depth c = depth := by simp [nextDepth, hc.opening, hc.closing]
      rw [List.cons_append, segments?_outside (fun hcomma => absurd hcomma hc.comma)
        (fun hopen => absurd hopen hc.opening), hnext, hdepth,
        ih fun d hd => hplain d (by simp [hd]), Option.map_map]
      congr 1
      funext segments
      simp [List.modifyHead_modifyHead, Function.comp_def]

theorem isWhole_of_plain {text : Text} (hplain : ∀ c ∈ text, IsPlain c) : IsWhole text :=
  segments?_plain hplain 0

theorem isWhole_bracketed {body : Text} (hplain : ∀ c ∈ body, IsPlain c) :
    IsWhole ('[' :: body ++ [']']) := by
  intro rest
  have hopen : Quoting.outside.next '[' = .outside := rfl
  have hclose : Quoting.outside.next ']' = .outside := rfl
  rw [List.cons_append, List.cons_append, List.append_assoc,
    segments?_outside (by simp) (by decide), hopen, segments?_plain hplain, List.singleton_append,
    segments?_outside (by simp) (by simp), hclose, Option.map_map, Option.map_map]
  congr 1
  funext segments
  simp [List.modifyHead_modifyHead, Function.comp_def]

/-! ## Lists of such texts -/

theorem segments?_intercalate {texts : List Text} (hne : texts ≠ [])
    (hwhole : ∀ text ∈ texts, IsWhole text) :
    segments? .outside 0 ([','].intercalate texts) = some texts := by
  induction texts with
  | nil => exact absurd rfl hne
  | cons text texts ih =>
      have htext := hwhole text (by simp)
      cases texts with
      | nil => simpa using htext []
      | cons next texts =>
          have hrest := ih (by simp) fun later hlater => hwhole later (by simp [hlater])
          rw [List.intercalate_cons_cons, List.append_assoc, htext, List.singleton_append,
            segments?_comma, hrest]
          simp

/-- Blanks behind the commas belong to the texts between them, and are trimmed off. -/
theorem intercalate_gap (separator gap text : Text) (texts : List Text) :
    (separator ++ gap).intercalate (text :: texts) =
      separator.intercalate (text :: texts.map (gap ++ ·)) := by
  induction texts generalizing text with
  | nil => rfl
  | cons next texts ih =>
      rw [List.intercalate_cons_cons, ih, List.map_cons, List.intercalate_cons_cons]
      cases texts <;> simp

/-- What holds of texts and is kept when two are joined holds of all of them joined. -/
theorem intercalate_induction {P : Text → Prop} {separator : Text} {texts : List Text}
    (hne : texts ≠ []) (hall : ∀ text ∈ texts, P text)
    (happend : ∀ a b, P a → P b → P (a ++ separator ++ b)) : P (separator.intercalate texts) := by
  induction texts with
  | nil => exact absurd rfl hne
  | cons text texts ih =>
      have htext := hall text (by simp)
      cases texts with
      | nil => simpa using htext
      | cons next texts =>
          have hrest := ih (by simp) fun later hlater => hall later (by simp [hlater])
          rw [List.intercalate_cons_cons]
          exact happend text _ htext hrest

theorem isTight_intercalate {separator : Text} {texts : List Text} (hne : texts ≠ [])
    (htight : ∀ text ∈ texts, IsTight text) : IsTight (separator.intercalate texts) :=
  intercalate_induction hne htight fun _ _ ha hb => ha.append separator hb

/-- Tight texts come back from their list, with a blank behind each comma or without. -/
theorem segments?_spaced {texts : List Text} (hne : texts ≠ [])
    (hwhole : ∀ text ∈ texts, IsWhole text) (htight : ∀ text ∈ texts, IsTight text) :
    (segments? .outside 0 ([',', ' '].intercalate texts)).map (List.map trim) = some texts := by
  obtain ⟨text, texts, rfl⟩ := List.exists_cons_of_ne_nil hne
  have hblank : IsWhole [' '] := fun _ => rfl
  have hspaced : ∀ spaced ∈ text :: texts.map ([' '] ++ ·), IsWhole spaced := by
    intro spaced hspaced
    rcases List.mem_cons.mp hspaced with rfl | hlater
    · exact hwhole spaced (by simp)
    · obtain ⟨later, hmem, rfl⟩ := List.mem_map.mp hlater
      exact hblank.append (hwhole later (by simp [hmem]))
  have htrim : ∀ later ∈ texts, trim ([' '] ++ later) = later := by
    intro later hlater
    have hlater := htight later (by simp [hlater])
    exact hlater.trim_blank (by decide)
  have hgap := intercalate_gap [','] [' '] text texts
  rw [List.singleton_append] at hgap
  rw [hgap, segments?_intercalate (by simp) hspaced, Option.map_some, List.map_cons, List.map_map,
    (htight text (by simp)).trim_eq]
  exact congrArg (some <| text :: ·) ((List.map_congr_left htrim).trans (List.map_id' texts))

theorem map_text_place (column : Nat) (texts : List Text) :
    (place column texts).map (·.text) = texts := by
  induction texts generalizing column with
  | nil => rfl
  | cons text texts ih => simp [place, ih]

/-- What is read from the texts of some operands is read from the pieces of their list. -/
theorem exists_splitOperands {β : Type} {R : Text → β → Prop} {list : Text} {column : Nat}
    {texts : List Text} {results : List β}
    (hsegments : (segments? .outside 0 list).map (List.map trim) = some texts)
    (hread : List.Forall₂ R texts results) :
    ∃ pieces,
      splitOperands ⟨list, column⟩ = some pieces ∧
        List.Forall₂ (fun operand result => R operand.text result) pieces results := by
  obtain ⟨cuts, hcuts, rfl⟩ := Option.map_eq_some_iff.mp hsegments
  have htexts : ((place column cuts).map trimmed).map (·.text) = cuts.map trim := by
    have hplaced := congrArg (List.map trim) (map_text_place column cuts)
    rw [List.map_map] at hplaced
    rw [← hplaced, List.map_map]
    rfl
  refine ⟨(place column cuts).map trimmed, ?_, ?_⟩
  · rw [splitOperands, hcuts, Option.map_some]
  · rw [← htexts] at hread
    exact List.forall₂_map_left_iff.mp hread

end Piece
end WordMachine
