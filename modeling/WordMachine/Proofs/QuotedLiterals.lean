import WordMachine.Literal
import WordMachine.Proofs.Outcomes
import WordMachine.Source.Line
import WordMachine.Source.Piece

/-!
# Where a quoted literal ends

Comments and operands are cut off by a scan that passes over whole literals: a
literal that it meets ends at the next quote of the same kind that no backslash
takes with it.  Reading a literal as a string or a character looks only at the
first and the last quote and at the escapes between them.  The two agree on
every token that holds no bare quote of its own kind, and on no other.
-/

namespace WordMachine

/-! ## The scan of one literal -/

namespace Quoting

/-- Cut a text that begins inside a literal behind the quote that closes it, or at the end. -/
def closing (quoting : Quoting) : Text → Text × Text
  | [] => ([], [])
  | c :: rest =>
      if quoting.next c = outside then ([c], rest)
      else (c :: (closing (quoting.next c) rest).1, (closing (quoting.next c) rest).2)

end Quoting

namespace Text

/-- The literal that a text begins with, and what follows it. -/
def literal : Text → Text × Text
  | [] => ([], [])
  | quote :: rest =>
      (quote :: ((Quoting.inside quote).closing rest).1, ((Quoting.inside quote).closing rest).2)

theorem closing_append (quoting : Quoting) (text : Text) :
    (quoting.closing text).1 ++ (quoting.closing text).2 = text := by
  induction text generalizing quoting with
  | nil => rfl
  | cons c rest ih =>
      unfold Quoting.closing
      split
      · rfl
      · exact congrArg (c :: ·) (ih (quoting.next c))

theorem literal_append (text : Text) : (literal text).1 ++ (literal text).2 = text := by
  cases text with
  | nil => rfl
  | cons quote rest => exact congrArg (quote :: ·) (closing_append (Quoting.inside quote) rest)

/-- The characters of a body that no backslash takes with it. -/
def bare : Text → Text
  | [] => []
  | c :: rest =>
      if c = '\\' then
        match rest with
        | [] => []
        | _ :: rest => bare rest
      else c :: bare rest

theorem bare_escape (escape : Char) (rest : Text) :
    bare ('\\' :: escape :: rest) = bare rest := by
  simp [bare]

theorem bare_plain {c : Char} (hplain : c ≠ '\\') (rest : Text) :
    bare (c :: rest) = c :: bare rest := by
  rw [bare.eq_def]
  simp [hplain]

end Text

open Text

variable {quote : Char} {token body : Text}

theorem next_of_isQuote (hquote : Quoting.isQuote quote = true) :
    Quoting.outside.next quote = .inside quote := by
  simp [Quoting.next, hquote]

theorem SourceLine.stripComment_of_inside {quoting : Quoting} (hinside : quoting ≠ .outside)
    (text : Text) :
    stripComment quoting text =
      (quoting.closing text).1 ++ stripComment .outside (quoting.closing text).2 := by
  induction text generalizing quoting with
  | nil => rfl
  | cons c rest ih =>
      unfold Quoting.closing
      rw [stripComment_inside hinside]
      split
      next hcloses => simp [hcloses]
      next hstays => simp [ih hstays]

/-- A comment is looked for behind the literal that a line begins with. -/
theorem SourceLine.stripComment_of_quote (hquote : Quoting.isQuote quote = true) (rest : Text) :
    stripComment .outside (quote :: rest) =
      (literal (quote :: rest)).1 ++ stripComment .outside (literal (quote :: rest)).2 := by
  have hmarker : ¬(quote = ';' ∨ quote = '/' ∧ rest.head? = some '/') := by
    rintro (rfl | ⟨rfl, -⟩) <;> cases hquote
  rw [stripComment_outside hmarker, next_of_isQuote hquote, stripComment_of_inside (by simp)]
  rfl

theorem Piece.segments?_of_inside {quoting : Quoting} (hinside : quoting ≠ .outside) (depth : Nat)
    (text : Text) :
    segments? quoting depth text =
      (segments? .outside depth (quoting.closing text).2).map
        (·.modifyHead ((quoting.closing text).1 ++ ·)) := by
  induction text generalizing quoting with
  | nil => rfl
  | cons c rest ih =>
      unfold Quoting.closing
      rw [segments?_inside hinside]
      split
      next hcloses => simp [hcloses]
      next hstays =>
        rw [ih hstays, Option.map_map]
        congr 1
        funext segments
        simp [List.modifyHead_modifyHead, Function.comp_def]

theorem Piece.nextDepth_of_isQuote (hquote : Quoting.isQuote quote = true) (depth : Nat) :
    nextDepth depth quote = depth := by
  rcases Quoting.isQuote_iff.mp hquote with rfl | rfl
  · rfl
  · rfl

/-- A comma is looked for behind the literal that an operand begins with. -/
theorem Piece.segments?_of_quote (hquote : Quoting.isQuote quote = true) (depth : Nat)
    (rest : Text) :
    segments? .outside depth (quote :: rest) =
      (segments? .outside depth (literal (quote :: rest)).2).map
        (·.modifyHead ((literal (quote :: rest)).1 ++ ·)) := by
  have hcomma : quote = ',' → depth ≠ 0 := by
    rintro rfl
    cases hquote
  have hcounted : quote = '[' → depth + 1 < depthLimit := by
    rintro rfl
    cases hquote
  rw [segments?_outside hcomma hcounted, nextDepth_of_isQuote hquote, next_of_isQuote hquote,
    segments?_of_inside (by simp), Option.map_map]
  congr 1
  funext segments
  simp [List.modifyHead_modifyHead, Function.comp_def, literal]

/-! ## Reading against scanning -/

theorem body?_eq_some_iff {rest : Text} :
    Literal.body? quote rest = some body ↔ rest = body ++ [quote] := by
  unfold Literal.body?
  constructor
  · intro hbody
    split at hbody
    next hlast =>
      cases hbody
      obtain ⟨front, rfl⟩ := List.getLast?_eq_some_iff.mp hlast
      simp
    · cases hbody
  · rintro rfl
    simp

/-- Behind a body whose escapes can be read the scan comes to a quote that closes the literal,
and to none before that if the body holds no bare one. -/
theorem closing_of_unescape {text : Text} (hquote : quote ≠ '\\')
    (hread : unescape body = .ok text) :
    (Quoting.inside quote).after ((Quoting.inside quote).closing (body ++ [quote])).1 = .outside ∧
      (((Quoting.inside quote).closing (body ++ [quote])).2 = [] ↔ quote ∉ bare body) := by
  fun_induction unescape body generalizing text with
  | case1 => simp [Quoting.closing, Quoting.next, bare, hquote]
  | case2 => cases hread
  | case3 => cases hread
  | case4 escape rest value hvalue ih =>
      obtain ⟨text, hrest, -⟩ := exists_of_map_eq_ok hread
      simpa [Quoting.closing, Quoting.next, bare_escape] using ih hrest
  | case5 c rest hplain ih =>
      obtain ⟨text, hrest, -⟩ := exists_of_map_eq_ok hread
      by_cases hcloses : c = quote
      · subst hcloses
        simp [Quoting.closing, Quoting.next, bare_plain, hquote]
      · simpa [Quoting.closing, Quoting.next, bare_plain, hplain, hcloses, Ne.symm hcloses]
          using ih hrest

/-- A backslash before the last quote takes it into the body. -/
theorem not_closed_of_unfinished (hquote : quote ≠ '\\')
    (hread : unescape body = .error .unfinished)
    (hwhole : ((Quoting.inside quote).closing (body ++ [quote])).2 = []) :
    (Quoting.inside quote).after (body ++ [quote]) ≠ .outside := by
  fun_induction unescape body with
  | case1 => cases hread
  | case2 => simp [Quoting.next]
  | case3 => cases hread
  | case4 escape rest value hvalue ih =>
      have hrest := ih (error_of_map_eq_error hread)
        (by simpa [Quoting.closing, Quoting.next] using hwhole)
      simpa [Quoting.next] using hrest
  | case5 c rest hplain ih =>
      by_cases hcloses : c = quote
      · subst hcloses
        simp [Quoting.closing, Quoting.next, hquote] at hwhole
      · have hrest := ih (error_of_map_eq_error hread)
          (by simpa [Quoting.closing, Quoting.next, hplain, hcloses] using hwhole)
        simpa [Quoting.next, hplain, hcloses] using hrest

/-- A literal that the scan closes with the last character ends in its quote. -/
theorem exists_body_of_closing {quoting : Quoting} {rest : Text}
    (hquoting : quoting = .inside quote ∨ quoting = .escaped quote)
    (hwhole : (quoting.closing rest).2 = []) (hclosed : quoting.after rest = .outside) :
    ∃ body, rest = body ++ [quote] := by
  induction rest generalizing quoting with
  | nil => rcases hquoting with rfl | rfl <;> cases hclosed
  | cons c rest ih =>
      by_cases hcloses : quoting.next c = .outside
      · simp only [Quoting.closing, hcloses, if_true] at hwhole
        subst hwhole
        rcases hquoting with rfl | rfl
        · refine ⟨[], ?_⟩
          unfold Quoting.next at hcloses
          grind
        · cases hcloses
      · have hnext : quoting.next c = .inside quote ∨ quoting.next c = .escaped quote := by
          rcases hquoting with rfl | rfl <;> grind [Quoting.next]
        simp only [Quoting.closing, hcloses, if_false] at hwhole
        obtain ⟨body, rfl⟩ := ih hnext hwhole hclosed
        exact ⟨c :: body, rfl⟩

/-! ## The result -/

/-- A quote opens the text, and the scan of its literal closes it with the last character. -/
structure IsLiteral (token : Text) : Prop where
  opens : ∃ quote ∈ token.head?, Quoting.isQuote quote = true
  whole : (literal token).2 = []
  closed : Quoting.outside.after token = .outside

theorem IsLiteral.exists_body (hliteral : IsLiteral token) :
    ∃ quote body,
      Quoting.isQuote quote = true ∧ token = quote :: body ++ [quote] ∧
        ((Quoting.inside quote).closing (body ++ [quote])).2 = [] ∧
          (Quoting.inside quote).after (body ++ [quote]) = .outside := by
  obtain ⟨⟨quote, hhead, hquote⟩, hwhole, hclosed⟩ := hliteral
  obtain ⟨rest, rfl⟩ := List.head?_eq_some_iff.mp hhead
  rw [Quoting.after_cons, next_of_isQuote hquote] at hclosed
  obtain ⟨body, rfl⟩ := exists_body_of_closing (.inl rfl) hwhole hclosed
  exact ⟨quote, body, hquote, rfl, hwhole, hclosed⟩

theorem ne_backslash_of_isQuote (hquote : Quoting.isQuote quote = true) : quote ≠ '\\' := by
  rintro rfl
  cases hquote

/-- A token that can be read between two quotes begins with a closed literal, which is all of it
if its body holds no bare quote. -/
theorem literal_of_unescape {text : Text} (hquote : Quoting.isQuote quote = true)
    (hread : unescape body = .ok text) :
    Quoting.outside.after (literal (quote :: body ++ [quote])).1 = .outside ∧
      ((literal (quote :: body ++ [quote])).2 = [] ↔ quote ∉ bare body) := by
  rw [List.cons_append, literal, Quoting.after_cons, next_of_isQuote hquote]
  exact closing_of_unescape (ne_backslash_of_isQuote hquote) hread

theorem exists_body_of_bytes {bytes : List UInt8} (hbytes : Literal.bytes token = .ok bytes) :
    ∃ quote body text,
      Quoting.isQuote quote = true ∧ token = quote :: body ++ [quote] ∧
        unescape body = .ok text ∧ bytes = utf8 text := by
  unfold Literal.bytes at hbytes
  split at hbytes
  next quote rest =>
    split at hbytes
    next hquote =>
      split at hbytes
      · cases hbytes
      next body hbody =>
        obtain ⟨text, hread, rfl⟩ := exists_of_map_eq_ok hbytes
        obtain rfl := body?_eq_some_iff.mp hbody
        exact ⟨quote, body, text, hquote, rfl, ok_of_mapError_eq_ok hread, rfl⟩
    · cases hbytes
  · cases hbytes

theorem exists_body_of_character {c : Char} (hcharacter : Literal.character token = .ok c) :
    ∃ body, token = '\'' :: body ++ ['\''] ∧ unescape body = .ok [c] := by
  unfold Literal.character at hcharacter
  split at hcharacter
  next rest =>
    split at hcharacter
    · cases hcharacter
    · cases hcharacter
    next body hne hbody =>
      obtain ⟨text, hread, hsingle⟩ := exists_of_bind_eq_ok hcharacter
      obtain rfl := body?_eq_some_iff.mp hbody
      split at hsingle
      · cases hsingle
        exact ⟨body, rfl, ok_of_mapError_eq_ok hread⟩
      · cases hsingle
  · cases hcharacter

theorem eq_nil_of_unescape (hread : unescape body = .ok []) : body = [] := by
  fun_induction unescape body with
  | case1 => rfl
  | case2 => cases hread
  | case3 => cases hread
  | case4 escape rest value hvalue _ =>
      obtain ⟨text, -, hcons⟩ := exists_of_map_eq_ok hread
      cases hcons
  | case5 d rest hplain _ =>
      obtain ⟨text, -, hcons⟩ := exists_of_map_eq_ok hread
      cases hcons

/-- What stands for one character is that character, or an escape, which is never bare. -/
theorem mem_bare_iff_of_unescape {c : Char} (hread : unescape body = .ok [c]) :
    quote ∈ bare body ↔ body = [quote] ∧ quote ≠ '\\' := by
  fun_induction unescape body with
  | case1 => cases hread
  | case2 => cases hread
  | case3 => cases hread
  | case4 escape rest value hvalue _ =>
      obtain ⟨text, hrest, hcons⟩ := exists_of_map_eq_ok hread
      cases hcons
      obtain rfl := eq_nil_of_unescape hrest
      simp [bare]
  | case5 d rest hplain _ =>
      obtain ⟨text, hrest, hcons⟩ := exists_of_map_eq_ok hread
      cases hcons
      obtain rfl := eq_nil_of_unescape hrest
      rw [bare_plain hplain]
      simp [bare]
      grind

/-- Reading and scanning agree where a literal ends if no bare quote stands inside it. -/
theorem read_literal_is_whole_iff (token : Text) :
    (∀ bytes, Literal.bytes token = .ok bytes →
      ∃ quote body,
        Quoting.isQuote quote = true ∧ token = quote :: body ++ [quote] ∧
          Quoting.outside.after (literal token).1 = .outside ∧
            ((literal token).2 = [] ↔ quote ∉ bare body)) ∧
      (∀ c, Literal.character token = .ok c →
        Quoting.outside.after (literal token).1 = .outside ∧
          ((literal token).2 = [] ↔ token ≠ ['\'', '\'', '\''])) ∧
        (IsLiteral token →
          ∀ error, Literal.bytes token = .error error → ∃ c, error = .unknownEscape c) := by
  refine ⟨?_, ?_, ?_⟩
  · intro bytes hbytes
    obtain ⟨quote, body, text, hquote, rfl, hread, -⟩ := exists_body_of_bytes hbytes
    exact ⟨quote, body, hquote, rfl, literal_of_unescape hquote hread⟩
  · intro c hcharacter
    obtain ⟨body, rfl, hread⟩ := exists_body_of_character hcharacter
    have hquote : Quoting.isQuote '\'' = true := rfl
    obtain ⟨hclosed, hwhole⟩ := literal_of_unescape hquote hread
    refine ⟨hclosed, ?_⟩
    rw [hwhole, mem_bare_iff_of_unescape hread]
    simp [List.append_eq_cons_iff]
  · intro hliteral error herror
    obtain ⟨quote, body, hquote, rfl, hwhole, hclosed⟩ := hliteral.exists_body
    have hbytes : Literal.bytes (quote :: body ++ [quote]) = utf8 <$> Literal.readBody body := by
      simp [Literal.bytes, hquote, body?_eq_some_iff.mpr rfl]
    rw [hbytes] at herror
    have hread := error_of_map_eq_error herror
    cases hbody : unescape body with
    | ok text =>
        rw [Literal.readBody, hbody] at hread
        cases hread
    | error cause =>
        rw [Literal.readBody, hbody] at hread
        cases cause with
        | unknown c =>
            cases hread
            exact ⟨c, rfl⟩
        | unfinished =>
            exact absurd hclosed
              (not_closed_of_unfinished (ne_backslash_of_isQuote hquote) hbody hwhole)

theorem read_literal_is_whole_iff_escaped :
    let body := "say \\\"hi\\\"".toList
    Literal.bytes ('"' :: body ++ ['"']) = .ok (utf8 "say \"hi\"".toList) ∧
      (literal ('"' :: body ++ ['"'])).2 = [] := by
  intro body
  have hbytes : Literal.bytes ('"' :: body ++ ['"']) = .ok (utf8 "say \"hi\"".toList) := by
    decide +kernel
  obtain ⟨quote, body', -, htoken, -, hwhole⟩ := (read_literal_is_whole_iff _).1 _ hbytes
  obtain ⟨rfl, hrest⟩ := List.cons.inj htoken
  obtain rfl : body = body' := List.append_cancel_right hrest
  refine ⟨hbytes, hwhole.mpr ?_⟩
  decide +kernel

/-- Two literals with nothing between them are read as one string. -/
theorem not_every_read_literal_is_whole :
    ¬∀ token,
      (∃ bytes, Literal.bytes token = .ok bytes) ∨ (∃ c, Literal.character token = .ok c) →
        (literal token).2 = [] := by
  intro hall
  have hread : Literal.bytes "\"a\"b\"".toList = .ok [97, 34, 98] := by decide +kernel
  have hrest : (literal "\"a\"b\"".toList).2 = ['b', '"'] := by decide +kernel
  have hwhole := hall _ (.inl ⟨_, hread⟩)
  rw [hrest] at hwhole
  cases hwhole

end WordMachine
