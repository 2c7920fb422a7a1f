import WordMachine.Assembly.Layout
import WordMachine.Proofs.ByteRanges
import WordMachine.Proofs.NumberValues
import WordMachine.Proofs.QuotedLiterals

/-!
# Reading by byte positions

Each reader of source text is written here once more, over byte positions: it
moves positions, adds up widths and cuts ranges of bytes out of the text it was
given.  Such a reader answers nothing where a range cannot be cut out, or where a
scan does not move on.  Neither happens: on every text it answers what the reader
over characters answers.
-/

namespace WordMachine

namespace SourceLine

open Text

theorem stripComment_isPrefix (quoting : Quoting) (line : Text) :
    stripComment quoting line <+: line := by
  induction line generalizing quoting with
  | nil => exact List.prefix_rfl
  | cons c rest ih =>
      rw [stripComment]
      split
      · exact List.nil_prefix
      · exact List.cons_prefix_cons.mpr ⟨rfl, ih _⟩

theorem exists_of_splitLabel? {text name rest : Text}
    (hsplit : splitLabel? text = some (name, rest)) :
    ∃ gap, text = name ++ (gap ++ ':' :: rest) := by
  unfold splitLabel? at hsplit
  dsimp only at hsplit
  split at hsplit
  next rest' hcolon =>
    split at hsplit
    · cases hsplit
    · cases hsplit
      refine ⟨(text.dropWhile isLabelChar).takeWhile isBlank, ?_⟩
      rw [← hcolon, blanks_append_trimLeft, List.takeWhile_append_dropWhile]
  · cases hsplit

end SourceLine

namespace Bytewise

open Text

/-! ## Scans -/

/-- Where a literal ends that the scan is inside of: behind its quote, or with the text. -/
def skipLiteral? (text : Text) (quote : Char) (position : Nat) : Option Nat := do
  let rest ← from? text position
  if position < width text then
    let c ← rest.head?
    let next := position + c.utf8Size
    if c = '\\' then
      let behind ← from? text next
      if next < width text then
        let escape ← behind.head?
        skipLiteral? text quote (next + escape.utf8Size)
      else some next
    else if c = quote then some next
    else skipLiteral? text quote next
  else some position
termination_by width text - position
decreasing_by all_goals grind [Char.utf8Size_pos]

variable {text back : Text} {position : Nat}

theorem skipLiteral?_eq (hfrom : from? text position = some back) (quote : Char) :
    skipLiteral? text quote position =
      some (position + width ((Quoting.inside quote).closing back).1) := by
  -- the recursion that passes over escapes in pairs is that of the scan
  fun_induction bare back generalizing position with
  | case1 =>
      rw [skipLiteral?, hfrom]
      simp [lt_width_iff hfrom, Quoting.closing]
  | case2 =>
      have hend := from?_next hfrom
      rw [skipLiteral?, hfrom]
      simp [lt_width_iff hfrom, hend, lt_width_iff hend, Quoting.closing, Quoting.next]
  | case3 escape rest ih =>
      have hescape := from?_next hfrom
      have hrest := ih (from?_next hescape)
      rw [skipLiteral?, hfrom]
      simp [lt_width_iff hfrom, hescape, lt_width_iff hescape, hrest, Quoting.closing,
        Quoting.next]
      omega
  | case4 c rest hplain ih =>
      have hrest := ih (from?_next hfrom)
      rw [skipLiteral?, hfrom]
      by_cases hcloses : c = quote
      · subst hcloses
        simp [lt_width_iff hfrom, hplain, Quoting.closing, Quoting.next]
      · simp [lt_width_iff hfrom, hplain, hcloses, hrest, Quoting.closing, Quoting.next]
        omega

theorem width_literal_pos (quote : Char) (rest : Text) :
    0 < width (literal (quote :: rest)).1 := by
  have hsize := quote.utf8Size_pos
  rw [literal, width_cons]
  omega

theorem length_literal_lt (quote : Char) (rest : Text) :
    (literal (quote :: rest)).2.length < (quote :: rest).length := by
  have hlength := congrArg List.length (closing_append (Quoting.inside quote) rest)
  simp only [List.length_append] at hlength
  simp only [literal, List.length_cons]
  omega

/-- Behind the quote at a position, the scan goes on where the literal ends. -/
theorem exists_skipLiteral? {quote : Char} {rest : Text}
    (hfrom : from? text position = some (quote :: rest)) :
    ∃ next,
      skipLiteral? text quote (position + quote.utf8Size) = some next ∧
        next = position + width (literal (quote :: rest)).1 ∧
          from? text next = some (literal (quote :: rest)).2 := by
  have hwhole := closing_append (Quoting.inside quote) rest
  have hnext := from?_next hfrom
  refine ⟨_, skipLiteral?_eq hnext quote, ?_, ?_⟩
  · simp only [literal, width_cons]
    omega
  · rw [← hwhole] at hnext
    exact from?_skip hnext

/-- Where the comment of a line starts, or where the line ends. -/
def commentStart? (line : Text) (position : Nat) : Option Nat := do
  let rest ← from? line position
  if position < width line then
    let c ← rest.head?
    if Quoting.isQuote c then
      let next ← skipLiteral? line c (position + c.utf8Size)
      if position < next then commentStart? line next else none
    else if c = ';' ∨ c = '/' ∧ rest.tail.head? = some '/' then some position
    else commentStart? line (position + c.utf8Size)
  else some position
termination_by width line - position
decreasing_by all_goals grind [Char.utf8Size_pos]

theorem commentStart?_eq {line : Text} (hfrom : from? line position = some back) :
    commentStart? line position =
      some (position + width (SourceLine.stripComment .outside back)) := by
  induction hlength : back.length using Nat.strongRecOn generalizing back position with
  | ind length ih =>
      subst hlength
      rw [commentStart?, hfrom]
      cases back with
      | nil => simp [lt_width_iff hfrom]
      | cons c rest =>
          by_cases hquote : Quoting.isQuote c = true
          · obtain ⟨next, hskip, rfl, hbehind⟩ := exists_skipLiteral? hfrom
            have hrest := ih _ (length_literal_lt c rest) hbehind rfl
            rw [SourceLine.stripComment_of_quote hquote]
            simp [lt_width_iff hfrom, hquote, hskip, width_literal_pos, hrest, Nat.add_assoc]
          · by_cases hmarker : c = ';' ∨ c = '/' ∧ rest.head? = some '/'
            · simp [-List.head?_tail, lt_width_iff hfrom, hquote, hmarker, SourceLine.stripComment]
            · have hnext : Quoting.outside.next c = .outside := by simp [Quoting.next, hquote]
              have hrest := ih _ (Nat.lt_succ_self _) (from?_next hfrom) rfl
              rw [SourceLine.stripComment_outside hmarker, hnext]
              simp [-List.head?_tail, lt_width_iff hfrom, hquote, hmarker, hrest, Nat.add_assoc]

/-- The part of a line in front of its comment. -/
def stripComment? (line : Text) : Option Text := do
  let stop ← commentStart? line 0
  slice? line 0 stop

theorem stripComment?_eq (line : Text) :
    stripComment? line = some (SourceLine.stripComment .outside line) := by
  obtain ⟨comment, hline⟩ := SourceLine.stripComment_isPrefix .outside line
  have hfrom : from? line 0 = some (SourceLine.stripComment .outside line ++ comment) := by
    rw [hline]
    exact from?_zero line
  rw [stripComment?, commentStart?_eq (from?_zero line)]
  exact slice?_of_from? hfrom

/-! ## Labels and statements -/

/-- Where the name in front of a colon ends, and where the colon does. -/
def labelEnds? (text : Text) : Option (Nat × Nat) :=
  let name := text.takeWhile SourceLine.isLabelChar
  let behind := text.dropWhile SourceLine.isLabelChar
  match trimLeft behind with
  | ':' :: _ =>
      if name.isEmpty then none
      else some (width name, width name + (width behind - width (trimLeft behind)) + 1)
  | _ => none

def piece? (line : Text) (start stop : Nat) : Option Piece := do
  let part ← slice? line start stop
  some ⟨part, start + 1⟩

/-- The label and the statement of a line's code. -/
def splitCode? (code : Text) : Option (Option Piece × Option Piece) := do
  let start := width code - width (trimLeft code)
  let body ← from? code start
  match labelEnds? body with
  | none =>
      let statement ← piece? code start (width code)
      some (none, some statement)
  | some (nameStop, stop) =>
      let label ← piece? code start (start + nameStop)
      let rest ← from? code (start + stop)
      let restStart := start + stop + (width rest - width (trimLeft rest))
      if restStart < width code then
        let statement ← piece? code restStart (width code)
        some (some label, some statement)
      else some (some label, none)

def readLine? (number : Nat) (raw : Text) : Option (Option SourceLine) := do
  let code := trimRight (← stripComment? raw)
  if (trimLeft code).isEmpty then some none
  else
    let (label, statement) ← splitCode? code
    some (some { number, code, label, statement })

theorem from?_trimLeft (hfrom : from? text position = some back) :
    from? text (position + (width back - width (trimLeft back))) = some (trimLeft back) := by
  rw [← blanks_append_trimLeft back] at hfrom
  rw [width_sub_width_trimLeft]
  exact from?_skip hfrom

/-- The piece from a position to the end of the line. -/
theorem piece?_of_from? (hfrom : from? text position = some back) :
    piece? text position (width text) = some ⟨back, position + 1⟩ := by
  have hslice : slice? text position (width text) = some back := hfrom
  rw [piece?, hslice]
  rfl

/-- The ends of the match are those of the name and of the colon. -/
theorem labelEnds?_eq (text : Text) :
    labelEnds? text =
      (SourceLine.splitLabel? text).map fun parts =>
        (width parts.1, width text - width parts.2) := by
  have hwhole := congrArg width
    (List.takeWhile_append_dropWhile (p := SourceLine.isLabelChar) (l := text))
  have hbehind := congrArg width (blanks_append_trimLeft (text.dropWhile SourceLine.isLabelChar))
  rw [width_append] at hwhole hbehind
  by_cases hcolon : (trimLeft (text.dropWhile SourceLine.isLabelChar)).head? = some ':'
  · obtain ⟨rest, hrest⟩ := List.head?_eq_some_iff.mp hcolon
    have hends : width (text.takeWhile SourceLine.isLabelChar) +
        (width (text.dropWhile SourceLine.isLabelChar) - width (':' :: rest)) + 1 =
        width text - width rest := by
      have hsize : Char.utf8Size ':' = 1 := rfl
      rw [hrest, width_cons] at hbehind
      rw [width_cons]
      omega
    rw [SourceLine.splitLabel?_colon hrest]
    unfold labelEnds?
    dsimp only
    rw [hrest, hends]
    cases (text.takeWhile SourceLine.isLabelChar).isEmpty with
    | true => rfl
    | false => rfl
  · rw [SourceLine.splitLabel?_of_head?_ne hcolon]
    unfold labelEnds?
    dsimp only
    split
    next rest hrest =>
      rw [hrest] at hcolon
      exact absurd rfl hcolon
    · rfl

/-- Both parts of labelled code are found by their positions, and what follows stays tight. -/
theorem from?_of_splitLabel? {name rest : Text} (hfrom : from? text position = some back)
    (hsplit : SourceLine.splitLabel? back = some (name, rest)) :
    piece? text position (position + width name) = some ⟨name, position + 1⟩ ∧
      from? text (position + (width back - width rest)) = some rest := by
  obtain ⟨gap, rfl⟩ := SourceLine.exists_of_splitLabel? hsplit
  have hname := slice?_of_from? hfrom
  have hlength : width (name ++ (gap ++ ':' :: rest)) - width rest =
      width (name ++ (gap ++ [':'])) := by
    simp only [width_append, width_cons, width_nil]
    omega
  constructor
  · rw [piece?, hname]
    rfl
  · rw [hlength]
    refine from?_skip ?_
    simpa using hfrom

theorem splitCode?_eq {code : Text} (hcode : trimRight code = code) :
    splitCode? code = some (SourceLine.splitCode code) := by
  have hbody := from?_trimLeft (from?_zero code)
  rw [Nat.zero_add] at hbody
  have hstart : (Piece.mk code 1).trimmed =
      ⟨trimLeft code, width code - width (trimLeft code) + 1⟩ := by
    rw [Piece.trimmed, trim_of_trimRight hcode, Nat.add_comm]
  rw [splitCode?, SourceLine.splitCode, hstart]
  generalize width code - width (trimLeft code) = start at hbody
  simp only [hbody, Option.bind_eq_bind, Option.bind_some, labelEnds?_eq]
  cases hsplit : SourceLine.splitLabel? (trimLeft code) with
  | none => simp [piece?_of_from? hbody]
  | some parts =>
      obtain ⟨name, rest⟩ := parts
      obtain ⟨hlabel, hrest⟩ := from?_of_splitLabel? hbody hsplit
      have htight : trim rest = trimLeft rest := by
        obtain ⟨front, hfront, -⟩ := from?_eq_some_iff.mp hrest
        rw [hfront] at hcode
        exact trim_of_trimRight (trimRight_of_append hcode)
      have hstatement := from?_trimLeft hrest
      simp only [Option.map_some, hlabel, hrest, Option.bind_some, piece?_of_from? hstatement,
        htight]
      have hfollows : start + (width (trimLeft code) - width rest) +
          (width rest - width (trimLeft rest)) < width code ↔ ¬(trimLeft rest).isEmpty := by
        rw [lt_width_iff hstatement, List.isEmpty_iff]
      by_cases hnone : (trimLeft rest).isEmpty
      · simp [hfollows, hnone]
      · simp [hfollows, hnone, Piece.trimmed, htight]
        omega

theorem readLine?_eq (number : Nat) (raw : Text) :
    readLine? number raw = some (SourceLine.read? number raw) := by
  have hcode := trimRight_trimRight (SourceLine.stripComment .outside raw)
  have hempty : (trimLeft (trimRight (SourceLine.stripComment .outside raw))).isEmpty =
      (trimRight (SourceLine.stripComment .outside raw)).isEmpty := by
    rw [Bool.eq_iff_iff, List.isEmpty_iff, List.isEmpty_iff]
    exact trimLeft_eq_nil_iff hcode
  rw [readLine?, stripComment?_eq, SourceLine.read?]
  simp only [Option.bind_eq_bind, Option.bind_some, hempty]
  split
  · rfl
  · rw [splitCode?_eq hcode]
    rfl

/-! ## Words and operands -/

/-- The leading word and what follows it. -/
def splitWord? (piece : Piece) : Option (Piece × Option Piece) := do
  let stop := width (firstWord piece.text)
  let word ← slice? piece.text 0 stop
  let behind ← from? piece.text stop
  let restStart := stop + (width behind - width (trimLeft behind))
  if restStart < width piece.text then
    let rest ← from? piece.text restStart
    some (⟨word, piece.column⟩, some ⟨trimRight rest, piece.column + restStart⟩)
  else some (⟨word, piece.column⟩, none)

theorem splitWord?_eq (piece : Piece) : splitWord? piece = some piece.splitWord := by
  have hstart := from?_zero piece.text
  nth_rewrite 2 [← firstWord_append_afterFirstWord piece.text] at hstart
  have hword := slice?_of_from? hstart
  have hbehind := from?_skip hstart
  rw [Nat.zero_add] at hword hbehind
  have hrest := from?_trimLeft hbehind
  have hfollows : width (firstWord piece.text) + (width (afterFirstWord piece.text) -
      width (trimLeft (afterFirstWord piece.text))) < width piece.text ↔
        ¬(trim (afterFirstWord piece.text)).isEmpty := by
    rw [lt_width_iff hrest, List.isEmpty_iff, trim_eq_nil_iff]
  rw [splitWord?, Piece.splitWord]
  simp only [hword, hbehind, hrest, Option.bind_eq_bind, Option.bind_some]
  by_cases hnone : (trim (afterFirstWord piece.text)).isEmpty
  · simp [hfollows, hnone]
  · rw [if_pos (hfollows.mpr hnone), if_neg hnone, Piece.trimmed, Nat.add_assoc]
    rfl

/-- One operand, between two byte positions of a list. -/
def operand? (list : Piece) (start stop : Nat) : Option Piece := do
  let raw ← slice? list.text start stop
  some ⟨trim raw, list.column + start + (width raw - width (trimLeft raw))⟩

/-- The operands of a list from a position on, the first of which starts at `start`, unless the
list opens too many brackets. -/
def operandsFrom? (list : Piece) (start depth position : Nat) : Option (Option (List Piece)) := do
  let rest ← from? list.text position
  if position < width list.text then
    let c ← rest.head?
    if Quoting.isQuote c then
      let next ← skipLiteral? list.text c (position + c.utf8Size)
      if position < next then operandsFrom? list start depth next else none
    else if c = ',' ∧ depth = 0 then
      let operand ← operand? list start position
      let others ← operandsFrom? list (position + 1) 0 (position + c.utf8Size)
      some (others.map (operand :: ·))
    else if c = '[' ∧ Piece.depthLimit ≤ depth + 1 then some none
    else operandsFrom? list start (Piece.nextDepth depth c) (position + c.utf8Size)
  else
    let last ← operand? list start (width list.text)
    some (some [last])
termination_by width list.text - position
decreasing_by all_goals grind [Char.utf8Size_pos]

def splitOperands? (piece : Piece) : Option (Option (List Piece)) := operandsFrom? piece 0 0 0

theorem operand?_of_from? {list : Piece} {start : Nat} {part back : Text}
    (hfrom : from? list.text start = some (part ++ back)) :
    operand? list start (start + width part) =
      some (Piece.trimmed ⟨part, list.column + start⟩) := by
  rw [operand?, slice?_of_from? hfrom]
  rfl

theorem modifyHead_nil_append (segments : List Text) :
    segments.modifyHead ([] ++ ·) = segments :=
  congrFun List.modifyHead_id segments

/-- The operand that the scan is in has a part in front of the position already. -/
theorem operandsFrom?_eq {list : Piece} {start : Nat} {part : Text} (depth : Nat)
    (hfrom : from? list.text start = some (part ++ back))
    (hposition : position = start + width part) :
    operandsFrom? list start depth position =
      some ((Piece.segments? .outside depth back).map fun segments =>
        (Piece.place (list.column + start) (segments.modifyHead (part ++ ·))).map
          Piece.trimmed) := by
  induction hlength : back.length using Nat.strongRecOn
    generalizing start depth part position back with
  | ind length ih =>
      subst hlength hposition
      have hhere := from?_skip hfrom
      rw [operandsFrom?, hhere]
      cases back with
      | nil =>
          have hend : width list.text = start + width part := by
            simpa using (width_of_from? hfrom).symm
          simp [hend, operand?_of_from? hfrom, Piece.place]
      | cons c rest =>
          have hnext : from? list.text start = some ((part ++ [c]) ++ rest) := by simpa using hfrom
          by_cases hquote : Quoting.isQuote c = true
          · obtain ⟨next, hskip, rfl, -⟩ := exists_skipLiteral? hhere
            have hbehind : from? list.text start =
                some ((part ++ (literal (c :: rest)).1) ++ (literal (c :: rest)).2) := by
              rwa [List.append_assoc, literal_append]
            have hends : start + width part + width (literal (c :: rest)).1 =
                start + width (part ++ (literal (c :: rest)).1) := by
              rw [width_append, Nat.add_assoc]
            have hrest := ih _ (length_literal_lt c rest) depth hbehind hends rfl
            rw [Piece.segments?_of_quote hquote]
            simp [lt_width_iff hhere, hquote, hskip, width_literal_pos, hrest, Function.comp_def]
          · by_cases hcut : c = ',' ∧ depth = 0
            · obtain ⟨rfl, rfl⟩ := hcut
              have hbehind : from? list.text (start + width part + 1) = some ([] ++ rest) :=
                from?_next hhere
              have hends : start + width part + Char.utf8Size ',' =
                  start + width part + 1 + width [] := rfl
              have hrest := ih _ (Nat.lt_succ_self _) 0 hbehind hends rfl
              simp only [modifyHead_nil_append, ← Nat.add_assoc] at hrest
              rw [Piece.segments?_comma]
              simp [lt_width_iff hhere, hquote, operand?_of_from? hfrom, hrest, Piece.place,
                Function.comp_def]
            · have hcomma : c = ',' → depth ≠ 0 := fun hc hdepth => hcut ⟨hc, hdepth⟩
              by_cases hfull : c = '[' ∧ Piece.depthLimit ≤ depth + 1
              · obtain ⟨rfl, hlimit⟩ := hfull
                rw [Piece.segments?_overflow hlimit]
                simp [lt_width_iff hhere, hquote, hlimit]
              · have hcounted : c = '[' → depth + 1 < Piece.depthLimit :=
                  fun hopen => Nat.lt_of_not_le fun hlimit => hfull ⟨hopen, hlimit⟩
                have hplain : Quoting.outside.next c = .outside := by simp [Quoting.next, hquote]
                have hends : start + width part + c.utf8Size = start + width (part ++ [c]) := by
                  simp [Nat.add_assoc]
                have hrest := ih _ (Nat.lt_succ_self _) (Piece.nextDepth depth c) hnext hends rfl
                rw [Piece.segments?_outside hcomma hcounted, hplain]
                simp [lt_width_iff hhere, hquote, hcut, hfull, hrest, Function.comp_def]

theorem splitOperands?_eq (piece : Piece) : splitOperands? piece = some piece.splitOperands := by
  have hstart : from? piece.text 0 = some ([] ++ piece.text) := from?_zero piece.text
  have hends : 0 = 0 + width [] := rfl
  rw [splitOperands?, operandsFrom?_eq 0 hstart hends]
  simp only [modifyHead_nil_append]
  rfl

/-! ## Literals -/

/-- The bytes of a quoted string. -/
def bytes? (token : Text) : Option (Except LiteralError (List UInt8)) :=
  match token.head? with
  | none => some (.error .malformedString)
  | some quote =>
      if Quoting.isQuote quote then do
        let rest ← from? token 1
        match Literal.body? quote rest with
        | none => some (.error .malformedString)
        | some body => some (utf8 <$> Literal.readBody body)
      else some (.error .malformedString)

theorem bytes?_eq (token : Text) : bytes? token = some (Literal.bytes token) := by
  cases token with
  | nil => rfl
  | cons quote rest =>
      rw [bytes?, Literal.bytes]
      simp only [List.head?_cons]
      split
      next hquote =>
        have hsize : quote.utf8Size = 1 := by
          rcases Quoting.isQuote_iff.mp hquote with rfl | rfl
          · rfl
          · rfl
        have hrest := from?_next (from?_zero (quote :: rest))
        rw [hsize] at hrest
        simp only [hrest, Option.bind_eq_bind, Option.bind_some]
        cases Literal.body? quote rest with
        | none => rfl
        | some body => rfl
      · rfl

/-- What follows a mark at the start of a token, whatever the case of the mark's letters. -/
def stripMark? (mark token : Text) : Option (Option Text) :=
  match slice? token 0 (width mark) with
  | none => some none
  | some head =>
      if sameWord head mark then do
        let rest ← from? token (width mark)
        some (some rest)
      else some none

/-- The range in front of the rest is as wide as the mark when it is the mark. -/
theorem stripMark?_eq (mark token : Text) :
    stripMark? mark token =
      some (if sameWord (token.take mark.length) mark then some (token.drop mark.length)
        else none) := by
  have hparts : from? token 0 = some (token.take mark.length ++ token.drop mark.length) := by
    rw [List.take_append_drop]
    exact from?_zero token
  by_cases hmark : sameWord (token.take mark.length) mark = true
  · have hwidth : width (token.take mark.length) = width mark := by
      rw [← width_upper, eq_of_beq hmark, width_upper]
    have hhead := slice?_of_from? hparts
    have hrest := from?_skip hparts
    rw [hwidth, Nat.zero_add] at hhead hrest
    rw [stripMark?, hhead]
    simp [hmark, hrest]
  · rw [stripMark?, if_neg hmark]
    split
    · rfl
    next head hhead =>
      have hother : ¬sameWord head mark = true := by
        intro hsame
        obtain ⟨front, back, htoken, hfront, -⟩ := slice?_eq_some_iff.mp hhead
        obtain rfl := width_eq_zero_iff.mp hfront
        have hlength : head.length = mark.length := by
          have hupper := congrArg List.length (eq_of_beq hsame)
          rwa [upper, upper, List.length_map, List.length_map] at hupper
        rw [htoken, ← hlength] at hmark
        simp [hsame] at hmark
      rw [if_neg hother]

/-- What follows one character at the start of a token. -/
def stripChar? (mark : Char) : Text → Option Text
  | [] => none
  | c :: rest => if c = mark then some rest else none

/-- The value of a number token before its range is checked. -/
def unchecked? (token : Text) : Option (Except LiteralError Int) := do
  match (← stripMark? ['0', 'x'] token) <|> stripChar? '$' token with
  | some digits => some (Literal.digits 16 .malformedHex false digits)
  | none =>
      match (← stripMark? ['0', 'b'] token) <|> stripChar? '%' token with
      | some digits => some (Literal.digits 2 .malformedBinary false digits)
      | none =>
          if token.head? = some '\'' then
            some ((fun c => (c.toNat : Int)) <$> Literal.character token)
          else some (Literal.signedDecimal token)

theorem stripMark?_letter {small capital : Char}
    (hcapital : 65 ≤ capital.toNat ∧ capital.toNat ≤ 90)
    (hsmall : small.toNat = capital.toNat + 32) (token : Text) :
    stripMark? ['0', small] token =
      some (match token with
        | '0' :: c :: rest => if c = small ∨ c = capital then some rest else none
        | _ => none) := by
  have hzero : ∀ c : Char, c.toUpper = '0' ↔ c = '0' := fun _ => toUpper_eq_mark_iff (by decide)
  have hletter : ∀ c : Char, c.toUpper = small.toUpper ↔ c = small ∨ c = capital := by
    intro c
    rw [(toUpper_eq_capital_iff hcapital hsmall).mpr (.inl rfl)]
    exact toUpper_eq_capital_iff hcapital hsmall
  rw [stripMark?_eq]
  cases token with
  | nil => simp [sameWord, upper]
  | cons c rest =>
      cases rest with
      | nil => simp [sameWord, upper]
      | cons d rest =>
          by_cases hc : c = '0'
          · simp [sameWord, upper, hletter, hc]
          · simp [sameWord, upper, hzero, (hzero '0').mpr rfl, hc]

theorem unchecked?_eq (token : Text) : unchecked? token = some (Literal.unchecked token) := by
  have hhexadecimal := stripMark?_letter (show 65 ≤ 'X'.toNat ∧ 'X'.toNat ≤ 90 by decide)
    (show 'x'.toNat = 'X'.toNat + 32 by decide) token
  have hbinary := stripMark?_letter (show 65 ≤ 'B'.toNat ∧ 'B'.toNat ≤ 90 by decide)
    (show 'b'.toNat = 'B'.toNat + 32 by decide) token
  rw [unchecked?, hhexadecimal, hbinary]
  fun_cases Literal.unchecked token with
  | case8 =>
      -- neither mark is there, nor is a quote
      cases token with
      | nil => rfl
      | cons c rest =>
          cases rest with
          | nil => simp_all [stripChar?]
          | cons d rest =>
              by_cases hzero : c = '0'
              · simp_all [stripChar?]
              · simp_all [stripChar?]
  | _ => simp [stripChar?]

end Bytewise

end WordMachine
