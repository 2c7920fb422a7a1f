import WordMachine.Proofs.ByteReading
import WordMachine.Proofs.OperandLists

/-!
# Where operand lists are cut

What stands in front of a character is read by a grammar: characters, brackets and
whole literals, in any order, leave a number of brackets open.  A list is cut at
exactly those commas whose front is of that kind and leaves none open.  Nothing else
is taken out of it: the segments joined by commas are the list again, and each
operand is its segment without the blanks around it.
-/

namespace WordMachine

namespace Text

/-! ## What stands in front of a character -/

/-- The inside of a literal: no bare quote of its kind, and each backslash takes the next
character with it. -/
inductive IsBody (quote : Char) : Text → Prop
  | empty : IsBody quote []
  | plain {c : Char} {rest : Text} :
      c ≠ '\\' → c ≠ quote → IsBody quote rest → IsBody quote (c :: rest)
  | escape (c : Char) {rest : Text} : IsBody quote rest → IsBody quote ('\\' :: c :: rest)

/-- What stands behind a literal, given what stands behind its opening quote. -/
inductive EndsLiteral (quote : Char) : (rest behind : Text) → Prop
  | closed {body : Text} (behind : Text) :
      IsBody quote body → EndsLiteral quote (body ++ quote :: behind) behind
  | unterminated {rest : Text} :
      (∀ body behind, IsBody quote body → rest ≠ body ++ quote :: behind) →
        EndsLiteral quote rest []

/-- A text that ends outside every literal, with so many brackets left open. -/
inductive LeavesOpen : (depth : Nat) → Text → Prop
  | start : LeavesOpen 0 []
  | plain {depth : Nat} {front : Text} {c : Char} :
      LeavesOpen depth front → Quoting.isQuote c = false → c ≠ '[' → c ≠ ']' →
        LeavesOpen depth (front ++ [c])
  | opening {depth : Nat} {front : Text} :
      LeavesOpen depth front → LeavesOpen (depth + 1) (front ++ ['['])
  | closing {depth : Nat} {front : Text} :
      LeavesOpen (depth + 1) front → LeavesOpen depth (front ++ [']'])
  /-- A bracket that closes nothing. -/
  | unmatched {front : Text} : LeavesOpen 0 front → LeavesOpen 0 (front ++ [']'])
  | literal {depth : Nat} {front body : Text} {quote : Char} :
      LeavesOpen depth front → Quoting.isQuote quote = true → IsBody quote body →
        LeavesOpen depth (front ++ quote :: (body ++ [quote]))

variable {quote : Char} {body rest behind text front back a b : Text} {depth : Nat}

theorem IsBody.append (ha : IsBody quote a) (hb : IsBody quote b) : IsBody quote (a ++ b) := by
  induction ha with
  | empty => exact hb
  | plain hplain hquote _ ih => exact .plain hplain hquote ih
  | escape c _ ih => exact .escape c ih

namespace EndsLiteral

theorem plain {c : Char} (hplain : c ≠ '\\') (hstays : c ≠ quote)
    (hrest : EndsLiteral quote rest behind) : EndsLiteral quote (c :: rest) behind := by
  cases hrest with
  | closed behind hbody => exact .closed behind (.plain hplain hstays hbody)
  | unterminated hnone =>
      refine .unterminated fun body behind hbody heq => ?_
      cases hbody with
      | empty => exact hstays (List.cons.inj heq).1
      | plain _ _ hbody => exact hnone _ behind hbody (List.cons.inj heq).2
      | escape c _ => exact hplain (List.cons.inj heq).1

theorem escape (hquote : quote ≠ '\\') (c : Char) (hrest : EndsLiteral quote rest behind) :
    EndsLiteral quote ('\\' :: c :: rest) behind := by
  cases hrest with
  | closed behind hbody => exact .closed behind (.escape c hbody)
  | unterminated hnone =>
      refine .unterminated fun body behind hbody heq => ?_
      cases hbody with
      | empty => exact hquote (List.cons.inj heq).1.symm
      | plain hplain _ _ => exact hplain (List.cons.inj heq).1.symm
      | escape d hbody =>
          exact hnone _ behind hbody (List.cons.inj (List.cons.inj heq).2).2

end EndsLiteral

/-- The scan of a literal stops where the grammar has its end. -/
theorem endsLiteral_closing (hquote : quote ≠ '\\') (rest : Text) :
    EndsLiteral quote rest ((Quoting.inside quote).closing rest).2 := by
  fun_induction bare rest with
  | case1 => exact .unterminated fun body behind _ heq => by simp at heq
  | case2 =>
      refine .unterminated fun body behind hbody heq => ?_
      cases hbody with
      | empty => exact hquote (List.cons.inj heq).1.symm
      | plain _ _ _ => simp at heq
      | escape _ _ => simp at heq
  | case3 c rest ih => simpa [Quoting.closing, Quoting.next] using ih.escape hquote c
  | case4 c rest hplain ih =>
      by_cases hcloses : c = quote
      · subst hcloses
        simpa [Quoting.closing, Quoting.next, hplain] using EndsLiteral.closed rest .empty
      · simpa [Quoting.closing, Quoting.next, hplain, hcloses] using ih.plain hplain hcloses

/-- So does the scan over byte positions. -/
theorem exists_skipLiteral?_of_append (hquote : Quoting.isQuote quote = true)
    (htext : text = front ++ quote :: rest) :
    ∃ behind, EndsLiteral quote rest behind ∧
      Bytewise.skipLiteral? text quote (width front + quote.utf8Size) =
        some (width text - width behind) := by
  have hfrom : from? text (width front) = some (quote :: rest) := by
    rw [htext]
    exact from?_append front (quote :: rest)
  obtain ⟨next, hskip, -, hbehind⟩ := Bytewise.exists_skipLiteral? hfrom
  have hwidth := width_of_from? hbehind
  refine ⟨(literal (quote :: rest)).2,
    endsLiteral_closing (ne_backslash_of_isQuote hquote) rest, ?_⟩
  rw [hskip, ← hwidth, Nat.add_sub_cancel]

/-- No more brackets are open than were opened. -/
theorem LeavesOpen.depth_le (hfront : LeavesOpen depth front) : depth ≤ front.count '[' := by
  induction hfront with
  | start => exact Nat.zero_le _
  | plain _ _ _ _ ih =>
      rw [List.count_append]
      omega
  | opening _ ih =>
      rw [List.count_append, List.count_singleton_self]
      omega
  | closing _ ih =>
      rw [List.count_append]
      omega
  | unmatched => exact Nat.zero_le _
  | literal _ _ _ ih =>
      rw [List.count_append]
      omega

end Text

open Text

variable {quote : Char} {body rest behind text front back a b : Text} {depth : Nat}

namespace Piece

/-! ## The scan against the grammar -/

/-- Where the scan of a list stands behind a text: in or outside a literal, at a depth. -/
def scanned (quoting : Quoting) (depth : Nat) : Text → Quoting × Nat
  | [] => (quoting, depth)
  | c :: rest =>
      scanned (quoting.next c) (if quoting = .outside then nextDepth depth c else depth) rest

theorem scanned_append (quoting : Quoting) (depth : Nat) (a b : Text) :
    scanned quoting depth (a ++ b) =
      scanned (scanned quoting depth a).1 (scanned quoting depth a).2 b := by
  induction a generalizing quoting depth with
  | nil => rfl
  | cons c a ih => exact ih _ _

theorem scanned_body (hbody : IsBody quote body) (depth : Nat) :
    scanned (.inside quote) depth body = (.inside quote, depth) := by
  induction hbody with
  | empty => rfl
  | plain hplain hquote _ ih => simpa [scanned, Quoting.next, hplain, hquote] using ih
  | escape c _ ih => simpa [scanned, Quoting.next] using ih

theorem scanned_literal (hquote : Quoting.isQuote quote = true) (hbody : IsBody quote body)
    (depth : Nat) : scanned .outside depth (quote :: (body ++ [quote])) = (.outside, depth) := by
  rw [scanned, if_pos rfl, nextDepth_of_isQuote hquote, next_of_isQuote hquote, scanned_append,
    scanned_body hbody]
  simp [scanned, Quoting.next, ne_backslash_of_isQuote hquote]

theorem scanned_of_leavesOpen (hfront : LeavesOpen depth front) :
    scanned .outside 0 front = (.outside, depth) := by
  induction hfront with
  | start => rfl
  | plain _ hquote hopen hclose ih =>
      rw [scanned_append, ih]
      simp [scanned, Quoting.next, hquote, nextDepth, hopen, hclose]
  | opening _ ih =>
      rw [scanned_append, ih]
      rfl
  | closing _ ih =>
      rw [scanned_append, ih]
      rfl
  | unmatched _ ih =>
      rw [scanned_append, ih]
      rfl
  | literal _ hquote hbody ih =>
      rw [scanned_append, ih]
      exact scanned_literal hquote hbody _

/-- What the text in front of the scan is, given where the scan stands. -/
def Explains (front : Text) : Quoting → (depth : Nat) → Prop
  | .outside, depth => LeavesOpen depth front
  | .inside quote, depth =>
      ∃ before body, front = before ++ quote :: body ∧ LeavesOpen depth before ∧
        Quoting.isQuote quote = true ∧ IsBody quote body
  | .escaped quote, depth =>
      ∃ before body, front = before ++ quote :: (body ++ ['\\']) ∧ LeavesOpen depth before ∧
        Quoting.isQuote quote = true ∧ IsBody quote body

theorem explains_outside (hfront : LeavesOpen depth front) (c : Char) :
    Explains (front ++ [c]) (Quoting.outside.next c) (nextDepth depth c) := by
  by_cases hquote : Quoting.isQuote c = true
  · rw [next_of_isQuote hquote, nextDepth_of_isQuote hquote]
    exact ⟨front, [], rfl, hfront, hquote, .empty⟩
  · have hnext : Quoting.outside.next c = .outside := by simp [Quoting.next, hquote]
    rw [hnext]
    unfold nextDepth
    split
    next hopen =>
      subst hopen
      exact hfront.opening
    next hopen =>
      split
      next hclose =>
        subst hclose
        cases depth with
        | zero => exact hfront.unmatched
        | succ depth => exact hfront.closing
      next hclose => exact hfront.plain (by simpa using hquote) hopen hclose

/-- One character further, the text in front of the scan is what it says again. -/
theorem Explains.next {quoting : Quoting} (hfront : Explains front quoting depth) (c : Char) :
    Explains (front ++ [c]) (quoting.next c)
      (if quoting = .outside then nextDepth depth c else depth) := by
  cases quoting with
  | outside => exact explains_outside hfront c
  | inside quote =>
      obtain ⟨before, body, rfl, hbefore, hquote, hbody⟩ := hfront
      rw [if_neg (by simp), Quoting.next]
      split
      next hescape =>
        subst hescape
        exact ⟨before, body, by simp, hbefore, hquote, hbody⟩
      next hplain =>
        split
        next hcloses =>
          subst hcloses
          have hclosed := hbefore.literal hquote hbody
          rwa [← List.cons_append, ← List.append_assoc] at hclosed
        next hstays =>
          exact ⟨before, body ++ [c], by simp, hbefore, hquote,
            hbody.append (.plain hplain hstays .empty)⟩
  | escaped quote =>
      obtain ⟨before, body, rfl, hbefore, hquote, hbody⟩ := hfront
      rw [if_neg (by simp), Quoting.next]
      exact ⟨before, body ++ ['\\', c], by simp, hbefore, hquote,
        hbody.append (.escape c .empty)⟩

theorem Explains.scanned {quoting : Quoting} (hfront : Explains front quoting depth)
    (text : Text) :
    Explains (front ++ text) (scanned quoting depth text).1 (scanned quoting depth text).2 := by
  induction text generalizing front quoting depth with
  | nil => rwa [List.append_nil]
  | cons c text ih =>
      have hrest := ih (hfront.next c)
      rwa [List.append_assoc] at hrest

theorem scanned_eq_iff :
    scanned .outside 0 front = (.outside, depth) ↔ LeavesOpen depth front := by
  constructor
  · intro hscan
    have hstart : Explains [] .outside 0 := LeavesOpen.start
    have hfront := hstart.scanned front
    rwa [hscan] at hfront
  · exact scanned_of_leavesOpen

/-! ## Too many brackets -/

/-- The scan comes to an opening bracket while as many as can be counted are open. -/
def Overflows (quoting : Quoting) (depth : Nat) (text : Text) : Prop :=
  ∃ front back, text = front ++ '[' :: back ∧ (scanned quoting depth front).1 = .outside ∧
    depthLimit ≤ (scanned quoting depth front).2 + 1

theorem overflows_cons_iff {quoting : Quoting} {c : Char} :
    Overflows quoting depth (c :: rest) ↔
      (quoting = .outside ∧ c = '[' ∧ depthLimit ≤ depth + 1) ∨
        Overflows (quoting.next c) (if quoting = .outside then nextDepth depth c else depth)
          rest := by
  constructor
  · rintro ⟨front, back, htext, houtside, hfull⟩
    cases front with
    | nil => exact .inl ⟨houtside, (List.cons.inj htext).1, hfull⟩
    | cons e front =>
        obtain ⟨rfl, rfl⟩ := List.cons.inj htext
        exact .inr ⟨front, back, rfl, houtside, hfull⟩
  · rintro (⟨houtside, rfl, hfull⟩ | ⟨front, back, rfl, houtside, hfull⟩)
    · exact ⟨[], rest, rfl, houtside, hfull⟩
    · exact ⟨c :: front, back, rfl, houtside, hfull⟩

theorem segments?_eq_none_iff {quoting : Quoting} :
    segments? quoting depth text = none ↔ Overflows quoting depth text := by
  induction text generalizing quoting depth with
  | nil => simp [Overflows]
  | cons c rest ih =>
      rw [overflows_cons_iff, segments?]
      split
      next hcut =>
        obtain ⟨rfl, rfl, rfl⟩ := hcut
        rw [Option.map_eq_none_iff, ih]
        simp [Quoting.next, Quoting.isQuote, nextDepth]
      next =>
        split
        next hfull => simp [hfull]
        next hcounted =>
          rw [Option.map_eq_none_iff, ih, or_iff_right hcounted]

/-- A list is not cut exactly if a bracket is opened in it inside of as many as can be counted. -/
theorem splitOperands_eq_none_iff {piece : Piece} :
    piece.splitOperands = none ↔
      ∃ front back depth,
        piece.text = front ++ '[' :: back ∧ LeavesOpen depth front ∧ depthLimit ≤ depth + 1 := by
  rw [splitOperands, Option.map_eq_none_iff, segments?_eq_none_iff]
  constructor
  · rintro ⟨front, back, htext, houtside, hfull⟩
    refine ⟨front, back, (scanned .outside 0 front).2, htext, ?_, hfull⟩
    exact scanned_eq_iff.mp (Prod.ext houtside rfl)
  · rintro ⟨front, back, depth, htext, hfront, hfull⟩
    have hscan := scanned_eq_iff.mpr hfront
    exact ⟨front, back, htext, by rw [hscan], by rwa [hscan]⟩

/-! ## The cuts -/

/-- The list is cut in two there: some of its segments make up the front, the others the back. -/
def IsCut (segments : List Text) (front back : Text) : Prop :=
  ∃ before after, before ≠ [] ∧ after ≠ [] ∧ segments = before ++ after ∧
    [','].intercalate before = front ∧ [','].intercalate after = back

theorem not_isCut_singleton (segment : Text) : ¬IsCut [segment] front back := by
  rintro ⟨before, after, hbefore, hafter, hsegments, -⟩
  rcases List.append_eq_singleton_iff.mp hsegments.symm with ⟨rfl, -⟩ | ⟨-, rfl⟩
  · exact hbefore rfl
  · exact hafter rfl

theorem isCut_nil_cons_iff {segments : List Text} (hne : segments ≠ []) :
    IsCut ([] :: segments) front back ↔
      front = [] ∧ [','].intercalate segments = back ∨
        ∃ later, front = ',' :: later ∧ IsCut segments later back := by
  constructor
  · rintro ⟨before, after, hbefore, hafter, hsegments, rfl, rfl⟩
    obtain ⟨first, before, rfl⟩ := List.exists_cons_of_ne_nil hbefore
    obtain ⟨rfl, rfl⟩ := List.cons.inj hsegments
    cases before with
    | nil => exact .inl ⟨rfl, rfl⟩
    | cons next before =>
        refine .inr ⟨[','].intercalate (next :: before), ?_, next :: before, after, by simp,
          hafter, rfl, rfl, rfl⟩
        rw [intercalate_cons (by simp)]
        rfl
  · rintro (⟨rfl, rfl⟩ | ⟨later, rfl, before, after, hbefore, hafter, rfl, rfl, rfl⟩)
    · exact ⟨[[]], segments, by simp, hne, rfl, rfl, rfl⟩
    · refine ⟨[] :: before, after, by simp, hafter, rfl, ?_, rfl⟩
      rw [intercalate_cons hbefore]
      rfl

theorem isCut_modifyHead_iff {segments : List Text} (hne : segments ≠ []) (c : Char) :
    IsCut (segments.modifyHead (c :: ·)) front back ↔
      ∃ later, front = c :: later ∧ IsCut segments later back := by
  obtain ⟨segment, segments, rfl⟩ := List.exists_cons_of_ne_nil hne
  constructor
  · rintro ⟨before, after, hbefore, hafter, hsegments, rfl, rfl⟩
    obtain ⟨first, before, rfl⟩ := List.exists_cons_of_ne_nil hbefore
    obtain ⟨rfl, rfl⟩ := List.cons.inj hsegments
    exact ⟨[','].intercalate (segment :: before),
      intercalate_modifyHead (List.cons_ne_nil segment before) [','] c,
      segment :: before, after, by simp, hafter, rfl, rfl, rfl⟩
  · rintro ⟨later, rfl, before, after, hbefore, hafter, hsegments, rfl, rfl⟩
    obtain ⟨first, before, rfl⟩ := List.exists_cons_of_ne_nil hbefore
    obtain ⟨rfl, rfl⟩ := List.cons.inj hsegments
    exact ⟨(c :: segment) :: before, after, by simp, hafter, rfl,
      intercalate_modifyHead (List.cons_ne_nil segment before) [','] c, rfl⟩

/-- The segments meet at the commas that the scan comes to outside quotes and brackets. -/
theorem isCut_segments_iff (quoting : Quoting) (depth : Nat) :
    IsCut (segments quoting depth text) front back ↔
      text = front ++ ',' :: back ∧ scanned quoting depth front = (.outside, 0) := by
  induction text generalizing quoting depth front with
  | nil =>
      refine ⟨fun hcut => absurd hcut (not_isCut_singleton []), fun h => ?_⟩
      have hlength := congrArg List.length h.1
      simp at hlength
  | cons c rest ih =>
      rw [segments]
      split
      next hcut =>
        obtain ⟨rfl, rfl, rfl⟩ := hcut
        rw [isCut_nil_cons_iff (segments_ne_nil _ _ _), intercalate_segments]
        constructor
        · rintro (⟨rfl, rfl⟩ | ⟨later, rfl, hlater⟩)
          · exact ⟨rfl, rfl⟩
          · obtain ⟨rfl, hscan⟩ := (ih _ _).mp hlater
            exact ⟨rfl, hscan⟩
        · rintro ⟨htext, hscan⟩
          cases front with
          | nil => exact .inl ⟨rfl, (List.cons.inj htext).2⟩
          | cons e front =>
              obtain ⟨rfl, rfl⟩ := List.cons.inj htext
              exact .inr ⟨front, rfl, (ih _ _).mpr ⟨rfl, hscan⟩⟩
      next hstays =>
        rw [isCut_modifyHead_iff (segments_ne_nil _ _ _)]
        constructor
        · rintro ⟨later, rfl, hlater⟩
          obtain ⟨rfl, hscan⟩ := (ih _ _).mp hlater
          exact ⟨rfl, hscan⟩
        · rintro ⟨htext, hscan⟩
          cases front with
          | nil =>
              obtain ⟨rfl, rfl⟩ := Prod.mk.inj hscan
              exact absurd ⟨rfl, (List.cons.inj htext).1, rfl⟩ hstays
          | cons e front =>
              obtain ⟨rfl, rfl⟩ := List.cons.inj htext
              exact ⟨front, rfl, (ih _ _).mpr ⟨rfl, hscan⟩⟩

/-! ## The operands -/

/-- The operand is the segment without the blanks around it, at the column of its first byte, or
of the end of the segment if that is blank. -/
def IsTrimOf (operand : Piece) (segment : Text) (column : Nat) : Prop :=
  ∃ lead trail, segment = lead ++ operand.text ++ trail ∧
    (∀ c ∈ lead ++ trail, isBlank c = true) ∧
      (IsTight operand.text ∨ operand.text = [] ∧ trail = []) ∧
        operand.column = column + width lead

theorem isTrimOf_trimmed (segment : Text) (column : Nat) :
    IsTrimOf (trimmed ⟨segment, column⟩) segment column := by
  rw [trimmed, width_sub_width_trimLeft]
  refine ⟨segment.takeWhile isBlank, (trimLeft segment).rtakeWhile isBlank,
    (blanks_append_trim segment).symm, ?_, ?_, rfl⟩
  · intro c hc
    rcases List.mem_append.mp hc with hlead | htrail
    · exact List.mem_takeWhile_imp hlead
    · exact List.mem_rtakeWhile_imp htrail
  · by_cases hblank : trimLeft segment = []
    · exact .inr ⟨trim_eq_nil_iff.mpr hblank, by simp [hblank]⟩
    · exact .inl (isTight_trim hblank)

/-- A segment stands behind the segments before it and as many commas. -/
theorem getElem?_place (before : List Text) (segment : Text) (after : List Text) (column : Nat) :
    (place column (before ++ segment :: after))[before.length]? =
      some ⟨segment, column + width (before.flatMap (· ++ [',']))⟩ := by
  induction before generalizing column with
  | nil => rfl
  | cons first before ih =>
      have hcomma : Char.utf8Size ',' = 1 := rfl
      simp only [List.cons_append, place, List.length_cons, List.getElem?_cons_succ, ih,
        List.flatMap_cons, width_append, width_cons, width_nil, hcomma]
      congr 2
      omega

/-! ## The result -/

/-- Nothing but the commas outside quotes and brackets and the blanks around the operands is
lost when a list is split.  It is split unless more brackets are open at once than 32 bits count. -/
theorem operands_are_cut_at_open_commas (piece : Piece) :
    (piece.splitOperands = none ↔
      ∃ front back depth,
        piece.text = front ++ '[' :: back ∧ LeavesOpen depth front ∧ depthLimit ≤ depth + 1) ∧
    (piece.text.count '[' < depthLimit → piece.splitOperands ≠ none) ∧
    (∀ operands, piece.splitOperands = some operands →
      ∃ segments : List Text, segments ≠ [] ∧ [','].intercalate segments = piece.text ∧
        (∀ front back, IsCut segments front back ↔
          piece.text = front ++ ',' :: back ∧ LeavesOpen 0 front) ∧
        operands.length = segments.length ∧
        ∀ before segment after, segments = before ++ segment :: after →
          ∃ operand, operands[before.length]? = some operand ∧
            operand.IsTrimOf segment (piece.column + width (before.flatMap (· ++ [','])))) ∧
    (∀ front quote rest, piece.text = front ++ quote :: rest → Quoting.isQuote quote = true →
      ∃ behind, EndsLiteral quote rest behind ∧
        Bytewise.skipLiteral? piece.text quote (width front + quote.utf8Size) =
          some (width piece.text - width behind)) ∧
    (∀ front depth, LeavesOpen depth front → depth ≤ front.count '[') ∧
    Bytewise.splitOperands? piece = some piece.splitOperands := by
  refine ⟨splitOperands_eq_none_iff, ?_, ?_, ?_, ?_, Bytewise.splitOperands?_eq piece⟩
  · intro hcount
    simp [splitOperands_of_count_lt hcount]
  · intro operands hsplit
    obtain rfl := eq_cut_of_splitOperands hsplit
    refine ⟨segments .outside 0 piece.text, segments_ne_nil _ _ _, intercalate_segments _ _ _,
      ?_, ?_, ?_⟩
    · intro front back
      rw [isCut_segments_iff, scanned_eq_iff]
    · have hlength := congrArg List.length
        (map_text_place piece.column (segments .outside 0 piece.text))
      rw [List.length_map] at hlength
      rw [cut, List.length_map, hlength]
    · intro before segment after hsegments
      refine ⟨_, ?_, isTrimOf_trimmed segment _⟩
      rw [cut, hsegments, List.getElem?_map, getElem?_place]
      rfl
  · intro front quote rest htext hquote
    exact exists_skipLiteral?_of_append hquote htext
  · intro front depth hfront
    exact hfront.depth_le

/-- A bracket that closes nothing hides no comma, and a quote that is not closed hides all. -/
theorem operands_are_cut_at_open_commas_unmatched :
    let list : Piece := ⟨"',', b],\"c,d".toList, 5⟩
    ∃ operands segments,
      list.splitOperands = some operands ∧
        IsCut segments "','".toList " b],\"c,d".toList ∧
          IsCut segments "',', b]".toList "\"c,d".toList ∧
            ¬IsCut segments "',', b],\"c".toList "d".toList ∧
              operands.length = segments.length ∧
                ∃ behind, EndsLiteral '"' "c,d".toList behind ∧
                  Bytewise.skipLiteral? list.text '"' 9 = some (12 - width behind) := by
  intro list
  obtain ⟨-, hcounted, hsplits, hskips, -, -⟩ := operands_are_cut_at_open_commas list
  obtain ⟨operands, hsome⟩ := Option.ne_none_iff_exists'.mp (hcounted (by decide))
  obtain ⟨segments, -, -, hcuts, hlength, -⟩ := hsplits operands hsome
  have hfirst : LeavesOpen 0 "','".toList := scanned_eq_iff.mp (by decide)
  have hsecond : LeavesOpen 0 "',', b]".toList := scanned_eq_iff.mp (by decide)
  have hquoted : ¬LeavesOpen 0 "',', b],\"c".toList := by
    rw [← scanned_eq_iff]
    decide
  exact ⟨operands, segments, hsome, (hcuts _ _).mpr ⟨rfl, hfirst⟩,
    (hcuts _ _).mpr ⟨rfl, hsecond⟩, fun hcut => hquoted ((hcuts _ _).mp hcut).2, hlength,
    hskips "',', b],".toList '"' "c,d".toList rfl rfl⟩

theorem leavesOpen_replicate (depth : Nat) : LeavesOpen depth (List.replicate depth '[') := by
  induction depth with
  | zero => exact .start
  | succ depth ih =>
      rw [List.replicate_succ']
      exact ih.opening

/-- Where nothing but 2 ^ 32 brackets is opened, there is no result. -/
theorem not_every_list_is_cut :
    ¬∀ piece : Piece, ∃ operands, piece.splitOperands = some operands := by
  intro hall
  obtain ⟨operands, hsome⟩ := hall ⟨List.replicate 4294967296 '[', 1⟩
  have hnone : splitOperands ⟨List.replicate 4294967296 '[', 1⟩ = none := by
    rw [splitOperands_eq_none_iff]
    refine ⟨List.replicate 4294967295 '[', [], 4294967295, ?_, leavesOpen_replicate _, ?_⟩
    · exact List.replicate_succ' ..
    · exact Nat.le_refl 4294967296
  rw [hnone] at hsome
  cases hsome

example :
    splitOperands ⟨"R0,  [R1 + 2] , #',', \"a,b\"".toList, 5⟩ =
      some
        [⟨"R0".toList, 5⟩, ⟨"[R1 + 2]".toList, 10⟩, ⟨"#','".toList, 21⟩,
          ⟨"\"a,b\"".toList, 27⟩] := by
  decide

end Piece

end WordMachine
