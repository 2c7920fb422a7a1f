import WordMachine.Proofs.PieceColumns

/-!
# Sources that 32 bits can count

A directive emits no more bytes than it is written with, and what it pads stays below
the end of memory.  So while a source is a little shorter than the numbers of 32 bits
reach, the data ends inside memory after every line, and neither the cursor nor the
depth of open brackets leaves its 32 bits on the way.
-/

namespace WordMachine

open Text

/-! ## What literals and lists come to -/

namespace Text

theorem width_trim_le (text : Text) : width (trim text) ≤ width text := by
  have hwhole := congrArg width (blanks_append_trim text)
  simp only [width_append] at hwhole
  omega

theorem count_le_width (c : Char) (text : Text) : text.count c ≤ width text := by
  induction text with
  | nil => exact Nat.zero_le _
  | cons d text ih =>
      have hsize := d.utf8Size_pos
      rw [List.count_cons, width_cons]
      split
      · omega
      · omega

theorem utf8Size_of_escapeValue {escape value : Char} (hvalue : escapeValue escape = some value) :
    value.utf8Size = 1 := by
  unfold escapeValue at hvalue
  split at hvalue
  all_goals cases hvalue
  all_goals rfl

/-- No escape stands for more bytes than it has. -/
theorem width_le_of_unescape {body text : Text} (hread : unescape body = .ok text) :
    width text ≤ width body := by
  fun_induction unescape body generalizing text with
  | case1 =>
      cases hread
      exact Nat.le_refl _
  | case2 => cases hread
  | case3 => cases hread
  | case4 escape rest value hvalue ih =>
      obtain ⟨later, hlater, rfl⟩ := exists_of_map_eq_ok hread
      have hrest := ih hlater
      have hsize := utf8Size_of_escapeValue hvalue
      have hbackslash := Char.utf8Size_pos '\\'
      simp only [width_cons]
      omega
  | case5 c rest hplain ih =>
      obtain ⟨later, hlater, rfl⟩ := exists_of_map_eq_ok hread
      have hrest := ih hlater
      simp only [width_cons]
      omega

theorem width_intercalate {texts : List Text} (hne : texts ≠ []) :
    width ([','].intercalate texts) + 1 = (texts.map fun text => width text + 1).sum := by
  induction texts with
  | nil => exact absurd rfl hne
  | cons text texts ih =>
      cases texts with
      | nil => simp
      | cons next texts =>
          have hrest := ih (by simp)
          have hcomma : Char.utf8Size ',' = 1 := rfl
          rw [List.intercalate_cons_cons, List.map_cons, List.sum_cons, ← hrest]
          simp only [width_append, width_cons, width_nil, hcomma]
          omega

end Text

theorem Literal.length_le_of_bytes {token : Text} {bytes : List UInt8}
    (hbytes : Literal.bytes token = .ok bytes) : bytes.length ≤ width token := by
  obtain ⟨quote, body, text, -, rfl, hread, rfl⟩ := exists_body_of_bytes hbytes
  have hbody := width_le_of_unescape hread
  rw [length_utf8, width_append, width_cons]
  omega

/-- The bytes of the pieces, with one more for each. -/
def Piece.totalWidth (pieces : List Piece) : Nat :=
  (pieces.map fun piece => width piece.text + 1).sum

/-- The commas between operands make up for what is counted with each of them. -/
theorem Piece.totalWidth_cut_le (piece : Piece) : totalWidth piece.cut ≤ width piece.text + 1 := by
  have htrimmed : ∀ column (segments : List Text),
      totalWidth ((place column segments).map trimmed) ≤
        (segments.map fun segment => width segment + 1).sum := by
    intro column segments
    induction segments generalizing column with
    | nil => exact Nat.le_refl _
    | cons segment segments ih =>
        have hrest := ih (column + width segment + 1)
        have hfirst := width_trim_le segment
        simp only [totalWidth, place, List.map_cons, List.sum_cons, trimmed] at hrest ⊢
        omega
  have hlist := width_intercalate (segments_ne_nil .outside 0 piece.text)
  rw [intercalate_segments] at hlist
  rw [hlist]
  exact htrimmed _ _

theorem Piece.StandsIn.width_le {piece : Piece} {line : Text} (hpiece : piece.StandsIn line) :
    width piece.text ≤ width line := by
  obtain ⟨front, back, rfl, -⟩ := hpiece
  simp only [width_append]
  omega

/-- The cursor leaves its 32 bits in no source of fewer bytes. -/
def sourceLimit : Nat := 4294901759

/-- None of the pieces of the line is as long as that. -/
def SourceLine.Short (line : SourceLine) : Prop :=
  ∀ piece ∈ line.pieces, width piece.text < sourceLimit

theorem SourceLine.short_of_mem_ofText {source : Text} {line : SourceLine}
    (hsource : width source < sourceLimit) (hline : line ∈ ofText source) : line.Short := by
  intro piece hpiece
  obtain ⟨raw, -, hraw, hread⟩ := exists_raw_of_mem_ofText hline
  obtain ⟨part, hpart, hbegins⟩ := exists_of_lines hraw
  have hwidth := ((standsIn_of_read? hread piece hpiece).of_isPrefix hbegins).width_le
  have hwhole := congrArg width (eq_of_lineParts hpart)
  simp only [width_append] at hwhole
  omega

/-! ## How far a directive gets -/

namespace Layout

variable {layout layout' : Layout} {line column : Nat}

theorem length_flatten_le {arguments : List Piece} {parts : List (List UInt8)}
    (hparts : List.Forall₂ (fun argument part => part.length ≤ width argument.text + 1)
      arguments parts) : parts.flatten.length ≤ Piece.totalWidth arguments := by
  induction hparts with
  | nil => exact Nat.le_refl _
  | cons hpart _ ih =>
      simp only [Piece.totalWidth, List.flatten_cons, List.length_append, List.map_cons,
        List.sum_cons] at ih ⊢
      omega

theorem dataEnd_le_of_emitEach {wrongArguments : AssemblyFailure}
    {bytes : Piece → Except AssemblyFailure (List UInt8)} {arguments : List Piece}
    (hbytes : ∀ argument part, bytes argument = .ok part →
      part.length ≤ width argument.text + 1)
    (hemit : layout.emitEach wrongArguments bytes arguments = .ok layout') :
    layout'.dataEnd ≤ layout.dataEnd + Piece.totalWidth arguments := by
  unfold emitEach at hemit
  split at hemit
  · cases hemit
  · obtain ⟨parts, hparts, hlayout⟩ := exists_of_bind_eq_ok hemit
    cases hlayout
    have hlength := length_flatten_le ((forall₂_of_mapM_eq_ok hparts).imp hbytes)
    rw [dataEnd_emit]
    omega

theorem ne_nil_of_argument {piece : Piece} {min max value : Int}
    (hargument : layout.argument line min max piece = .ok value) : piece.text ≠ [] := by
  intro hnil
  rw [argument, hnil] at hargument
  cases hargument

theorem length_le_of_byteArgument {piece : Piece} {min max : Int} {bytes : List UInt8}
    (hbytes : (fun value => [byteOf value]) <$> layout.argument line min max piece = .ok bytes) :
    bytes.length ≤ width piece.text + 1 := by
  obtain ⟨value, -, rfl⟩ := exists_of_map_eq_ok hbytes
  exact Nat.le_add_left _ _

theorem length_le_of_wordArgument {piece : Piece} {min max : Int} {bytes : List UInt8}
    (hbytes : wordBytes <$> layout.argument line min max piece = .ok bytes) :
    bytes.length ≤ width piece.text + 1 := by
  obtain ⟨value, hargument, rfl⟩ := exists_of_map_eq_ok hbytes
  have hwidth : width piece.text ≠ 0 :=
    fun hzero => ne_nil_of_argument hargument (width_eq_zero_iff.mp hzero)
  have hlength : (wordBytes value).length = 2 := rfl
  omega

theorem length_le_of_stringArgument {piece : Piece} {bytes : List UInt8}
    (hargument : stringArgument line piece = .ok bytes) : bytes.length ≤ width piece.text := by
  unfold stringArgument at hargument
  split at hargument
  next hbytes =>
    cases hargument
    exact Literal.length_le_of_bytes hbytes
  · cases hargument

theorem length_le_of_endedArgument {piece : Piece} {bytes : List UInt8}
    (hbytes : (· ++ [0]) <$> stringArgument line piece = .ok bytes) :
    bytes.length ≤ width piece.text + 1 := by
  obtain ⟨text, hargument, rfl⟩ := exists_of_map_eq_ok hbytes
  have hlength := length_le_of_stringArgument hargument
  simpa using hlength

theorem dataEnd_le_of_origin {target : Nat} (hends : layout.dataEnd ≤ addressSpace)
    (htarget : target ≤ addressSpace)
    (horigin : layout.origin target line column = .ok layout') :
    layout'.dataEnd ≤ addressSpace + addressSpace := by
  unfold origin at horigin
  split at horigin
  · split at horigin
    · cases horigin
    · cases horigin
      exact Nat.le_add_right_of_le hends
  · split at horigin
    next hempty =>
      cases horigin
      have hsize : layout.data.size = 0 := Array.size_eq_zero_iff.mpr (Array.isEmpty_iff.mp hempty)
      simp only [dataEnd, hsize]
      omega
    · obtain ⟨cursor, -, hpad⟩ := exists_of_bind_eq_ok horigin
      split at hpad
      · cases hpad
      · cases hpad
        rw [dataEnd_pad]
        omega

theorem dataEnd_le_of_space {arguments : List Piece} (hends : layout.dataEnd ≤ addressSpace)
    (happly : layout.apply .space line column arguments = .ok layout') :
    layout'.dataEnd ≤ addressSpace + addressSpace := by
  unfold apply at happly
  dsimp only at happly
  split at happly
  · obtain ⟨count, hargument, hpad⟩ := exists_of_bind_eq_ok happly
    obtain ⟨-, hmax⟩ := bounds_of_argument hargument
    cases hpad
    rw [dataEnd_pad]
    omega
  · cases happly

theorem dataEnd_le_of_align {arguments : List Piece} (hends : layout.dataEnd ≤ addressSpace)
    (happly : layout.apply .align line column arguments = .ok layout') :
    layout'.dataEnd ≤ addressSpace + addressSpace := by
  unfold apply at happly
  dsimp only at happly
  split at happly
  · obtain ⟨value, hargument, hrest⟩ := exists_of_bind_eq_ok happly
    obtain ⟨-, hmax⟩ := bounds_of_argument hargument
    split at hrest
    · obtain ⟨cursor, -, hpad⟩ := exists_of_bind_eq_ok hrest
      cases hpad
      have hpadded := Nat.mod_le (value.toNat - cursor % value.toNat) value.toNat
      rw [dataEnd_pad]
      unfold Literal.maxValue at hmax
      unfold addressSpace at *
      omega
    · cases hrest
  · cases happly

/-- From data that ends inside memory, a directive gets no further than its padding or its
arguments reach. -/
theorem dataEnd_le_of_apply {directive : Directive} {arguments : List Piece}
    (hends : layout.dataEnd ≤ addressSpace)
    (happly : layout.apply directive line column arguments = .ok layout') :
    layout'.dataEnd ≤ addressSpace + max addressSpace (Piece.totalWidth arguments) := by
  have hpadding : addressSpace + addressSpace ≤
      addressSpace + max addressSpace (Piece.totalWidth arguments) :=
    Nat.add_le_add_left (Nat.le_max_left _ _) _
  have hemitted : layout.dataEnd + Piece.totalWidth arguments ≤
      addressSpace + max addressSpace (Piece.totalWidth arguments) :=
    Nat.add_le_add hends (Nat.le_max_right _ _)
  have hsame : layout.dataEnd ≤ addressSpace + max addressSpace (Piece.totalWidth arguments) :=
    Nat.le_add_right_of_le hends
  cases directive with
  | data | text =>
      unfold apply at happly
      dsimp only at happly
      split at happly
      · cases happly
        exact hsame
      · cases happly
  | org =>
      unfold apply at happly
      dsimp only at happly
      split at happly
      · obtain ⟨target, hargument, horigin⟩ := exists_of_bind_eq_ok happly
        obtain ⟨-, hmax⟩ := bounds_of_argument hargument
        have htarget : target.toNat ≤ addressSpace := by
          unfold addressSpace
          omega
        exact (dataEnd_le_of_origin hends htarget horigin).trans hpadding
      · cases happly
  | equ =>
      unfold apply at happly
      dsimp only at happly
      split at happly
      · cases happly
      · split at happly
        · cases happly
        · obtain ⟨value, -, hdefine⟩ := exists_of_bind_eq_ok happly
          obtain ⟨symbols, -, rfl⟩ := symbols_of_define hdefine
          exact hsame
  | byte =>
      exact (dataEnd_le_of_emitEach (fun _ _ => length_le_of_byteArgument) happly).trans hemitted
  | word =>
      exact (dataEnd_le_of_emitEach (fun _ _ => length_le_of_wordArgument) happly).trans hemitted
  | ascii =>
      have hbytes : ∀ argument bytes, stringArgument line argument = .ok bytes →
          bytes.length ≤ width argument.text + 1 := fun _ _ hargument =>
        Nat.le_add_right_of_le (length_le_of_stringArgument hargument)
      exact (dataEnd_le_of_emitEach hbytes happly).trans hemitted
  | asciz =>
      exact (dataEnd_le_of_emitEach (fun _ _ => length_le_of_endedArgument) happly).trans hemitted
  | space => exact (dataEnd_le_of_space hends happly).trans hpadding
  | align => exact (dataEnd_le_of_align hends happly).trans hpadding

/-! ## Statements of short lines -/

variable {source : SourceLine} {statement : Piece}

theorem width_lt_of_rest {rest : Piece} (hshort : source.Short)
    (hstatement : source.statement = some statement) (hrest : statement.splitWord.2 = some rest) :
    width rest.text < sourceLimit := by
  apply hshort
  have hword : rest ∈ statement.words := by simp [Piece.words, hrest]
  simp only [SourceLine.pieces, hstatement, List.mem_append, List.mem_flatMap]
  exact .inr ⟨statement, .inl (by simp), List.mem_cons_of_mem _ hword⟩

/-- The operands of a short line come apart. -/
theorem operandPieces_of_short (hshort : source.Short)
    (hstatement : source.statement = some statement) :
    operandPieces statement.splitWord.2 = .ok (cutOperands statement.splitWord.2) := by
  cases hrest : statement.splitWord.2 with
  | none => rfl
  | some rest =>
      have hwidth := width_lt_of_rest hshort hstatement hrest
      have hcount := count_le_width '[' rest.text
      apply operandPieces_some
      apply Piece.splitOperands_of_count_lt
      unfold Piece.depthLimit
      unfold sourceLimit at hwidth
      omega

/-- A directive of a short line leaves the end of the data where 32 bits can count it. -/
theorem dataEnd_lt_of_apply {directive : Directive} (hshort : source.Short)
    (hstatement : source.statement = some statement) (hends : layout.dataEnd ≤ addressSpace)
    (happly : layout.apply directive line column (cutOperands statement.splitWord.2) =
      .ok layout') : layout'.dataEnd < 4294967296 := by
  have hwidth : Piece.totalWidth (cutOperands statement.splitWord.2) ≤ sourceLimit := by
    cases hrest : statement.splitWord.2 with
    | none => exact Nat.zero_le _
    | some rest =>
        have hlist := width_lt_of_rest hshort hstatement hrest
        have hcut := rest.totalWidth_cut_le
        exact hcut.trans hlist
  have hbound := dataEnd_le_of_apply hends happly
  unfold sourceLimit at hwidth
  unfold addressSpace at hbound
  omega

theorem dataEnd_le_of_placeStatement (hshort : source.Short)
    (hstatement : source.statement = some statement) (hends : layout.dataEnd ≤ addressSpace)
    (hplace : layout.placeStatement statement source.number = .ok layout') :
    layout'.dataEnd ≤ addressSpace := by
  unfold placeStatement at hplace
  split at hplace
  · obtain ⟨directive, -, happly, hcursor⟩ := apply_of_placeDirective hplace
    have hcounted := dataEnd_lt_of_apply hshort hstatement hends happly
    rwa [dataCursor_eq_dataEnd hcounted] at hcursor
  · obtain ⟨entry, -, -, rfl⟩ := entry_of_placeInstruction hplace
    exact hends

theorem dataEnd_le_of_place (hshort : source.Short) (hends : layout.dataEnd ≤ addressSpace)
    (hplace : layout.place source = .ok layout') : layout'.dataEnd ≤ addressSpace := by
  apply place_induction _ _ hends hplace
  · intro layout label layout' _ hends hlabel
    obtain ⟨symbols, -, rfl⟩ := symbols_of_placeLabel hlabel
    exact hends
  · exact fun _ _ _ hstatement hends hplaced =>
      dataEnd_le_of_placeStatement hshort hstatement hends hplaced

/-- Whatever a source places ends inside memory, unless the source is too long. -/
theorem dataEnd_le_of_ofText {text : Text} (hsource : width text < sourceLimit)
    (hlayout : ofText text = .ok layout) : layout.dataEnd ≤ addressSpace := by
  apply foldlM_induction (P := fun layout => layout.dataEnd ≤ addressSpace) _ (by decide) hlayout
  intro line hline layout layout' hends hplace
  exact dataEnd_le_of_place (SourceLine.short_of_mem_ofText hsource hline) hends hplace

end Layout
end WordMachine
