import NovelScript.Dump.Text
import NovelScript.Proofs.Escape
import NovelScript.Proofs.LineSplitting

/-!
# The lines of a text stream

A text stream is a list of pieces with a text typed in every line of it (`stream`). Its lines give
back what is taken from these texts, in order, however they end (`map_replacement_split_stream`).
The mark of unfinished text only lengthens the front of a line, and what is left over at the end is
a line too many and nothing else.

A line is found again because nothing in front of its text can be taken for its end or for the
separator, and no line break is in the text itself.
-/

set_option autoImplicit false

namespace NovelScript

namespace Line

/-! ## Taking a line apart -/

/-- What is left of a line behind its separator: the text without the mark of its category, or
without the mark of unfinished text. -/
def strip (body : Bytes) : Bytes :=
  match Bytes.after? categoryStem body with
  | some _ => unescape (body.drop categoryWidth)
  | none => (Bytes.after? unfinishedMark body).getD body

/-- The byte that separators are made of. -/
def colon : UInt8 := 0x3A

/-- What stands behind the first separator is found if there is no colon in front of it. -/
theorem afterFirst?_separator {front : Bytes} (clean : colon ∉ front) (body : Bytes) :
    Bytes.afterFirst? separator (front ++ (separator ++ body)) = some body := by
  have spelled : separator = [colon, colon, colon, colon, colon] := by decide +kernel
  induction front with
  | nil =>
    have found := Bytes.after?_eq_some_iff.mpr (Eq.refl (separator ++ body))
    rw [spelled, List.cons_append] at found
    rw [List.nil_append, spelled, List.cons_append, Bytes.afterFirst?, found]
  | cons b front ih =>
    rw [List.mem_cons, not_or] at clean
    have missed : Bytes.after? separator (b :: (front ++ (separator ++ body))) = none := by
      rw [spelled, Bytes.after?, if_neg clean.1]
    rw [List.cons_append, Bytes.afterFirst?, missed]
    exact ih clean.2

/-- A line with its address gives back what is behind the separator. -/
theorem replacement_of_separator {front : Bytes} (clean : colon ∉ front) (body : Bytes) :
    replacement (front ++ (separator ++ body)) = strip body := by
  rw [replacement, Line.body, afterFirst?_separator clean, Option.getD_some]
  rfl

/-- A text without a category and without a mark is not stripped. -/
theorem strip_eq_self {bytes : Bytes} (noCategory : ¬ categoryStem <+: bytes)
    (noUnfinished : ¬ unfinishedMark <+: bytes) : strip bytes = bytes := by
  have category : Bytes.after? categoryStem bytes = none := by
    rw [Option.eq_none_iff_forall_ne_some]
    intro rest found
    exact noCategory ⟨rest, (Bytes.after?_eq_some_iff.mp found).symm⟩
  have unfinished : Bytes.after? unfinishedMark bytes = none := by
    rw [Option.eq_none_iff_forall_ne_some]
    intro rest found
    exact noUnfinished ⟨rest, (Bytes.after?_eq_some_iff.mp found).symm⟩
  rw [strip, category, unfinished]
  rfl

/-- A category or a mark that is stripped makes the text shorter. -/
theorem length_strip_lt {bytes : Bytes}
    (found : categoryStem <+: bytes ∨ unfinishedMark <+: bytes) :
    (strip bytes).length < bytes.length := by
  rw [strip]
  split
  case h_1 rest category =>
    have spelled := Bytes.after?_eq_some_iff.mp category
    have nonempty : 0 < bytes.length := by
      rw [spelled, List.length_append]
      exact Nat.lt_add_right _ (by decide +kernel)
    have notLonger := length_unescape_le (bytes.drop categoryWidth)
    have width : 0 < categoryWidth := by decide
    rw [List.length_drop] at notLonger
    omega
  case h_2 none =>
    rcases found with ⟨rest, spelled⟩ | ⟨rest, spelled⟩
    · rw [Bytes.after?_eq_some_iff.mpr spelled.symm] at none
      simp at none
    · rw [Bytes.after?_eq_some_iff.mpr spelled.symm, Option.getD_some, ← spelled,
        List.length_append]
      exact Nat.lt_add_of_pos_left (by decide +kernel)

/-- The mark of a category is taken off, and the line breaks behind it come back. -/
theorem strip_category (category : Category) (text : Bytes) :
    strip (Bytes.ascii category.mark ++ text) = unescape text := by
  obtain ⟨rest, stem, width⟩ : ∃ rest, Bytes.ascii category.mark = categoryStem ++ rest ∧
      (categoryStem ++ rest).length = categoryWidth := by
    cases category
    · exact ⟨Bytes.ascii "1]", by decide +kernel, by decide +kernel⟩
    · exact ⟨Bytes.ascii "2]", by decide +kernel, by decide +kernel⟩
    · exact ⟨Bytes.ascii "3]", by decide +kernel, by decide +kernel⟩
  have found : Bytes.after? categoryStem (Bytes.ascii category.mark ++ text) =
      some (rest ++ text) := by
    rw [Bytes.after?_eq_some_iff, stem, List.append_assoc]
  rw [strip, found, stem, ← width, List.drop_left]

/-- What a text is written as in its line. -/
def written (isString : Bool) (text : Bytes) : Bytes :=
  if isString then escape text else text

/-- What a line puts back that holds a text behind its front. -/
def taken (isString : Bool) (text : Bytes) : Bytes :=
  if isString then unescape text else strip text

end Line

/-! ## The bytes in front of a separator -/

/-- Whether a byte can stand in front of the separator of a dumped line. -/
def isFront (b : UInt8) : Bool :=
  b != Line.colon && b != Bytes.cr && b != Bytes.lf

/-- A decimal numeral can stand in front of a line. -/
theorem isFront_decimal (n : Nat) : ∀ b ∈ Bytes.ascii (Numeral.decimal n), isFront b = true := by
  intro b member
  rw [Numeral.decimal, Numeral.digits, Bytes.ascii, String.toList_ofList] at member
  obtain ⟨c, digit, rfl⟩ := List.mem_map.mp member
  have isDigit := Nat.isDigit_of_mem_toDigits (by decide) (by decide) digit
  simp only [Char.isDigit, ge_iff_le, Bool.and_eq_true, decide_eq_true_eq, UInt32.le_iff_toNat_le]
    at isDigit
  obtain ⟨low, high⟩ := isDigit
  have small : c.toNat ≤ 57 := high
  have large : 48 ≤ c.toNat := low
  have value : (UInt8.ofNat c.toNat).toNat = c.toNat := by
    rw [UInt8.toNat_ofNat']
    omega
  have differs : ∀ other : UInt8, (other.toNat < 48 ∨ 57 < other.toNat) →
      UInt8.ofNat c.toNat ≠ other := by
    rintro other outside rfl
    omega
  simp [isFront, differs _ (by decide : Line.colon.toNat < 48 ∨ 57 < Line.colon.toNat),
    differs _ (by decide : Bytes.cr.toNat < 48 ∨ 57 < Bytes.cr.toNat),
    differs _ (by decide : Bytes.lf.toNat < 48 ∨ 57 < Bytes.lf.toNat)]

/-- A mark can stand in front of a line. -/
theorem isFront_unfinishedMark : ∀ b ∈ Line.unfinishedMark, isFront b = true := by
  decide +kernel

/-! ## Pieces with typed texts -/

/-- A text as it is typed behind the front of a line, and how the line ends. -/
structure TypedLine where
  text : Bytes
  ending : Line.Ending
  deriving DecidableEq

/-- A line as it was typed, with its ending. -/
def TypedLine.bytes (line : TypedLine) : Bytes :=
  line.text ++ line.ending.bytes

/-- What stands in a piece before its text. -/
def Piece.front : Piece → Bytes
  | unfinished => Line.unfinishedMark
  | string address category _ => opening address ++ Bytes.ascii category.mark
  | run address _ => opening address

/-- The text of a piece, and whether it is that of a string operand. -/
def Piece.text? : Piece → Option (Bool × Bytes)
  | unfinished => none
  | string _ _ payload => some (true, payload)
  | run _ bytes => some (false, bytes)

/-- The pieces that are lines are those with a text. -/
theorem Piece.countP_isLine (pieces : List Piece) :
    pieces.countP isLine = (pieces.filterMap text?).length := by
  induction pieces with
  | nil => rfl
  | cons piece pieces ih =>
    rw [List.countP_cons, List.filterMap_cons, ih]
    cases piece <;> rfl

/-- The text stream with the given pieces, in which the first line holds the first of the given
texts, the second line the second one and so on. -/
def stream : List Piece → List TypedLine → Bytes
  | [], _ => []
  | .unfinished :: pieces, typed => Line.unfinishedMark ++ stream pieces typed
  | piece :: pieces, [] => piece.front ++ stream pieces []
  | piece :: pieces, line :: typed => piece.front ++ (line.bytes ++ stream pieces typed)

/-- A piece with a text writes its front and the next line. -/
theorem stream_cons_of_text? {piece : Piece} {text : Bool × Bytes} (has : piece.text? = some text)
    (pieces : List Piece) (line : TypedLine) (typed : List TypedLine) :
    stream (piece :: pieces) (line :: typed) =
      piece.front ++ (line.bytes ++ stream pieces typed) := by
  cases piece with
  | unfinished => simp [Piece.text?] at has
  | string => rfl
  | run => rfl

/-- The line of a text, as a dump writes it. -/
def TypedLine.ofText (text : Bool × Bytes) : TypedLine :=
  { text := Line.written text.1 text.2, ending := .lf }

/-- The pieces of a text stream are written with their own texts. -/
theorem flatMap_bytes_eq_stream (pieces : List Piece) :
    pieces.flatMap Piece.bytes =
      stream pieces ((pieces.filterMap Piece.text?).map TypedLine.ofText) := by
  induction pieces with
  | nil => rfl
  | cons piece pieces ih =>
    rw [List.flatMap_cons, ih]
    cases piece with
    | unfinished => rfl
    | string address category payload =>
      simp [Piece.text?, stream, Piece.bytes, Piece.front, TypedLine.ofText, TypedLine.bytes,
        Line.written, Line.Ending.bytes]
    | run address bytes =>
      simp [Piece.text?, stream, Piece.bytes, Piece.front, TypedLine.ofText, TypedLine.bytes,
        Line.written, Line.Ending.bytes]

/-- The front of a line is its address, the separator and a mark that is taken off again. -/
theorem Piece.front_eq_of_text? {piece : Piece} {isString : Bool} {old : Bytes}
    (has : piece.text? = some (isString, old)) :
    ∃ address mark, piece.front = Bytes.ascii (Numeral.decimal address) ++ (Line.separator ++ mark) ∧
      (Bytes.cr ∉ mark ∧ Bytes.lf ∉ mark) ∧
      ∀ text, Line.strip (mark ++ text) = Line.taken isString text := by
  cases piece with
  | unfinished => simp [text?] at has
  | string address category payload =>
    simp only [text?, Option.some.injEq, Prod.mk.injEq] at has
    obtain ⟨rfl, -⟩ := has
    refine ⟨address, Bytes.ascii category.mark, by simp [front, opening], ?_, ?_⟩
    · cases category <;> decide +kernel
    · intro text
      exact Line.strip_category category text
  | run address bytes =>
    simp only [text?, Option.some.injEq, Prod.mk.injEq] at has
    obtain ⟨rfl, -⟩ := has
    exact ⟨address, [], by simp [front, opening], by simp, fun text => rfl⟩

/-- A typed line is split off whole and puts back its text, whatever stands in front of its
address. -/
theorem map_replacement_split_line {front : Bytes} (hfront : ∀ b ∈ front, isFront b = true)
    {piece : Piece} {isString : Bool} {old : Bytes} (has : piece.text? = some (isString, old))
    {line : TypedLine} (noBreaks : Bytes.cr ∉ line.text ∧ Bytes.lf ∉ line.text) (rest : Bytes) :
    (Line.split (front ++ (piece.front ++ (line.bytes ++ rest)))).map Line.replacement =
      Line.taken isString line.text :: (Line.split rest).map Line.replacement := by
  obtain ⟨address, mark, opened, noBreaksInMark, stripped⟩ := Piece.front_eq_of_text? has
  have early : ∀ b ∈ front ++ Bytes.ascii (Numeral.decimal address), isFront b = true := by
    intro b member
    rcases List.mem_append.mp member with member | member
    · exact hfront b member
    · exact isFront_decimal address b member
  have absent : ∀ b, isFront b = false → b ∉ front ++ Bytes.ascii (Numeral.decimal address) := by
    intro b outside member
    rw [early b member] at outside
    simp at outside
  have spelled : front ++ (piece.front ++ (line.bytes ++ rest)) =
      (front ++ Bytes.ascii (Numeral.decimal address) ++ (Line.separator ++ (mark ++ line.text))) ++
        (line.ending.bytes ++ rest) := by
    simp [opened, TypedLine.bytes]
  have single : ∀ b, isFront b = false → b ∉ Line.separator → b ∉ mark → b ∉ line.text →
      b ∉ front ++ Bytes.ascii (Numeral.decimal address) ++
        (Line.separator ++ (mark ++ line.text)) := by
    intro b outside notSeparator notMark notText
    simp only [List.mem_append, not_or] at absent ⊢
    exact ⟨absent b outside, notSeparator, notMark, notText⟩
  have whole := single _ rfl (by decide +kernel) noBreaksInMark.1 noBreaks.1
  have whole' := single _ rfl (by decide +kernel) noBreaksInMark.2 noBreaks.2
  rw [spelled, Line.split_append_ending (Line.isLine_of_noBreaks ⟨whole, whole'⟩), List.map_cons,
    Line.replacement_of_separator (absent _ rfl), stripped]

/-- The lines of a text stream put back what is taken from their texts, in order; a mark left over
at the end is one line more. -/
theorem map_replacement_split_stream {pieces : List Piece} {typed : List TypedLine}
    (count : typed.length = (pieces.filterMap Piece.text?).length)
    (noBreaks : ∀ line ∈ typed, Bytes.cr ∉ line.text ∧ Bytes.lf ∉ line.text)
    {front : Bytes} (hfront : ∀ b ∈ front, isFront b = true) :
    ∃ extra, (Line.split (front ++ stream pieces typed)).map Line.replacement =
      List.zipWith (fun text line => Line.taken text.1 line.text)
        (pieces.filterMap Piece.text?) typed ++ extra := by
  induction pieces generalizing front typed with
  | nil => exact ⟨_, rfl⟩
  | cons piece pieces ih =>
    cases has : piece.text? with
    | none =>
      -- The mark ends no line; it goes to the front of the next one.
      obtain rfl : piece = .unfinished := by
        cases piece <;> simp_all [Piece.text?]
      have longer : ∀ b ∈ front ++ Line.unfinishedMark, isFront b = true := by
        intro b member
        rcases List.mem_append.mp member with member | member
        · exact hfront b member
        · exact isFront_unfinishedMark b member
      obtain ⟨extra, hextra⟩ := ih count noBreaks longer
      refine ⟨extra, ?_⟩
      rw [List.append_assoc] at hextra
      exact hextra
    | some text =>
      obtain ⟨isString, old⟩ := text
      rw [List.filterMap_cons_some has] at count ⊢
      cases typed with
      | nil => simp at count
      | cons line typed =>
        rw [List.forall_mem_cons] at noBreaks
        have nothing : ∀ b ∈ ([] : Bytes), isFront b = true := by simp
        obtain ⟨extra, hextra⟩ := ih (Nat.succ.inj count) noBreaks.2 nothing
        refine ⟨extra, ?_⟩
        rw [stream_cons_of_text? has, map_replacement_split_line hfront has noBreaks.1]
        rw [List.nil_append] at hextra
        rw [hextra]
        rfl

end NovelScript
