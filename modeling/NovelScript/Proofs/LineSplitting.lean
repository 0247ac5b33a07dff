import Mathlib.Data.List.Basic
import Mathlib.Data.List.TakeWhile
import NovelScript.Line.Split

/-!
# Splitting undoes joining

Lines that are joined with either ending between them come back when the text is split, as long as
no line holds a line feed or ends in a carriage return (`Line.IsLine`); a carriage return inside a
line does no harm. The last line may lack its ending if there is something in it.

A text is empty, or a last line without a line feed, or a line, a line feed and another text.
Statements about all texts go by these three cases (`Line.lineInduction`), with one equation of
`Line.split` for each.
-/

set_option autoImplicit false

namespace NovelScript.Line

/-- How a line of a text stream ends. -/
inductive Ending
  | lf
  | crlf
  deriving DecidableEq

/-- The bytes of a line ending. -/
def Ending.bytes : Ending → Bytes
  | lf => [Bytes.lf]
  | crlf => [Bytes.cr, Bytes.lf]

/-- Lines with their endings, one behind the other. -/
def join (lines : List (Bytes × Ending)) : Bytes :=
  lines.flatMap fun line => line.1 ++ line.2.bytes

/-- Whether a line can be told from its ending: no line feed is in it, and no carriage return at its
end. -/
def IsLine (line : Bytes) : Prop :=
  Bytes.lf ∉ line ∧ line.getLast? ≠ some Bytes.cr

/-- Both conditions on a line can be checked. -/
instance (line : Bytes) : Decidable (IsLine line) :=
  inferInstanceAs (Decidable (_ ∧ _))

/-- A text without bytes that break lines is a line. -/
theorem isLine_of_noBreaks {line : Bytes} (noBreaks : Bytes.cr ∉ line ∧ Bytes.lf ∉ line) :
    IsLine line :=
  ⟨noBreaks.2, fun last => noBreaks.1 (List.mem_of_getLast? last)⟩

/-! ## The three kinds of texts -/

/-- Only a carriage return at the end is trimmed. -/
theorem trimReturn_eq_self {line : Bytes} (noReturn : line.getLast? ≠ some Bytes.cr) :
    trimReturn line = line :=
  if_neg noReturn

/-- A line is scanned to its end if it has no line feed. -/
theorem bne_lf_of_not_mem {line : Bytes} (noFeed : Bytes.lf ∉ line) :
    ∀ b ∈ line, (b != Bytes.lf) = true := by
  intro b member
  rw [bne_iff_ne]
  rintro rfl
  exact noFeed member

/-- An empty text has no lines. -/
theorem split_nil : split [] = [] := by
  rw [split]

/-- A text without a line feed is one line. -/
theorem split_of_not_mem {line : Bytes} (nonempty : line ≠ []) (noFeed : Bytes.lf ∉ line) :
    split line = [trimReturn line] := by
  have other := bne_lf_of_not_mem noFeed
  obtain ⟨first, more, rfl⟩ := List.exists_cons_of_ne_nil nonempty
  rw [split]
  split
  case h_1 => rw [List.takeWhile_eq_self_iff.mpr other]
  case h_2 tail =>
    rw [List.dropWhile_eq_nil_iff.mpr other] at tail
    simp at tail

/-- A line feed ends a line, and the rest is split by itself. -/
theorem split_append_lf {line : Bytes} (noFeed : Bytes.lf ∉ line) (rest : Bytes) :
    split (line ++ Bytes.lf :: rest) = trimReturn line :: split rest := by
  have other := bne_lf_of_not_mem noFeed
  have taken : (line ++ Bytes.lf :: rest).takeWhile (· != Bytes.lf) = line := by
    rw [List.takeWhile_append_of_pos other]
    simp
  have dropped : (line ++ Bytes.lf :: rest).dropWhile (· != Bytes.lf) = Bytes.lf :: rest := by
    rw [List.dropWhile_append_of_pos other]
    simp
  generalize line ++ Bytes.lf :: rest = text at taken dropped
  cases text with
  | nil => simp at dropped
  | cons first more =>
    rw [split]
    split
    case h_1 none => simp [none] at dropped
    case h_2 tail =>
      rw [tail, List.cons.injEq] at dropped
      rw [taken, dropped.2]

/-- Induction over the lines of a text. -/
@[elab_as_elim]
theorem lineInduction {motive : Bytes → Prop} (nil : motive [])
    (last : ∀ line, line ≠ [] → Bytes.lf ∉ line → motive line)
    (line : ∀ line rest, Bytes.lf ∉ line → motive rest → motive (line ++ Bytes.lf :: rest))
    (text : Bytes) : motive text := by
  by_cases feed : Bytes.lf ∈ text
  · obtain ⟨front, rest, spelled, noFeed⟩ := List.eq_append_cons_of_mem feed
    rw [spelled]
    exact line front rest noFeed (lineInduction nil last line rest)
  · by_cases empty : text = []
    · rw [empty]
      exact nil
    · exact last text empty feed
termination_by text.length
decreasing_by
  rw [spelled, List.length_append, List.length_cons]
  omega

/-! ## Joined lines -/

/-- A line is split off without its ending. -/
theorem split_append_ending {line : Bytes} (isLine : IsLine line) (ending : Ending)
    (rest : Bytes) : split (line ++ (ending.bytes ++ rest)) = line :: split rest := by
  obtain ⟨noFeed, noReturn⟩ := isLine
  cases ending with
  | lf =>
    have whole := split_append_lf noFeed rest
    rwa [trimReturn_eq_self noReturn] at whole
  | crlf =>
    have noFeed : Bytes.lf ∉ line ++ [Bytes.cr] := by
      rw [List.mem_append, List.mem_singleton, not_or]
      exact ⟨noFeed, by decide⟩
    have whole := split_append_lf noFeed rest
    rw [List.append_assoc] at whole
    show split (line ++ ([Bytes.cr] ++ Bytes.lf :: rest)) = _
    rw [whole, trimReturn, if_pos List.getLast?_concat, List.dropLast_concat]

/-- A last line without an ending is a line all the same. -/
theorem split_of_isLine {line : Bytes} (nonempty : line ≠ []) (isLine : IsLine line) :
    split line = [line] := by
  rw [split_of_not_mem nonempty isLine.1, trimReturn_eq_self isLine.2]

/-- Joined lines are split off one after the other, and what follows them is split on its own. -/
theorem split_join_append {lines : List (Bytes × Ending)} (areLines : ∀ line ∈ lines, IsLine line.1)
    (rest : Bytes) : split (join lines ++ rest) = lines.map Prod.fst ++ split rest := by
  induction lines with
  | nil => rfl
  | cons line lines ih =>
    rw [List.forall_mem_cons] at areLines
    rw [join, List.flatMap_cons, List.append_assoc, List.append_assoc,
      split_append_ending areLines.1, ← join, ih areLines.2, List.map_cons, List.cons_append]

/-! ## Any text -/

/-- A text is whole when no line is under way at its end. -/
theorem whole_append_lf_iff (line rest : Bytes) :
    (line ++ Bytes.lf :: rest = [] ∨ (line ++ Bytes.lf :: rest).getLast? = some Bytes.lf) ↔
      rest = [] ∨ rest.getLast? = some Bytes.lf := by
  rcases rest.eq_nil_or_concat' with rfl | ⟨front, last, rfl⟩
  · simp
  · rw [← List.cons_append, ← List.append_assoc, List.getLast?_concat, List.getLast?_concat]
    simp

/-- There is a line for each line feed, and one more if something stands behind the last one. -/
theorem length_split (text : Bytes) :
    (split text).length = text.count Bytes.lf +
      if text = [] ∨ text.getLast? = some Bytes.lf then 0 else 1 := by
  induction text using lineInduction with
  | nil => rw [split_nil]; rfl
  | last line nonempty noFeed =>
    have underWay : ¬ (line = [] ∨ line.getLast? = some Bytes.lf) := by
      rintro (empty | last)
      · exact nonempty empty
      · exact noFeed (List.mem_of_getLast? last)
    rw [split_of_not_mem nonempty noFeed, if_neg underWay, List.count_eq_zero_of_not_mem noFeed]
    rfl
  | line line rest noFeed ih =>
    simp only [whole_append_lf_iff]
    rw [split_append_lf noFeed, List.length_cons, ih, List.count_append,
      List.count_eq_zero_of_not_mem noFeed, List.count_cons_self]
    omega

/-- A text behind a whole one is split on its own. -/
theorem split_append {text : Bytes} (whole : text = [] ∨ text.getLast? = some Bytes.lf)
    (more : Bytes) : split (text ++ more) = split text ++ split more := by
  induction text using lineInduction with
  | nil => rw [split_nil]; rfl
  | last line nonempty noFeed =>
    rcases whole with empty | last
    · exact absurd empty nonempty
    · exact absurd (List.mem_of_getLast? last) noFeed
  | line line rest noFeed ih =>
    rw [whole_append_lf_iff] at whole
    rw [List.append_assoc, List.cons_append, split_append_lf noFeed, split_append_lf noFeed,
      ih whole, List.cons_append]

/-- Splitting undoes joining, for lines with either ending and with or without one behind the last
line. Any text has as many lines as line feeds, and one more if it ends inside a line. And a text
can be split in two parts wherever a line has ended. -/
theorem splitting_of_any_text :
    (∀ lines : List (Bytes × Ending), (∀ line ∈ lines, IsLine line.1) →
      split (join lines) = lines.map Prod.fst ∧
        ∀ last, last ≠ [] → IsLine last →
          split (join lines ++ last) = lines.map Prod.fst ++ [last]) ∧
      (∀ text, (split text).length = text.count Bytes.lf +
        if text ≠ [] ∧ text.getLast? ≠ some Bytes.lf then 1 else 0) ∧
      ∀ text more : Bytes, text = [] ∨ text.getLast? = some Bytes.lf →
        split (text ++ more) = split text ++ split more := by
  refine ⟨fun lines areLines => ⟨?_, fun last nonempty isLine => ?_⟩, fun text => ?_,
    fun text more whole => split_append whole more⟩
  · have joined := split_join_append areLines []
    rwa [List.append_nil, split_nil, List.append_nil] at joined
  · rw [split_join_append areLines, split_of_isLine nonempty isLine]
  · simp only [length_split, ne_eq, ← not_or, ite_not]

/-- A carriage return inside a line, an empty line and a last line without an ending. -/
theorem splitting_of_any_text_mixed :
    (∀ line ∈ [(Bytes.ascii "a\rb", Ending.crlf), ([], .lf)], IsLine line.1) ∧
      join [(Bytes.ascii "a\rb", .crlf), ([], .lf)] = Bytes.ascii "a\rb\r\n\n" ∧
      split (Bytes.ascii "a\rb\r\n\nc") = [Bytes.ascii "a\rb", [], Bytes.ascii "c"] ∧
      (split (Bytes.ascii "a\rb\r\n\nc")).length = 3 ∧
      split (Bytes.ascii "a\rb\r\n\n" ++ Bytes.ascii "\r\n") =
        split (Bytes.ascii "a\rb\r\n\n") ++ split (Bytes.ascii "\r\n") := by
  obtain ⟨joined, counted, parted⟩ := splitting_of_any_text
  have areLines : ∀ line ∈ [(Bytes.ascii "a\rb", Ending.crlf), ([], .lf)], IsLine line.1 := by
    decide +kernel
  have spelled : join [(Bytes.ascii "a\rb", .crlf), ([], .lf)] = Bytes.ascii "a\rb\r\n\n" := by
    decide +kernel
  have behind := (joined _ areLines).2 (Bytes.ascii "c") (by decide +kernel) (by decide +kernel)
  have whole : join [(Bytes.ascii "a\rb", .crlf), ([], .lf)] ++ Bytes.ascii "c" =
      Bytes.ascii "a\rb\r\n\nc" := by
    decide +kernel
  rw [whole] at behind
  exact ⟨areLines, spelled, behind, (counted _).trans (by decide +kernel),
    parted _ _ (.inr (by decide +kernel))⟩

end NovelScript.Line
