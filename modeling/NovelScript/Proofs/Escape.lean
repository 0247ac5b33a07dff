import Mathlib.Data.List.Infix
import NovelScript.Line.Escape

/-!
# Escaped line breaks

Escaping and unescaping do not undo each other, because a text may hold the mark of a line break
already. What holds for every text is that escaping makes no difference to a later unescaping
(`unescape_escape`), and for every text without line breaks that escaping undoes unescaping
(`escape_unescape`). Unescaping itself leaves a text alone when no mark is in it, and makes it
shorter when one is (`unescape_eq_self`, `length_unescape_lt`). Either way no mark is left
(`not_infix_unescape`).

Marks do not overlap, so a text is read as marks and other bytes in one way only. That reading is
the induction of this file (`mark_induction`). All four passes over a text are one kind of
replacement, from left to right and without overlap (`Replaced`); what is put in never completes a
mark with the bytes around it. The laws are collected in `escaping_of_any_bytes`.
-/

set_option autoImplicit false

namespace NovelScript.Line

/-- The mark of a line break with the given letter. -/
def markOf (letter : UInt8) : Bytes :=
  [markOpen, letter, markClose]

/-- Whether a result is a text with every occurrence of a pattern replaced, from left to right; what
has been replaced once is not looked at again. -/
inductive Replaced (pattern new : Bytes) : Bytes → Bytes → Prop
  | nil : Replaced pattern new [] []
  | found {rest result : Bytes} (more : Replaced pattern new rest result) :
    Replaced pattern new (pattern ++ rest) (new ++ result)
  | kept {b : UInt8} {rest result : Bytes} (absent : ¬ pattern <+: b :: rest)
    (more : Replaced pattern new rest result) : Replaced pattern new (b :: rest) (b :: result)

variable {letter other byte : UInt8}

/-! ## Reading a text as marks and other bytes -/

/-- Every text is built up from the end by marks and by bytes that start no mark. -/
theorem mark_induction (letter : UInt8) {motive : Bytes → Prop} (nil : motive [])
    (marked : ∀ rest, motive rest → motive (markOf letter ++ rest))
    (plain : ∀ b rest, ¬ markOf letter <+: b :: rest → motive rest → motive (b :: rest))
    (bytes : Bytes) : motive bytes := by
  generalize hn : bytes.length = n
  induction n using Nat.strongRecOn generalizing bytes with
  | ind n ih =>
    cases bytes with
    | nil => exact nil
    | cons b rest =>
      by_cases front : markOf letter <+: b :: rest
      · obtain ⟨back, spelled⟩ := front
        have shorter : back.length < n := by
          rw [← hn, ← spelled, List.length_append]
          simp [markOf]
        rw [← spelled]
        exact marked back (ih _ shorter back rfl)
      · have shorter : rest.length < n := by
          rw [← hn]
          simp
        exact plain b rest front (ih _ shorter rest rfl)

/-- A mark in front becomes the byte that it stands for. -/
theorem unmark_marked (rest : Bytes) :
    unmark letter byte (markOf letter ++ rest) = byte :: unmark letter byte rest := by
  simp [markOf, unmark]

/-- A byte at which no mark begins stays. -/
theorem unmark_plain {b : UInt8} {rest : Bytes} (front : ¬ markOf letter <+: b :: rest) :
    unmark letter byte (b :: rest) = b :: unmark letter byte rest := by
  match rest with
  | [] => rfl
  | [_] => rfl
  | c :: d :: rest =>
    have differs : ¬ (b = markOpen ∧ c = letter ∧ d = markClose) := by
      rintro ⟨rfl, rfl, rfl⟩
      exact front ⟨rest, rfl⟩
    rw [unmark, if_neg differs]

/-- Reading marks is a replacement. -/
theorem replaced_unmark (letter byte : UInt8) (bytes : Bytes) :
    Replaced (markOf letter) [byte] bytes (unmark letter byte bytes) := by
  induction bytes using mark_induction letter with
  | nil => exact .nil
  | marked rest ih =>
    rw [unmark_marked]
    exact .found ih
  | plain b rest front ih =>
    rw [unmark_plain front]
    exact .kept front ih

/-- A mark that starts with a byte in front of a changed text was there before, if the change brings
in neither its letter nor its end. -/
theorem prefix_of_prefix_kept {change : Bytes → Bytes}
    (kept : ∀ b ∈ [other, markClose], ∀ bytes rest, change bytes = b :: rest →
      ∃ more, bytes = b :: more ∧ change more = rest)
    {b : UInt8} {bytes : Bytes} (front : markOf other <+: b :: change bytes) :
    markOf other <+: b :: bytes := by
  obtain ⟨rest, spelled⟩ := front
  simp only [markOf, List.cons_append, List.nil_append, List.cons.injEq] at spelled
  obtain ⟨rfl, spelled⟩ := spelled
  obtain ⟨more, rfl, closed⟩ := kept other (by simp) _ _ spelled.symm
  obtain ⟨last, rfl, -⟩ := kept markClose (by simp) _ _ closed
  exact ⟨last, rfl⟩

/-! ## Marks that are written -/

/-- Marking goes byte by byte: the byte in question becomes its mark, any other stays. -/
theorem mark_cons (b : UInt8) (bytes : Bytes) :
    mark byte letter (b :: bytes) =
      (if b = byte then markOf letter else [b]) ++ mark byte letter bytes :=
  rfl

/-- Writing marks is a replacement. -/
theorem replaced_mark (byte letter : UInt8) (bytes : Bytes) :
    Replaced [byte] (markOf letter) bytes (mark byte letter bytes) := by
  induction bytes with
  | nil => exact .nil
  | cons b bytes ih =>
    rw [mark_cons]
    by_cases same : b = byte
    · rw [if_pos same, same]
      exact .found ih
    · rw [if_neg same]
      refine .kept ?_ ih
      rintro ⟨rest, spelled⟩
      simp only [List.cons_append, List.cons.injEq] at spelled
      exact same spelled.1.symm

/-- Marking leaves alone what the byte does not occur in. -/
theorem mark_append_of_not_mem {front : Bytes} (foreign : byte ∉ front) (rest : Bytes) :
    mark byte letter (front ++ rest) = front ++ mark byte letter rest := by
  induction front with
  | nil => rfl
  | cons b front ih =>
    rw [List.mem_cons, not_or] at foreign
    rw [List.cons_append, mark_cons, if_neg (Ne.symm foreign.1), ih foreign.2]
    rfl

/-- A byte that writing a mark does not put in front was there before. -/
theorem eq_cons_of_mark_eq_cons {b : UInt8} {bytes rest : Bytes} (notOpen : b ≠ markOpen)
    (spelled : mark byte letter bytes = b :: rest) :
    ∃ more, bytes = b :: more ∧ mark byte letter more = rest := by
  cases bytes with
  | nil => simp [mark] at spelled
  | cons first more =>
    rw [mark_cons] at spelled
    by_cases same : first = byte
    · simp only [same, if_true, markOf, List.cons_append, List.cons.injEq] at spelled
      exact absurd spelled.1.symm notOpen
    · simp only [same, if_false, List.singleton_append, List.cons.injEq] at spelled
      exact ⟨more, by rw [spelled.1], spelled.2⟩

/-- Writing marks behind a byte makes no new mark that starts with it. -/
theorem prefix_of_prefix_mark {b : UInt8} {bytes : Bytes} (notOpen : other ≠ markOpen)
    (front : markOf other <+: b :: mark byte letter bytes) : markOf other <+: b :: bytes := by
  refine prefix_of_prefix_kept ?_ front
  intro c member bytes rest spelled
  apply eq_cons_of_mark_eq_cons _ spelled
  rintro rfl
  rcases List.mem_cons.mp member with same | closing
  · exact notOpen same.symm
  · exact absurd closing (by decide)

/-- A mark that is written is read back, and the marks that were there before are read all the
same. -/
theorem unmark_mark (notOpen : letter ≠ markOpen) (foreign : byte ∉ markOf letter)
    (bytes : Bytes) : unmark letter byte (mark byte letter bytes) = unmark letter byte bytes := by
  induction bytes using mark_induction letter with
  | nil => rfl
  | marked rest ih => rw [mark_append_of_not_mem foreign, unmark_marked, unmark_marked, ih]
  | plain b rest front ih =>
    rw [unmark_plain front, mark_cons]
    by_cases same : b = byte
    · rw [if_pos same, unmark_marked, ih, same]
    · rw [if_neg same, List.singleton_append, unmark_plain, ih]
      exact fun written => front (prefix_of_prefix_mark notOpen written)

/-- Marks of another letter are passed over one byte after the other. -/
theorem unmark_markOf_append (different : letter ≠ other) (notOpen : letter ≠ markOpen)
    (rest : Bytes) :
    unmark other byte (markOf letter ++ rest) = markOf letter ++ unmark other byte rest := by
  -- A mark of the other letter would have to start at one of the three bytes.
  have first : ¬ markOf other <+: markOpen :: letter :: markClose :: rest := by
    rintro ⟨_, spelled⟩
    simp only [markOf, List.cons_append, List.cons.injEq] at spelled
    exact different spelled.2.1.symm
  have second : ¬ markOf other <+: letter :: markClose :: rest := by
    rintro ⟨_, spelled⟩
    simp only [markOf, List.cons_append, List.cons.injEq] at spelled
    exact notOpen spelled.1.symm
  have third : ¬ markOf other <+: markClose :: rest := by
    rintro ⟨_, spelled⟩
    simp only [markOf, List.cons_append, List.cons.injEq] at spelled
    exact absurd spelled.1 (by decide)
  have spread : ∀ tail : Bytes, markOf letter ++ tail = markOpen :: letter :: markClose :: tail :=
    fun _ => rfl
  rw [spread, spread, unmark_plain first, unmark_plain second, unmark_plain third]

/-- Marks of two letters are written and read independently of each other. -/
theorem unmark_mark_comm {otherByte : UInt8} (different : letter ≠ other)
    (notOpen : letter ≠ markOpen) (otherNotOpen : other ≠ markOpen) (foreign : byte ∉ markOf other)
    (bytesDiffer : otherByte ≠ byte) (bytes : Bytes) :
    unmark other otherByte (mark byte letter bytes) =
      mark byte letter (unmark other otherByte bytes) := by
  induction bytes using mark_induction other with
  | nil => rfl
  | marked rest ih =>
    rw [mark_append_of_not_mem foreign, unmark_marked, unmark_marked, ih, mark_cons,
      if_neg bytesDiffer]
    rfl
  | plain b rest front ih =>
    rw [unmark_plain front, mark_cons, mark_cons]
    by_cases same : b = byte
    · rw [if_pos same, unmark_markOf_append different notOpen, ih]
    · rw [if_neg same, List.singleton_append, unmark_plain, ih]
      · rfl
      · exact fun written => front (prefix_of_prefix_mark otherNotOpen written)

/-- Escaping a text makes no difference to unescaping it. -/
theorem unescape_escape (bytes : Bytes) : unescape (escape bytes) = unescape bytes := by
  -- Line feeds are marked last and read last, so reading returns has to pass their marks by.
  rw [unescape, escape, unmark_mark_comm (by decide) (by decide) (by decide) (by decide)
    (by decide), unmark_mark (by decide) (by decide), unmark_mark (by decide) (by decide)]
  rfl

/-- Marks that are read are written again, where nothing else would be marked. -/
theorem mark_unmark {bytes : Bytes} (clean : byte ∉ bytes) :
    mark byte letter (unmark letter byte bytes) = bytes := by
  induction bytes using mark_induction letter with
  | nil => rfl
  | marked rest ih =>
    rw [List.mem_append, not_or] at clean
    rw [unmark_marked, mark_cons, if_pos rfl, ih clean.2]
  | plain b rest front ih =>
    rw [List.mem_cons, not_or] at clean
    rw [unmark_plain front, mark_cons, if_neg (Ne.symm clean.1), ih clean.2]
    rfl

/-- A text without line breaks is what it unescapes to, escaped. -/
theorem escape_unescape {bytes : Bytes} (noReturn : Bytes.cr ∉ bytes) (noFeed : Bytes.lf ∉ bytes) :
    escape (unescape bytes) = bytes := by
  rw [unescape, escape, ← unmark_mark_comm (by decide) (by decide) (by decide) (by decide)
    (by decide), mark_unmark noReturn, mark_unmark noFeed]

/-! ## Marks that are read -/

/-- Taking marks back makes nothing longer. -/
theorem length_unmark_le (letter byte : UInt8) (bytes : Bytes) :
    (unmark letter byte bytes).length ≤ bytes.length := by
  induction bytes using mark_induction letter with
  | nil => exact Nat.le_refl 0
  | marked rest ih =>
    rw [unmark_marked, List.length_append]
    simp only [markOf, List.length_cons, List.length_nil]
    omega
  | plain b rest front ih =>
    rw [unmark_plain front]
    exact Nat.succ_le_succ ih

/-- Without a mark there is nothing to take back. -/
theorem unmark_eq_self {bytes : Bytes} (clean : ¬ markOf letter <:+: bytes) :
    unmark letter byte bytes = bytes := by
  induction bytes using mark_induction letter with
  | nil => rfl
  | marked rest ih => exact absurd (List.prefix_append _ rest).isInfix clean
  | plain b rest front ih =>
    rw [unmark_plain front, ih]
    exact fun later => clean (later.trans (List.suffix_cons b rest).isInfix)

/-- Every mark that is taken back makes the text shorter. -/
theorem length_unmark_lt {bytes : Bytes} (found : markOf letter <:+: bytes) :
    (unmark letter byte bytes).length < bytes.length := by
  induction bytes using mark_induction letter with
  | nil => simp [markOf] at found
  | marked rest ih =>
    have notLonger := length_unmark_le letter byte rest
    rw [unmark_marked, List.length_append]
    simp only [markOf, List.length_cons, List.length_nil]
    omega
  | plain b rest front ih =>
    rw [unmark_plain front]
    rcases List.infix_cons_iff.mp found with early | late
    · exact absurd early front
    · exact Nat.succ_lt_succ (ih late)

/-- Unescaping makes nothing longer. -/
theorem length_unescape_le (bytes : Bytes) : (unescape bytes).length ≤ bytes.length :=
  Nat.le_trans (length_unmark_le _ _ _) (length_unmark_le _ _ bytes)

/-- A text without marks is not changed by unescaping. -/
theorem unescape_eq_self {bytes : Bytes} (noReturn : ¬ markOf crLetter <:+: bytes)
    (noFeed : ¬ markOf lfLetter <:+: bytes) : unescape bytes = bytes := by
  rw [unescape, unmark_eq_self noReturn, unmark_eq_self noFeed]

/-- A text with a mark is made shorter by unescaping. -/
theorem length_unescape_lt {bytes : Bytes}
    (found : markOf crLetter <:+: bytes ∨ markOf lfLetter <:+: bytes) :
    (unescape bytes).length < bytes.length := by
  by_cases early : markOf crLetter <:+: bytes
  · exact Nat.lt_of_le_of_lt (length_unmark_le _ _ _) (length_unmark_lt early)
  · rw [unescape, unmark_eq_self early]
    exact length_unmark_lt (found.resolve_left early)

/-- A byte that reading a mark does not put in was there before. -/
theorem eq_cons_of_unmark_eq_cons {b : UInt8} {bytes rest : Bytes} (differs : b ≠ byte)
    (spelled : unmark letter byte bytes = b :: rest) :
    ∃ more, bytes = b :: more ∧ unmark letter byte more = rest := by
  cases bytes with
  | nil => simp [unmark] at spelled
  | cons first more =>
    by_cases front : markOf letter <+: first :: more
    · obtain ⟨back, whole⟩ := front
      rw [← whole, unmark_marked, List.cons.injEq] at spelled
      exact absurd spelled.1.symm differs
    · rw [unmark_plain front, List.cons.injEq] at spelled
      exact ⟨more, by rw [spelled.1], spelled.2⟩

/-- Reading marks makes no new mark that starts with a byte in front. -/
theorem prefix_of_prefix_unmark {b : UInt8} {bytes : Bytes} (foreign : byte ∉ markOf other)
    (front : markOf other <+: b :: unmark letter byte bytes) : markOf other <+: b :: bytes := by
  refine prefix_of_prefix_kept ?_ front
  intro c member bytes rest spelled
  apply eq_cons_of_unmark_eq_cons _ spelled
  rintro rfl
  exact foreign (List.mem_cons_of_mem _ member)

/-- A mark does not begin with a byte that is not in it. -/
theorem not_prefix_of_foreign (foreign : byte ∉ markOf other) (rest : Bytes) :
    ¬ markOf other <+: byte :: rest := by
  rintro ⟨more, spelled⟩
  rw [markOf, List.cons_append, List.cons.injEq] at spelled
  exact foreign (by simp [markOf, spelled.1])

/-- A mark in what is left after reading marks was there before. -/
theorem infix_of_infix_unmark {bytes : Bytes} (foreign : byte ∉ markOf other)
    (found : markOf other <:+: unmark letter byte bytes) : markOf other <:+: bytes := by
  induction bytes using mark_induction letter with
  | nil => exact found
  | marked rest ih =>
    rw [unmark_marked] at found
    rcases List.infix_cons_iff.mp found with early | later
    · exact absurd early (not_prefix_of_foreign foreign _)
    · exact (ih later).trans (List.suffix_append _ rest).isInfix
  | plain b rest front ih =>
    rw [unmark_plain front] at found
    rcases List.infix_cons_iff.mp found with early | later
    · exact (prefix_of_prefix_unmark foreign early).isInfix
    · exact (ih later).trans (List.suffix_cons b rest).isInfix

/-- No mark is left when marks have been taken back, as their byte cannot complete another one. -/
theorem not_infix_unmark (foreign : byte ∉ markOf letter) (bytes : Bytes) :
    ¬ markOf letter <:+: unmark letter byte bytes := by
  induction bytes using mark_induction letter with
  | nil => simp [unmark, markOf]
  | marked rest ih =>
    rw [unmark_marked, List.infix_cons_iff, not_or]
    exact ⟨not_prefix_of_foreign foreign _, ih⟩
  | plain b rest front ih =>
    rw [unmark_plain front, List.infix_cons_iff, not_or]
    exact ⟨fun early => front (prefix_of_prefix_unmark foreign early), ih⟩

/-- Unescaping leaves no mark. -/
theorem not_infix_unescape (bytes : Bytes) :
    ¬ markOf crLetter <:+: unescape bytes ∧ ¬ markOf lfLetter <:+: unescape bytes := by
  constructor
  · intro found
    exact not_infix_unmark (by decide) bytes (infix_of_infix_unmark (by decide) found)
  · exact not_infix_unmark (by decide) _

/-- Writing marks puts in the bytes of marks only, and takes out the byte that is marked. -/
theorem mem_of_mem_mark {b : UInt8} {bytes : Bytes} (member : b ∈ mark byte letter bytes) :
    b ∈ markOf letter ∨ b ∈ bytes ∧ b ≠ byte := by
  obtain ⟨a, source, written⟩ := List.mem_flatMap.mp member
  by_cases same : a = byte
  · rw [if_pos same] at written
    exact .inl written
  · rw [if_neg same, List.mem_singleton] at written
    exact .inr ⟨written ▸ source, written ▸ same⟩

/-- An escaped text has neither of the two bytes that break lines. -/
theorem not_mem_escape (bytes : Bytes) :
    Bytes.cr ∉ escape bytes ∧ Bytes.lf ∉ escape bytes := by
  constructor
  · intro member
    rcases mem_of_mem_mark member with written | ⟨early, -⟩
    · exact absurd written (by decide)
    · rcases mem_of_mem_mark early with written | ⟨-, differs⟩
      · exact absurd written (by decide)
      · exact differs rfl
  · intro member
    rcases mem_of_mem_mark member with written | ⟨-, differs⟩
    · exact absurd written (by decide)
    · exact differs rfl

/-- What holds of escaping and unescaping for any bytes. Each is two replacements in a row, of
carriage returns and then of line feeds. An escaped text has no line break and an unescaped one no
mark; to unescape what was escaped is to unescape, which changes exactly the texts with a mark and
makes them shorter; and a text without line breaks is got back by escaping what it unescapes to. -/
theorem escaping_of_any_bytes (bytes : Bytes) :
    (∃ middle, Replaced [Bytes.cr] (Bytes.ascii "[r]") bytes middle ∧
        Replaced [Bytes.lf] (Bytes.ascii "[n]") middle (escape bytes)) ∧
      (∃ middle, Replaced (Bytes.ascii "[r]") [Bytes.cr] bytes middle ∧
        Replaced (Bytes.ascii "[n]") [Bytes.lf] middle (unescape bytes)) ∧
      (Bytes.cr ∉ escape bytes ∧ Bytes.lf ∉ escape bytes) ∧
      (¬ Bytes.ascii "[r]" <:+: unescape bytes ∧ ¬ Bytes.ascii "[n]" <:+: unescape bytes) ∧
      unescape (escape bytes) = unescape bytes ∧
      (unescape bytes = bytes ↔
        ¬ Bytes.ascii "[r]" <:+: bytes ∧ ¬ Bytes.ascii "[n]" <:+: bytes) ∧
      (unescape bytes ≠ bytes → (unescape bytes).length < bytes.length) ∧
      (Bytes.cr ∉ bytes → Bytes.lf ∉ bytes → escape (unescape bytes) = bytes) := by
  have returns : Bytes.ascii "[r]" = markOf crLetter := by decide +kernel
  have feeds : Bytes.ascii "[n]" = markOf lfLetter := by decide +kernel
  rw [returns, feeds]
  refine ⟨⟨_, replaced_mark _ _ _, replaced_mark _ _ _⟩,
    ⟨_, replaced_unmark _ _ _, replaced_unmark _ _ _⟩, not_mem_escape bytes,
    not_infix_unescape bytes, unescape_escape bytes, ?_, ?_, escape_unescape⟩
  · constructor
    · intro same
      rw [← same]
      exact not_infix_unescape bytes
    · rintro ⟨noReturn, noFeed⟩
      exact unescape_eq_self noReturn noFeed
  · intro changed
    apply length_unescape_lt
    by_contra clean
    rw [not_or] at clean
    exact changed (unescape_eq_self clean.1 clean.2)

/-- A mark inside what looks like another one: only the inner one is read, what is left around it is
no mark, and escaping writes the inner one again. -/
theorem escaping_of_any_bytes_nested_mark :
    unescape (Bytes.ascii "[n[n]]") = Bytes.ascii "[n\n]" ∧
      (unescape (Bytes.ascii "[n[n]]")).length < (Bytes.ascii "[n[n]]").length ∧
      ¬ Bytes.ascii "[n]" <:+: unescape (Bytes.ascii "[n[n]]") ∧
      escape (unescape (Bytes.ascii "[n[n]]")) = Bytes.ascii "[n[n]]" := by
  obtain ⟨-, -, -, unmarked, -, -, shorter, again⟩ :=
    escaping_of_any_bytes (Bytes.ascii "[n[n]]")
  exact ⟨by decide +kernel, shorter (by decide +kernel), unmarked.2,
    again (by decide +kernel) (by decide +kernel)⟩

end NovelScript.Line
