import Mathlib.Data.List.TakeWhile
import Mathlib.Tactic.Tauto
import NovelScript.Jump.Plausible

/-!
# What passes for text

Bytes pass for text when they are characters of code page 932, one behind the other. `Character` is
such a character, of one byte or of two, and `spell` writes characters down. The scan that looks for
text accepts exactly what can be spelled with at least one character (`isPlausible_iff`).

Bytes that can end a character of two bytes can also start a character or be one, so where a
character starts is known only from the left. From there it is: no character is the front of another
one (`bytes_append_inj`), and bytes are spelled in one way only (`spell_injective`).

Whether an address is a plausible target is known from the text that stands there, which is what
lies between the address and the next zero byte (`isPlausibleTarget_eq`).
-/

set_option autoImplicit false

namespace NovelScript

namespace CodePage932

/-- A character. -/
inductive Character
  /-- A line break, or a byte of one of the ranges that stand for a character. -/
  | single (byte : UInt8)
    (alone : byte = 0x0A ∨ byte = 0x0D ∨ (0x20 ≤ byte ∧ byte ≤ 0x80) ∨ 0xFD ≤ byte)
  /-- A lead byte with a trail byte. -/
  | pair (lead trail : UInt8)
    (leads : (0x81 ≤ lead ∧ lead ≤ 0x9F) ∨ (0xE0 ≤ lead ∧ lead ≤ 0xFC))
    (trails : 0x40 ≤ trail ∧ trail ≤ 0xFC)

/-- The bytes that spell a character. -/
def Character.bytes : Character → Bytes
  | single byte _ => [byte]
  | pair lead trail _ _ => [lead, trail]

/-- The bytes of characters, one behind the other. -/
def spell (characters : List Character) : Bytes :=
  characters.flatMap Character.bytes

/-! ## Bytes by their ranges -/

/-- The bytes that lead a pair. -/
theorem isLead_eq_true_iff {b : UInt8} :
    isLead b = true ↔ (0x81 ≤ b ∧ b ≤ 0x9F) ∨ (0xE0 ≤ b ∧ b ≤ 0xFC) := by
  simp [isLead]

/-- The bytes that may follow a lead. -/
theorem isTrail_eq_true_iff {b : UInt8} : isTrail b = true ↔ 0x40 ≤ b ∧ b ≤ 0xFC := by
  simp [isTrail]

/-- The bytes that are not forbidden: line breaks and what is no control code, except from 0xA0 up
to 0xDF. -/
theorem isForbidden_eq_false_iff {b : UInt8} :
    isForbidden b = false ↔ (b = 0x0A ∨ b = 0x0D ∨ 0x20 ≤ b) ∧ (b < 0xA0 ∨ 0xE0 ≤ b) := by
  have high : ¬ (0xA0 ≤ b ∧ b < 0xE0) ↔ b < 0xA0 ∨ 0xE0 ≤ b := by
    rw [not_and_or, UInt8.not_le, UInt8.not_lt]
  have low : ¬ ((b < 0x20 ∧ b ≠ Bytes.cr) ∧ b ≠ Bytes.lf) ↔ b = 0x0A ∨ b = 0x0D ∨ 0x20 ≤ b := by
    rw [not_and_or, not_and_or, UInt8.not_lt, not_not, not_not, Bytes.cr, Bytes.lf]
    tauto
  rw [← high, ← low, ← not_or, ← Bool.not_eq_true]
  simp [isForbidden]

/-- A lead is not forbidden. -/
theorem isForbidden_of_isLead {b : UInt8} (leads : isLead b = true) : isForbidden b = false := by
  rw [isLead_eq_true_iff] at leads
  rw [isForbidden_eq_false_iff]
  simp only [UInt8.le_iff_toNat_le, UInt8.lt_iff_toNat_lt, UInt8.reduceToNat] at leads ⊢
  omega

/-- A byte that may start a character and is no lead byte is one by itself. -/
theorem alone_iff {b : UInt8} :
    (b = 0x0A ∨ b = 0x0D ∨ (0x20 ≤ b ∧ b ≤ 0x80) ∨ 0xFD ≤ b) ↔
      isForbidden b = false ∧ isLead b = false := by
  rw [isForbidden_eq_false_iff, ← Bool.not_eq_true, isLead_eq_true_iff]
  simp only [← UInt8.toNat_inj, UInt8.le_iff_toNat_le, UInt8.lt_iff_toNat_lt, UInt8.reduceToNat]
  omega

/-! ## Characters -/

/-- The scan takes off a character that stands in front. -/
theorem isSequence_bytes_append (character : Character) (rest : Bytes) :
    isSequence (character.bytes ++ rest) = isSequence rest := by
  cases character with
  | single byte alone =>
    obtain ⟨allowed, noLead⟩ := alone_iff.mp alone
    rw [Character.bytes, List.singleton_append, isSequence.eq_def]
    simp [allowed, noLead]
  | pair lead trail leads trails =>
    have leads := isLead_eq_true_iff.mpr leads
    have trails := isTrail_eq_true_iff.mpr trails
    simp [Character.bytes, isSequence, isForbidden_of_isLead leads, leads, trails]

/-- Characters in front of a text do not matter for whether it is a sequence. -/
theorem isSequence_spell_append (characters : List Character) (rest : Bytes) :
    isSequence (spell characters ++ rest) = isSequence rest := by
  induction characters with
  | nil => rfl
  | cons character characters ih =>
    rw [spell, List.flatMap_cons, List.append_assoc, isSequence_bytes_append]
    exact ih

/-- A sequence is spelled by characters. -/
theorem exists_spell_of_isSequence {bytes : Bytes} (accepted : isSequence bytes = true) :
    ∃ characters, spell characters = bytes := by
  fun_induction isSequence bytes with
  | case1 => exact ⟨[], rfl⟩
  | case2 => simp at accepted
  | case3 => simp at accepted
  | case4 lead allowed leads trail rest ih =>
    rw [Bool.and_eq_true] at accepted
    obtain ⟨characters, rfl⟩ := ih accepted.2
    exact ⟨.pair lead trail (isLead_eq_true_iff.mp leads) (isTrail_eq_true_iff.mp accepted.1) ::
      characters, rfl⟩
  | case5 byte rest allowed noLead ih =>
    obtain ⟨characters, rfl⟩ := ih accepted
    exact ⟨.single byte (alone_iff.mpr ⟨by simpa using allowed, by simpa using noLead⟩) ::
      characters, rfl⟩

/-- A byte string is a sequence exactly when characters spell it. -/
theorem isSequence_iff {bytes : Bytes} :
    isSequence bytes = true ↔ ∃ characters, spell characters = bytes := by
  constructor
  · exact exists_spell_of_isSequence
  · rintro ⟨characters, rfl⟩
    have scanned := isSequence_spell_append characters []
    rwa [List.append_nil] at scanned

/-- Every character is spelled by something. -/
theorem spell_eq_nil_iff {characters : List Character} : spell characters = [] ↔ characters = [] := by
  cases characters with
  | nil => simp [spell]
  | cons character characters => cases character <;> simp [spell, Character.bytes]

/-- A text is plausible if it is a sequence and not empty. -/
theorem isPlausible_eq_true_iff {bytes : Bytes} :
    isPlausible bytes = true ↔ bytes ≠ [] ∧ isSequence bytes = true := by
  simp [isPlausible]

/-- Bytes pass for text exactly if they are spelled with at least one character. -/
theorem isPlausible_iff {bytes : Bytes} :
    isPlausible bytes = true ↔ ∃ characters, characters ≠ [] ∧ spell characters = bytes := by
  rw [isPlausible_eq_true_iff, isSequence_iff]
  constructor
  · rintro ⟨nonempty, characters, rfl⟩
    exact ⟨characters, fun none => nonempty (spell_eq_nil_iff.mpr none), rfl⟩
  · rintro ⟨characters, some, rfl⟩
    exact ⟨fun none => some (spell_eq_nil_iff.mp none), characters, rfl⟩

/-- Behind bytes that pass for text, other bytes are scanned as if they stood alone. -/
theorem isPlausible_append {front : Bytes} (accepted : isPlausible front = true) (rest : Bytes) :
    isPlausible (front ++ rest) = isSequence rest := by
  obtain ⟨characters, some, rfl⟩ := isPlausible_iff.mp accepted
  rw [Bool.eq_iff_iff, isPlausible_eq_true_iff, isSequence_spell_append]
  refine and_iff_right fun none => ?_
  exact some (spell_eq_nil_iff.mp (List.append_eq_nil_iff.mp none).1)

/-! ## One spelling only -/

/-- No character is the front of another one. -/
theorem bytes_append_inj {first second : Character} {rest rest' : Bytes}
    (same : first.bytes ++ rest = second.bytes ++ rest') : first = second ∧ rest = rest' := by
  -- Two bytes against one would need a lead byte that is a character by itself.
  have noLead : ∀ {b : UInt8},
      (b = 0x0A ∨ b = 0x0D ∨ (0x20 ≤ b ∧ b ≤ 0x80) ∨ 0xFD ≤ b) →
      ¬ ((0x81 ≤ b ∧ b ≤ 0x9F) ∨ (0xE0 ≤ b ∧ b ≤ 0xFC)) := by
    intro b alone
    rw [← isLead_eq_true_iff, (alone_iff.mp alone).2]
    simp
  cases first with
  | single byte alone =>
    cases second with
    | single byte' alone' =>
      simp only [Character.bytes, List.cons_append, List.nil_append, List.cons.injEq] at same
      obtain ⟨rfl, rfl⟩ := same
      exact ⟨rfl, rfl⟩
    | pair lead trail leads trails =>
      obtain rfl : byte = lead := (List.cons.inj same).1
      exact absurd leads (noLead alone)
  | pair lead trail leads trails =>
    cases second with
    | single byte alone =>
      obtain rfl : lead = byte := (List.cons.inj same).1
      exact absurd leads (noLead alone)
    | pair lead' trail' leads' trails' =>
      simp only [Character.bytes, List.cons_append, List.nil_append, List.cons.injEq] at same
      obtain ⟨rfl, rfl, rfl⟩ := same
      exact ⟨rfl, rfl⟩

/-- No byte string is spelled by two lists of characters. -/
theorem spell_injective : Function.Injective spell := by
  intro characters others same
  induction characters generalizing others with
  | nil => exact (spell_eq_nil_iff.mp same.symm).symm
  | cons first characters ih =>
    cases others with
    | nil => exact spell_eq_nil_iff.mp same
    | cons second others =>
      obtain ⟨rfl, rest⟩ := bytes_append_inj same
      rw [ih rest]

end CodePage932

/-! ## The text at an address -/

open CodePage932

/-- Whether a text stands at an address: the bytes from there to the next zero byte, or to the end
of the data. -/
def TextAt (data : Bytes) (address : Nat) (text : Bytes) : Prop :=
  0 ∉ text ∧ ∃ rest, data.drop address = text ++ rest ∧ (rest = [] ∨ rest.head? = some 0)

/-- The text at an address is what stands there before the next zero. -/
theorem textAt_iff {data text : Bytes} {address : Nat} :
    TextAt data address text ↔ (data.drop address).takeWhile (· != 0) = text := by
  constructor
  · rintro ⟨zeroless, rest, spelled, ended⟩
    have nonzero : ∀ b ∈ text, (b != 0) = true := by
      intro b member
      rw [bne_iff_ne]
      rintro rfl
      exact zeroless member
    rw [spelled, List.takeWhile_append_of_pos nonzero]
    rcases ended with rfl | zero
    · simp
    · obtain ⟨more, rfl⟩ := List.head?_eq_some_iff.mp zero
      simp
  · rintro rfl
    refine ⟨fun member => ?_, _, List.takeWhile_append_dropWhile.symm, ?_⟩
    · simpa using List.mem_takeWhile_imp member
    · cases dropped : (data.drop address).dropWhile (· != 0) with
      | nil => exact .inl rfl
      | cons b rest =>
        have stopped := List.head?_dropWhile_not (· != 0) (data.drop address)
        rw [dropped] at stopped
        exact .inr (by simpa using stopped)

/-- Whether a text makes the address where it stands a plausible target. -/
def opensTarget (text : Bytes) : Bool :=
  match text with
  | [] => false
  | first :: _ =>
    first = instructionTag || first = terminatorTag ||
      (targetTextFloor < first && isPlausible text)

/-- Whether an address is a plausible target is settled by the text that stands there. -/
theorem isPlausibleTarget_eq {data text : Bytes} {address : Nat} (stands : TextAt data address text) :
    isPlausibleTarget data address = opensTarget text := by
  obtain rfl := textAt_iff.mp stands
  unfold isPlausibleTarget
  cases data.drop address with
  | nil => rfl
  | cons first rest =>
    by_cases zero : first = 0
    · -- No text stands at a zero byte, and a zero byte is no tag and not above the floor.
      subst zero
      rfl
    · have taken : (first :: rest).takeWhile (· != 0) = first :: rest.takeWhile (· != 0) := by
        simp [zero]
      simp only [taken, opensTarget]
      by_cases tagged : (first = instructionTag || first = terminatorTag) = true
      · simp [tagged]
      · by_cases low : first ≤ targetTextFloor
        · simp [tagged, low, UInt8.not_lt.mpr low]
        · simp [tagged, low, UInt8.not_le.mp low]

/-- A text opens a target if it begins with a tag, or if it begins above 0x80 and is plausible. -/
theorem opensTarget_eq_true_iff {text : Bytes} :
    opensTarget text = true ↔ ∃ first, text.head? = some first ∧
      (first = 0x1A ∨ first = 0x1B ∨ 0x80 < first ∧ isPlausible text = true) := by
  cases text with
  | nil => simp [opensTarget]
  | cons first rest =>
    simp only [opensTarget, Bool.or_eq_true, Bool.and_eq_true, decide_eq_true_eq,
      List.head?_cons, Option.some.injEq, exists_eq_left', or_assoc]
    exact or_left_comm

/-- The first byte of the text at an address is the byte there, unless that is a zero byte. -/
theorem TextAt.head? {data text : Bytes} {address : Nat} (stands : TextAt data address text)
    {first : UInt8} (nonzero : first ≠ 0) :
    text.head? = some first ↔ data[address]? = some first := by
  obtain ⟨zeroless, rest, spelled, ended⟩ := stands
  rw [← List.head?_drop, spelled]
  cases text with
  | nil =>
    rcases ended with rfl | zero
    · simp
    · simp [zero, nonzero.symm]
  | cons b text => simp

/-- An address is a plausible target if a tag stands there, or a text that begins above 0x80 and is
spelled by characters. -/
theorem isPlausibleTarget_iff {data : Bytes} {address : Nat} :
    isPlausibleTarget data address = true ↔
      ∃ first, data[address]? = some first ∧
        (first = 0x1A ∨ first = 0x1B ∨ 0x80 < first ∧
          ∃ characters, characters ≠ [] ∧ TextAt data address (spell characters)) := by
  obtain ⟨text, stands⟩ : ∃ text, TextAt data address text := ⟨_, textAt_iff.mpr rfl⟩
  have accepted : isPlausible text = true ↔
      ∃ characters, characters ≠ [] ∧ TextAt data address (spell characters) := by
    rw [isPlausible_iff]
    refine exists_congr fun characters => and_congr_right fun _ => ?_
    rw [textAt_iff, textAt_iff.mp stands, eq_comm]
  rw [isPlausibleTarget_eq stands, opensTarget_eq_true_iff, ← accepted]
  refine exists_congr fun first => and_congr_left fun found => stands.head? ?_
  rintro rfl
  rcases found with tag | tag | ⟨high, -⟩
  · exact absurd tag (by decide)
  · exact absurd tag (by decide)
  · exact absurd high (by decide)

/-- A plausible target is inside the script. -/
theorem lt_length_of_isPlausibleTarget {data : Bytes} {address : Nat}
    (likely : isPlausibleTarget data address = true) : address < data.length := by
  obtain ⟨first, found, -⟩ := isPlausibleTarget_iff.mp likely
  exact (List.getElem?_eq_some_iff.mp found).1

/-- Bytes pass for text exactly if they are characters, at least one, and no other characters are
the same bytes. So text behind text is text, and what is left of a text behind another one is text.
An address is a plausible target exactly if the tag of a unit stands there, or a text with a first
byte above the floor, and it is so wherever else that text stands. -/
theorem plausibility_by_characters :
    (∀ bytes, isPlausible bytes = true ↔
      ∃ characters, characters ≠ [] ∧ spell characters = bytes) ∧
      Function.Injective spell ∧
      (∀ front rest, isPlausible front = true → isPlausible rest = true →
        isPlausible (front ++ rest) = true) ∧
      (∀ front rest, rest ≠ [] → isPlausible front = true → isPlausible (front ++ rest) = true →
        isPlausible rest = true) ∧
      (∀ data address, isPlausibleTarget data address = true ↔
        ∃ first, data[address]? = some first ∧
          (first = 0x1A ∨ first = 0x1B ∨ 0x80 < first ∧
            ∃ characters, characters ≠ [] ∧ TextAt data address (spell characters))) ∧
      ∀ data address text other place, TextAt data address text → TextAt other place text →
        isPlausibleTarget data address = isPlausibleTarget other place := by
  refine ⟨fun bytes => isPlausible_iff, spell_injective, ?_, ?_,
    fun data address => isPlausibleTarget_iff, ?_⟩
  · intro front rest accepted behind
    rw [isPlausible_append accepted]
    exact (isPlausible_eq_true_iff.mp behind).2
  · intro front rest nonempty accepted whole
    rw [isPlausible_append accepted] at whole
    exact isPlausible_eq_true_iff.mpr ⟨nonempty, whole⟩
  · intro data address text other place stands otherStands
    rw [isPlausibleTarget_eq stands, isPlausibleTarget_eq otherStands]

/-- A character whose trail byte could not start one. It is followed by a zero byte and a tag in one
place and stands alone in another, and both places are plausible. -/
theorem plausibility_by_characters_up_to_zero :
    (isPlausible [0x82, 0xA0] = true ∧ isPlausible [0x82, 0xA0, 0xFD] = true ∧
        isPlausible [0xFD] = true) ∧
      TextAt [0x1A, 0x82, 0xA0, 0, 0x1B] 1 [0x82, 0xA0] ∧ TextAt [0x82, 0xA0] 0 [0x82, 0xA0] ∧
      isPlausibleTarget [0x82, 0xA0] 0 = true ∧
      isPlausibleTarget [0x1A, 0x82, 0xA0, 0, 0x1B] 1 = isPlausibleTarget [0x82, 0xA0] 0 := by
  obtain ⟨-, -, -, behind, target, elsewhere⟩ := plausibility_by_characters
  have inside : TextAt [0x1A, 0x82, 0xA0, 0, 0x1B] 1 [0x82, 0xA0] := textAt_iff.mpr rfl
  have alone : TextAt [0x82, 0xA0] 0 [0x82, 0xA0] := textAt_iff.mpr rfl
  have spelled : ∃ characters, characters ≠ [] ∧ TextAt [0x82, 0xA0] 0 (spell characters) :=
    ⟨[.pair 0x82 0xA0 (by decide) (by decide)], by simp, alone⟩
  exact ⟨⟨rfl, rfl, behind [0x82, 0xA0] [0xFD] (by decide) rfl rfl⟩, inside, alone,
    (target _ _).mpr ⟨0x82, rfl, .inr (.inr ⟨by decide, spelled⟩)⟩,
    elsewhere _ _ _ _ _ inside alone⟩

end NovelScript
