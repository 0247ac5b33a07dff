import Mathlib.Data.List.Pairwise
import NovelScript.Ledger

/-!
# Sums over a ledger

A ledger answers how far an address has moved by a sum over the texts that start strictly before it.
In a ledger whose texts are in address order that is a sum over a filter (`deltaBefore_eq`), and so
is the distance that counts a text as soon as it has ended (`Ledger.deltaPast`).

The two distances differ at an address inside an old text, which only the first one counts, and at
an address where an empty text stood, which only the second one counts (`deltaPast_add_inside`).
Everywhere else they agree.
-/

set_option autoImplicit false

namespace NovelScript

namespace Sentence

/-- The address one past the old text. -/
def finish (sentence : Sentence) : Nat :=
  sentence.address + sentence.oldLength

/-- Whether an address lies strictly inside the old text, behind its first byte. -/
def isInside (address : Nat) (sentence : Sentence) : Bool :=
  sentence.address < address && address < sentence.finish

/-- Whether the old text is empty and stands at an address. -/
def isEmptyAt (address : Nat) (sentence : Sentence) : Bool :=
  sentence.address = address && sentence.oldLength = 0

/-- An address is inside a text if the text starts before it and ends behind it. -/
theorem isInside_eq_true_iff {address : Nat} {sentence : Sentence} :
    sentence.isInside address = true ↔ sentence.address < address ∧ address < sentence.finish := by
  simp [isInside]

/-- The differences of two lists of records add up. -/
theorem deltas_append (left right : List Sentence) :
    deltas (left ++ right) = deltas left + deltas right := by
  induction left with
  | nil => simp [deltas]
  | cons sentence left ih =>
    rw [List.cons_append, deltas, deltas, ih]
    omega

/-- Texts that keep their length move nothing. -/
theorem deltas_eq_zero {sentences : List Sentence} (h : ∀ s ∈ sentences, s.delta = 0) :
    deltas sentences = 0 := by
  induction sentences with
  | nil => rfl
  | cons sentence sentences ih =>
    rw [deltas, h sentence (by simp), ih fun s hs => h s (by simp [hs])]
    rfl

/-- If no text gets longer and one gets shorter, the sum is negative. -/
theorem deltas_neg {sentences : List Sentence} (notLonger : ∀ s ∈ sentences, s.delta ≤ 0)
    (shorter : ∃ s ∈ sentences, s.delta < 0) : deltas sentences < 0 := by
  have notPositive : ∀ list : List Sentence, (∀ s ∈ list, s.delta ≤ 0) → deltas list ≤ 0 := by
    intro list
    induction list with
    | nil => simp [deltas]
    | cons s list ih =>
      intro h
      have hs := h s (by simp)
      have hlist := ih fun t ht => h t (by simp [ht])
      rw [deltas]
      omega
  obtain ⟨s, member, hs⟩ := shorter
  obtain ⟨front, back, rfl⟩ := List.append_of_mem member
  have hfront := notPositive front fun t ht => notLonger t (by simp [ht])
  have hback := notPositive back fun t ht => notLonger t (by simp [ht])
  rw [deltas_append, deltas]
  omega

/-- Two pairs of conditions that hold equally often of every text select the same sum. -/
theorem deltas_filter_add_congr {p q p' q' : Sentence → Bool} {sentences : List Sentence}
    (h : ∀ s ∈ sentences, (p s).toNat + (q s).toNat = (p' s).toNat + (q' s).toNat) :
    deltas (sentences.filter p) + deltas (sentences.filter q) =
      deltas (sentences.filter p') + deltas (sentences.filter q') := by
  induction sentences with
  | nil => rfl
  | cons s sentences ih =>
    have hs := h s (by simp)
    have htail := ih fun t ht => h t (by simp [ht])
    cases hp : p s <;> cases hq : q s <;> cases hp' : p' s <;> cases hq' : q' s <;>
      simp only [hp, hq, hp', hq', Bool.toNat_true, Bool.toNat_false] at hs <;>
      simp only [List.filter_cons, hp, hq, hp', hq', if_true, Bool.false_eq_true, if_false,
        deltas] <;>
      omega

/-- Texts that have ended and texts that are under way are those that have started, and empty ones
at the address itself. -/
theorem deltas_filter_finish_le (sentences : List Sentence) (address : Nat) :
    deltas (sentences.filter fun s => s.finish ≤ address) +
        deltas (sentences.filter (isInside address)) =
      deltas (sentences.filter fun s => s.address < address) +
        deltas (sentences.filter (isEmptyAt address)) := by
  apply deltas_filter_add_congr
  intro s _
  rcases Nat.lt_trichotomy s.address address with before | same | behind
  · have notSame : s.address ≠ address := by omega
    by_cases ended : s.finish ≤ address
    · have notInside : ¬ address < s.finish := by omega
      simp [isInside, isEmptyAt, before, ended, notInside, notSame]
    · have inside : address < s.finish := by omega
      simp [isInside, isEmptyAt, before, inside, notSame]
  · by_cases empty : s.oldLength = 0
    · simp [isInside, isEmptyAt, finish, same, empty]
    · have notEnded : ¬ s.finish ≤ address := by
        rw [finish]
        omega
      simp [isInside, isEmptyAt, same, empty, notEnded]
  · have notBefore : ¬ s.address < address := by omega
    have notSame : s.address ≠ address := by omega
    have notEnded : ¬ s.finish ≤ address := by
      rw [finish]
      omega
    simp [isInside, isEmptyAt, notBefore, notSame, notEnded]

end Sentence

namespace Ledger

/-- Whether the texts of a ledger are in address order, at most one for each address. -/
def Sorted (ledger : Ledger) : Prop :=
  ledger.sentences.Pairwise fun s t => s.address < t.address

/-- How far an address has moved when a text counts as soon as it has ended. -/
def deltaPast (ledger : Ledger) (address : Nat) : Int :=
  Sentence.deltas (ledger.sentences.filter fun s => s.finish ≤ address)

/-- A record behind all others goes to the end. -/
theorem insert_of_forall_lt {sentence : Sentence} {sentences : List Sentence}
    (behind : ∀ s ∈ sentences, s.address < sentence.address) :
    insert sentence sentences = sentences ++ [sentence] := by
  induction sentences with
  | nil => rfl
  | cons first rest ih =>
    have hfirst := behind first (by simp)
    have notBefore : ¬ sentence.address < first.address := by omega
    have notSame : ¬ sentence.address = first.address := by omega
    rw [insert, if_neg notBefore, if_neg notSame, ih fun s hs => behind s (by simp [hs])]
    rfl

variable {ledger : Ledger}

/-- In address order, the texts that start before an address come first. -/
theorem deltaBefore_eq (sorted : ledger.Sorted) (address : Nat) :
    ledger.deltaBefore address =
      Sentence.deltas (ledger.sentences.filter fun s => s.address < address) := by
  obtain ⟨sentences⟩ := ledger
  simp only [deltaBefore, Sorted] at sorted ⊢
  congr 1
  induction sentences with
  | nil => rfl
  | cons first rest ih =>
    obtain ⟨hfirst, hrest⟩ := List.pairwise_cons.mp sorted
    by_cases before : first.address < address
    · simp [before, ih hrest]
    · -- The rest starts even later, so the filter takes nothing of it.
      have none : rest.filter (fun s => s.address < address) = [] := by
        rw [List.filter_eq_nil_iff]
        intro s hs
        have := hfirst s hs
        simp only [decide_eq_true_eq]
        omega
      simp [before, none]

/-- No text starts before the first address, so that one stays. -/
theorem deltaBefore_zero (ledger : Ledger) : ledger.deltaBefore 0 = 0 := by
  obtain ⟨sentences⟩ := ledger
  cases sentences with
  | nil => rfl
  | cons first rest => simp [deltaBefore, Sentence.deltas]

/-- The two distances differ by the texts that an address lies inside of, and by an empty text that
stands there. -/
theorem deltaPast_add_inside (sorted : ledger.Sorted) (address : Nat) :
    ledger.deltaPast address + Sentence.deltas (ledger.sentences.filter (·.isInside address)) =
      ledger.deltaBefore address +
        Sentence.deltas (ledger.sentences.filter (·.isEmptyAt address)) := by
  rw [deltaBefore_eq sorted, deltaPast]
  exact Sentence.deltas_filter_finish_le ledger.sentences address

/-- Outside all texts, those that have ended are those that have started, unless an empty one stands
right there. -/
theorem deltaPast_eq_deltaBefore (sorted : ledger.Sorted) {address : Nat}
    (outside : ∀ s ∈ ledger.sentences, s.isInside address = false)
    (nonempty : ∀ s ∈ ledger.sentences, s.isEmptyAt address = false) :
    ledger.deltaPast address = ledger.deltaBefore address := by
  have h := deltaPast_add_inside sorted address
  have hin : ledger.sentences.filter (·.isInside address) = [] := by
    simpa [List.filter_eq_nil_iff] using outside
  have hempty : ledger.sentences.filter (·.isEmptyAt address) = [] := by
    simpa [List.filter_eq_nil_iff] using nonempty
  simpa [hin, hempty, Sentence.deltas] using h

/-- At an address inside no old text where an empty one stood, the two distances differ by the
length of what replaced it. -/
theorem deltaPast_of_isEmptyAt (sorted : ledger.Sorted) {address : Nat} {sentence : Sentence}
    (outside : ∀ s ∈ ledger.sentences, s.isInside address = false)
    (recorded : sentence ∈ ledger.sentences) (empty : sentence.isEmptyAt address = true) :
    ledger.deltaPast address = ledger.deltaBefore address + sentence.newLength := by
  have h := deltaPast_add_inside sorted address
  have hin : ledger.sentences.filter (·.isInside address) = [] := by
    simpa [List.filter_eq_nil_iff] using outside
  simp only [Sentence.isEmptyAt, Bool.and_eq_true, decide_eq_true_eq] at empty
  obtain ⟨same, empty⟩ := empty
  -- In address order no other text stands at the same address.
  have hempty : ledger.sentences.filter (·.isEmptyAt address) = [sentence] := by
    obtain ⟨front, back, split⟩ := List.append_of_mem recorded
    rw [Sorted, split, List.pairwise_append, List.pairwise_cons] at sorted
    obtain ⟨-, ⟨hback, -⟩, hfront⟩ := sorted
    have none : ∀ s : Sentence, s.address ≠ address → s.isEmptyAt address = false := by
      intro s different
      simp [Sentence.isEmptyAt, different]
    have only : sentence.isEmptyAt address = true := by simp [Sentence.isEmptyAt, same, empty]
    have nofront : front.filter (·.isEmptyAt address) = [] := by
      rw [List.filter_eq_nil_iff]
      intro s hs
      have := hfront s hs sentence (by simp)
      simp [none s (by omega)]
    have noback : back.filter (·.isEmptyAt address) = [] := by
      rw [List.filter_eq_nil_iff]
      intro s hs
      have := hback s hs
      simp [none s (by omega)]
    simp [split, nofront, noback, only]
  simp only [hin, hempty, Sentence.deltas, Sentence.delta] at h
  omega

end Ledger

end NovelScript
