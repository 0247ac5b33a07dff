import Mathlib.Algebra.BigOperators.Group.List.Basic
import Mathlib.Algebra.Ring.Int.Defs
import Mathlib.Data.Finset.Card
import Mathlib.Data.List.TakeWhile
import NovelScript.Proofs.Ledger

/-!
# What a run of records leaves in a ledger

Records may come in any order, and more than one of them at an address. A record keeps a ledger in
address order and takes the place of an earlier one at its address (`sorted_record`,
`mem_record_iff`). So after any run of records the ledger holds, for each address, the last record
made there and nothing else (`mem_ofRecords_iff`).

In address order a ledger is known by its members alone (`eq_of_mem_iff`). Records at different
addresses therefore lead to the same ledger in any order.
-/

set_option autoImplicit false

namespace NovelScript

/-- Whether a text is in a list of records and no record behind it is made at the same address. -/
def Sentence.IsLastOf (records : List Sentence) (sentence : Sentence) : Prop :=
  ∃ earlier later, records = earlier ++ sentence :: later ∧
    ∀ other ∈ later, other.address ≠ sentence.address

namespace Sentence

/-- The sum of the differences, in terms of the lengths. -/
theorem deltas_eq_sum (sentences : List Sentence) :
    deltas sentences = (sentences.map fun s => (s.newLength : Int) - s.oldLength).sum := by
  induction sentences with
  | nil => rfl
  | cons s sentences ih => rw [deltas, delta, ih, List.map_cons, List.sum_cons]

/-- A new record is the last one at its address, and changes nothing for the other addresses. -/
theorem isLastOf_concat_iff {records : List Sentence} {s t : Sentence} :
    t.IsLastOf (records ++ [s]) ↔ t = s ∨ t.IsLastOf records ∧ t.address ≠ s.address := by
  constructor
  · rintro ⟨earlier, later, split, last⟩
    rcases later.eq_nil_or_concat' with rfl | ⟨later, newest, rfl⟩
    · have same := List.append_inj_right' split rfl
      exact .inl (List.singleton_inj.mp same).symm
    · rw [← List.cons_append, ← List.append_assoc] at split
      obtain ⟨front, same⟩ := List.append_inj' split rfl
      obtain rfl := List.singleton_inj.mp same
      refine .inr ⟨⟨earlier, later, front, ?_⟩, ?_⟩
      · intro other member
        exact last other (List.mem_append_left _ member)
      · exact (last s (by simp)).symm
  · rintro (rfl | ⟨⟨earlier, later, rfl, last⟩, differs⟩)
    · exact ⟨records, [], rfl, by simp⟩
    · refine ⟨earlier, later ++ [s], by simp, ?_⟩
      intro other member
      rcases List.mem_append.mp member with member | member
      · exact last other member
      · rw [List.mem_singleton.mp member]
        exact differs.symm

/-- The last record of an address is one of the records. -/
theorem IsLastOf.mem {records : List Sentence} {s : Sentence} (last : s.IsLastOf records) :
    s ∈ records := by
  obtain ⟨earlier, later, rfl, -⟩ := last
  simp

/-- Every address that has a record has a last one. -/
theorem exists_isLastOf {records : List Sentence} {s : Sentence} (member : s ∈ records) :
    ∃ t : Sentence, t.IsLastOf records ∧ t.address = s.address := by
  induction records using List.reverseRecOn with
  | nil => simp at member
  | append_singleton records newest ih =>
    by_cases same : newest.address = s.address
    · exact ⟨newest, isLastOf_concat_iff.mpr (.inl rfl), same⟩
    · rcases List.mem_append.mp member with member | member
      · obtain ⟨t, last, found⟩ := ih member
        exact ⟨t, isLastOf_concat_iff.mpr (.inr ⟨last, found ▸ Ne.symm same⟩), found⟩
      · rw [List.mem_singleton.mp member] at same
        exact absurd rfl same

/-- If all addresses are different, every record is the last one of its address. -/
theorem isLastOf_iff_mem {records : List Sentence} (distinct : (records.map address).Nodup)
    {s : Sentence} : s.IsLastOf records ↔ s ∈ records := by
  refine ⟨IsLastOf.mem, fun member => ?_⟩
  obtain ⟨t, last, same⟩ := exists_isLastOf member
  rwa [List.inj_on_of_nodup_map distinct last.mem member same] at last

end Sentence

namespace Ledger

/-- The ledger that records lead to which are made one after the other, on an empty ledger. -/
def ofRecords (records : List Sentence) : Ledger :=
  records.foldl record .empty

/-- A ledger of some records takes in one more. -/
theorem ofRecords_concat (records : List Sentence) (s : Sentence) :
    ofRecords (records ++ [s]) = (ofRecords records).record s :=
  List.foldl_concat record .empty s records

/-! ## One record -/

variable {ledger : Ledger}

/-- A new record takes the place of an earlier one at its address and leaves the others. -/
theorem mem_record_iff (sorted : ledger.Sorted) {s t : Sentence} :
    t ∈ (ledger.record s).sentences ↔ t = s ∨ t ∈ ledger.sentences ∧ t.address ≠ s.address := by
  obtain ⟨sentences⟩ := ledger
  simp only [record, Sorted] at sorted ⊢
  induction sentences with
  | nil => simp [insert]
  | cons first rest ih =>
    obtain ⟨hfirst, hrest⟩ := List.pairwise_cons.mp sorted
    rw [insert]
    split
    case isTrue before =>
      -- The new record stands in front of all others, so none of them is at its address.
      have differs : ∀ u ∈ first :: rest, u.address ≠ s.address := by
        rw [List.forall_mem_cons]
        refine ⟨by omega, fun u hu => ?_⟩
        have := hfirst u hu
        omega
      rw [List.mem_cons]
      exact or_congr_right ⟨fun member => ⟨member, differs t member⟩, And.left⟩
    case isFalse notBefore =>
      split
      case isTrue same =>
        -- The first text gives way; those behind it are at later addresses.
        have differs : ∀ u ∈ rest, u.address ≠ s.address := by
          intro u hu
          have := hfirst u hu
          omega
        rw [List.mem_cons, List.mem_cons]
        refine or_congr_right ⟨fun member => ⟨.inr member, differs t member⟩, ?_⟩
        rintro ⟨rfl | member, other⟩
        · exact absurd same.symm other
        · exact member
      case isFalse notSame =>
        rw [List.mem_cons, ih hrest, List.mem_cons]
        constructor
        · rintro (rfl | rfl | ⟨member, differs⟩)
          · exact .inr ⟨.inl rfl, Ne.symm notSame⟩
          · exact .inl rfl
          · exact .inr ⟨.inr member, differs⟩
        · rintro (rfl | ⟨rfl | member, differs⟩)
          · exact .inr (.inl rfl)
          · exact .inl rfl
          · exact .inr (.inr ⟨member, differs⟩)

/-- A ledger stays sorted when a record is taken in, wherever that belongs. -/
theorem sorted_record (sorted : ledger.Sorted) (s : Sentence) : (ledger.record s).Sorted := by
  obtain ⟨sentences⟩ := ledger
  induction sentences with
  | nil => exact List.pairwise_singleton _ s
  | cons first rest ih =>
    simp only [record, Sorted] at sorted ih ⊢
    obtain ⟨hfirst, hrest⟩ := List.pairwise_cons.mp sorted
    rw [insert]
    split
    case isTrue before =>
      refine List.pairwise_cons.mpr ⟨List.forall_mem_cons.mpr ⟨before, ?_⟩, sorted⟩
      intro t ht
      exact Nat.lt_trans before (hfirst t ht)
    case isFalse notBefore =>
      split
      case isTrue same =>
        refine List.pairwise_cons.mpr ⟨?_, hrest⟩
        intro t ht
        rw [same]
        exact hfirst t ht
      case isFalse notSame =>
        refine List.pairwise_cons.mpr ⟨?_, ih hrest⟩
        intro t ht
        have tail : Sorted ⟨rest⟩ := hrest
        rcases (mem_record_iff tail).mp ht with rfl | ⟨member, -⟩
        · omega
        · exact hfirst t member

/-! ## A run of records -/

/-- A ledger is sorted, in whatever order its records came. -/
theorem sorted_ofRecords (records : List Sentence) : (ofRecords records).Sorted := by
  induction records using List.reverseRecOn with
  | nil => exact List.Pairwise.nil
  | append_singleton records s ih =>
    rw [ofRecords_concat]
    exact sorted_record ih s

/-- A ledger holds the last record of each address. -/
theorem mem_ofRecords_iff {records : List Sentence} {t : Sentence} :
    t ∈ (ofRecords records).sentences ↔ t.IsLastOf records := by
  induction records using List.reverseRecOn with
  | nil => simp [ofRecords, empty, Sentence.IsLastOf]
  | append_singleton records s ih =>
    rw [ofRecords_concat, mem_record_iff (sorted_ofRecords records), ih,
      Sentence.isLastOf_concat_iff]

/-- Two ledgers in address order with the same members are equal. -/
theorem eq_of_mem_iff {other : Ledger} (sorted : ledger.Sorted) (otherSorted : other.Sorted)
    (same : ∀ s, s ∈ ledger.sentences ↔ s ∈ other.sentences) : ledger = other := by
  obtain ⟨sentences⟩ := ledger
  obtain ⟨others⟩ := other
  have nodup : ∀ {list : List Sentence}, (list.Pairwise fun s t => s.address < t.address) →
      list.Nodup := by
    intro list increasing
    refine increasing.imp ?_
    rintro s t before rfl
    exact Nat.lt_irrefl _ before
  have permuted : sentences.Perm others :=
    (List.perm_ext_iff_of_nodup (nodup sorted) (nodup otherSorted)).mpr same
  congr 1
  refine permuted.eq_of_pairwise ?_ sorted otherSorted
  intro s t _ _ before behind
  exact absurd behind (Nat.lt_asymm before)

/-- A sorted ledger has one record for each address. -/
theorem nodup_map_address (sorted : ledger.Sorted) :
    (ledger.sentences.map Sentence.address).Nodup :=
  List.Pairwise.map _ (fun _ _ => Nat.ne_of_lt) sorted

/-- A ledger has as many records as there are addresses. -/
theorem size_ofRecords (records : List Sentence) :
    (ofRecords records).size = (records.map Sentence.address).toFinset.card := by
  have addresses : ((ofRecords records).sentences.map Sentence.address).toFinset =
      (records.map Sentence.address).toFinset := by
    ext address
    simp only [List.mem_toFinset, List.mem_map, mem_ofRecords_iff]
    constructor
    · rintro ⟨s, last, rfl⟩
      exact ⟨s, last.mem, rfl⟩
    · rintro ⟨s, member, rfl⟩
      exact Sentence.exists_isLastOf member
  rw [← addresses, List.toFinset_card_of_nodup (nodup_map_address (sorted_ofRecords records)),
    List.length_map, size]

/-- Between two addresses the distance grows by the texts that start there. -/
theorem deltaBefore_sub (sorted : ledger.Sorted) {low high : Nat} (le : low ≤ high) :
    ledger.deltaBefore high - ledger.deltaBefore low =
      Sentence.deltas (ledger.sentences.filter fun s => low ≤ s.address ∧ s.address < high) := by
  have parted : Sentence.deltas (ledger.sentences.filter fun s => s.address < low) +
      Sentence.deltas (ledger.sentences.filter fun s => low ≤ s.address ∧ s.address < high) =
      Sentence.deltas (ledger.sentences.filter fun s => s.address < high) +
        Sentence.deltas (ledger.sentences.filter fun _ => false) := by
    apply Sentence.deltas_filter_add_congr
    intro s _
    by_cases before : s.address < low
    · have reached : s.address < high := by omega
      have notBehind : ¬ low ≤ s.address := by omega
      simp [before, reached, notBehind]
    · have behind : low ≤ s.address := by omega
      simp [before, behind]
  rw [List.filter_false, Sentence.deltas] at parted
  rw [deltaBefore_eq sorted, deltaBefore_eq sorted]
  omega

/-- An address behind the starts of all texts has moved by all of them. -/
theorem deltaBefore_eq_totalDelta {address : Nat}
    (above : ∀ s ∈ ledger.sentences, s.address < address) :
    ledger.deltaBefore address = ledger.totalDelta := by
  have all : ledger.sentences.takeWhile (fun s => s.address < address) = ledger.sentences := by
    rw [List.takeWhile_eq_self_iff]
    simpa using above
  rw [deltaBefore, all, totalDelta]

/-- What a ledger holds and answers after a run of records. -/
structure Keeps (records : List Sentence) (ledger : Ledger) : Prop where
  /-- The texts are in strictly increasing address order. -/
  increasing : ledger.sentences.Pairwise fun s t => s.address < t.address
  /-- They are the last records made at their addresses. -/
  latest : ∀ s, s ∈ ledger.sentences ↔ s.IsLastOf records
  /-- Each address at which a record was made has exactly one of them. -/
  single : ∀ r ∈ records, ∃! s, s ∈ ledger.sentences ∧ s.address = r.address
  /-- There are as many as there are different addresses. -/
  size : ledger.size = (records.map Sentence.address).toFinset.card
  /-- An address moves by the texts that start strictly before it. -/
  before : ∀ address, ledger.deltaBefore address =
    ((ledger.sentences.filter fun s => s.address < address).map
      fun s => (s.newLength : Int) - s.oldLength).sum
  /-- Two addresses move apart by the texts that start from the lower one on, before the other. -/
  between : ∀ low high, low ≤ high → ledger.deltaBefore high - ledger.deltaBefore low =
    ((ledger.sentences.filter fun s => low ≤ s.address ∧ s.address < high).map
      fun s => (s.newLength : Int) - s.oldLength).sum
  /-- An address above all others moves as far as the end. -/
  above : ∀ address, (∀ r ∈ records, r.address < address) →
    ledger.deltaBefore address = ledger.totalDelta
  /-- The order of records at different addresses does not matter. -/
  anyOrder : ∀ others, others.Perm records → (records.map Sentence.address).Nodup →
    ofRecords others = ledger

/-- Whatever is recorded, in whatever order, the ledger holds the last record at each address. -/
theorem keeps_ofRecords (records : List Sentence) : Keeps records (ofRecords records) := by
  have sorted := sorted_ofRecords records
  constructor
  case increasing => exact sorted
  case latest => exact fun s => mem_ofRecords_iff
  case single =>
    intro r member
    obtain ⟨s, last, same⟩ := Sentence.exists_isLastOf member
    have held : s ∈ (ofRecords records).sentences := mem_ofRecords_iff.mpr last
    refine ⟨s, ⟨held, same⟩, ?_⟩
    rintro t ⟨found, samePlace⟩
    exact List.inj_on_of_nodup_map (nodup_map_address sorted) found held
      (samePlace.trans same.symm)
  case size => exact size_ofRecords records
  case before =>
    intro address
    rw [deltaBefore_eq sorted, Sentence.deltas_eq_sum]
  case between =>
    intro low high le
    rw [deltaBefore_sub sorted le, Sentence.deltas_eq_sum]
  case above =>
    intro address above
    apply deltaBefore_eq_totalDelta
    intro s held
    exact above s (mem_ofRecords_iff.mp held).mem
  case anyOrder =>
    intro others permuted distinct
    have otherDistinct : (others.map Sentence.address).Nodup :=
      (permuted.map Sentence.address).nodup_iff.mpr distinct
    apply eq_of_mem_iff (sorted_ofRecords others) sorted
    intro s
    rw [mem_ofRecords_iff, mem_ofRecords_iff, Sentence.isLastOf_iff_mem distinct,
      Sentence.isLastOf_iff_mem otherDistinct, permuted.mem_iff]

/-- Three records, the last of which corrects the first: two texts are held, in address order, and
the text at an address does not move that address itself. -/
theorem keeps_ofRecords_corrected :
    ∃ ledger, Keeps [⟨30, 8, 8⟩, ⟨10, 4, 7⟩, ⟨30, 8, 2⟩] ledger ∧
      ledger.sentences = [⟨10, 4, 7⟩, ⟨30, 8, 2⟩] ∧ ledger.size = 2 ∧
      ledger.deltaBefore 30 = 3 ∧ ledger.deltaBefore 31 = -3 ∧
      ofRecords [⟨30, 8, 2⟩, ⟨10, 4, 7⟩] = ledger := by
  have kept := keeps_ofRecords [⟨30, 8, 8⟩, ⟨10, 4, 7⟩, ⟨30, 8, 2⟩]
  have top := kept.above 31 (by decide)
  have fresh := keeps_ofRecords [⟨10, 4, 7⟩, ⟨30, 8, 2⟩]
  have swapped := fresh.anyOrder [⟨30, 8, 2⟩, ⟨10, 4, 7⟩] (.swap _ _ _) (by decide)
  exact ⟨_, kept, rfl, kept.size.trans (by decide), kept.before 30, top.trans (by decide), swapped⟩

end Ledger

end NovelScript
