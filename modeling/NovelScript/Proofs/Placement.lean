import NovelScript.Inject.Relocation
import NovelScript.Jump.Hint
import NovelScript.Proofs.Ledger
import NovelScript.Proofs.TextUnit
import NovelScript.Proofs.Tiling

/-!
# Where the events of a script go

Replacing the texts of a script turns each of its events into another one, which stands at another
address. A placement holds both events and both addresses. The placements of a script tile the old
script and the new one at once (`tiles_source`, `tiles_target`), and the ledger and the jump sites
of a substitution are read off them one by one.

The main statement is that the ledger knows where everything went: an address inside an event has
moved as far as the event (`deltaPast_eq_of_mem`).
-/

set_option autoImplicit false

namespace NovelScript

/-- An event of an old script, the event that stands for it in the new one, and where both start. -/
structure Placement where
  /-- The address of the old event. -/
  source : Nat
  /-- The address of the new event. -/
  target : Nat
  /-- The old event. -/
  old : Event
  /-- The event with its new text. -/
  new : Event

/-- Places events from given addresses on, with texts in place of their own. -/
def placements : (source target : Nat) → List Event → List Bytes → List Placement
  | _, _, [], _ => []
  | source, target, event :: events, texts =>
    let new := event.retext texts
    { source, target, old := event, new } ::
      placements (source + event.bytes.length) (target + new.bytes.length) events
        (texts.drop event.textUnit?.toList.length)

/-- The word of a plain 32-bit operand that reads as the address of a plausible target. -/
def Operand.enrolled? (data : Bytes) (operand : Operand) : Option (BitVec 32) :=
  match operand.value with
  | .int32 word => if (NovelScript.absoluteTarget? data word).isSome then some word else none
  | _ => none

/-- The word of an event that has to be relocated. -/
def Event.enrolled? (data : Bytes) : Event → Option (BitVec 32)
  | operand _ _ o => o.enrolled? data
  | _ => none

namespace Placement

/-- The address one past the old event. -/
def finish (placement : Placement) : Nat :=
  placement.source + placement.old.bytes.length

/-- The text that was replaced, and the one in its place. -/
def replaced? (placement : Placement) : Option (TextUnit × Bytes) :=
  placement.old.textUnit?.map fun unit => (unit, placement.new.text?.getD [])

/-- The record of the text that was replaced. -/
def sentence? (placement : Placement) : Option Sentence :=
  placement.old.textUnit?.map fun unit =>
    { address := unit.textAddress
      oldLength := unit.text.length
      newLength := (placement.new.text?.getD []).length }

/-- The jump site of an enrolled word. -/
def site? (data : Bytes) (placement : Placement) : Option JumpSite :=
  (placement.old.enrolled? data).map fun word =>
    { outputAddress := placement.target + 1
      sourceAddress := placement.source + 1
      target := word }

/-- The record holds where the replaced text stood and how long the two texts are. -/
theorem sentence?_eq (placement : Placement) :
    placement.sentence? = placement.replaced?.map fun (unit, new) =>
      { address := unit.textAddress, oldLength := unit.text.length, newLength := new.length } := by
  rw [sentence?, replaced?, Option.map_map]
  rfl

end Placement

/-! ## Placing a list of events -/

section Lists

variable (source target : Nat) (events : List Event) (texts : List Bytes)

/-- The text units of some events are taken event by event. -/
theorem textUnits_cons (event : Event) :
    textUnits (event :: events) = event.textUnit?.toList ++ textUnits events := by
  cases h : event.textUnit? with
  | none => simp [textUnits, h]
  | some unit => simp [textUnits, h]

/-- Placing events keeps them all, in order. -/
theorem map_old_placements :
    (placements source target events texts).map Placement.old = events := by
  induction events generalizing source target texts with
  | nil => rfl
  | cons event events ih => simp [placements, ih]

/-- The old bytes of the placements are the bytes of the events. -/
theorem flatMap_old_placements :
    (placements source target events texts).flatMap (fun p => p.old.bytes) =
      events.flatMap Event.bytes := by
  conv => rhs; rw [← map_old_placements source target events texts]
  rw [List.flatMap_map]

/-- Placements tile the old bytes. -/
theorem tiles_source :
    Tiles Placement.source (fun p => p.old.bytes) source
      (placements source target events texts) := by
  induction events generalizing source target texts with
  | nil => trivial
  | cons event events ih => exact ⟨rfl, ih ..⟩

/-- The placements tile the new script before jumps are corrected. -/
theorem tiles_target :
    Tiles Placement.target (fun p => p.new.bytes) target
      (placements source target events texts) := by
  induction events generalizing source target texts with
  | nil => trivial
  | cons event events ih => exact ⟨rfl, ih ..⟩

/-- Placing goes on behind the first events with the texts that they leave. -/
theorem placements_append (more : List Event) :
    placements source target (events ++ more) texts =
      placements source target events texts ++
        placements (source + (events.flatMap Event.bytes).length)
          (target + ((placements source target events texts).flatMap fun p => p.new.bytes).length)
          more (texts.drop (textUnits events).length) := by
  induction events generalizing source target texts with
  | nil => simp [placements, textUnits]
  | cons event events ih =>
    simp only [List.cons_append, placements, ih, List.flatMap_cons, List.length_append,
      textUnits_cons, List.drop_drop, Nat.add_assoc]

/-- The new event of a placement is its old one with one of the texts, or with its own text. -/
theorem exists_retext_of_mem {placement : Placement}
    (member : placement ∈ placements source target events texts) :
    ∃ rest, placement.new = placement.old.retext rest := by
  induction events generalizing source target texts with
  | nil => simp [placements] at member
  | cons event events ih =>
    rcases List.mem_cons.mp member with rfl | member
    · exact ⟨texts, rfl⟩
    · exact ih _ _ _ member

/-- With enough texts, the texts of the events are replaced by these in order. -/
theorem filterMap_replaced?_placements (enough : (textUnits events).length ≤ texts.length) :
    (placements source target events texts).filterMap Placement.replaced? =
      (textUnits events).zip texts := by
  induction events generalizing source target texts with
  | nil => simp [placements, textUnits]
  | cons event events ih =>
    rw [textUnits_cons] at enough ⊢
    rw [placements, List.filterMap_cons, Placement.replaced?]
    cases has : event.textUnit? with
    | none =>
      rw [has] at enough
      exact ih _ _ _ enough
    | some unit =>
      rw [has, List.length_append] at enough
      cases texts with
      | nil => simp at enough
      | cons text texts =>
        have first : (event.retext (text :: texts)).text? = some text := by
          rw [Event.retext, Event.text?_withText, Event.text?, has]
          rfl
        have fewer : (textUnits events).length ≤ texts.length := by
          simp only [Option.toList_some, List.length_cons, List.length_nil] at enough
          omega
        simp [first, ih _ _ texts fewer]

/-- A script grows by what its texts grow. -/
theorem deltas_placements {placed : List Placement}
    (retexted : ∀ p ∈ placed, ∃ rest, p.new = p.old.retext rest) :
    Sentence.deltas (placed.filterMap Placement.sentence?) =
      (placed.flatMap fun p => p.new.bytes).length -
        ((placed.flatMap fun p => p.old.bytes).length : Int) := by
  induction placed with
  | nil => rfl
  | cons p placed ih =>
    have htail := ih fun q hq => retexted q (by simp [hq])
    obtain ⟨rest, hnew⟩ := retexted p (by simp)
    simp only [List.flatMap_cons, List.length_append, List.filterMap_cons, Placement.sentence?]
    cases has : p.old.textUnit? with
    | none =>
      rw [Event.retext_of_none has] at hnew
      simp only [hnew, Option.map_none]
      omega
    | some unit =>
      have hold : p.old.text? = some unit.text := by rw [Event.text?, has]; rfl
      simp only [Option.map_some, Sentence.deltas, Sentence.delta]
      cases rest with
      | nil =>
        -- Without a text left the event keeps its own one, which is recorded all the same.
        rw [Event.retext] at hnew
        simp only [hnew, hold, Option.getD_some]
        omega
      | cons text rest =>
        rw [Event.retext] at hnew
        have grown := Event.length_bytes_withText text hold
        rw [hnew, Event.text?_withText, hold]
        simp only [Option.map_some, Option.getD_some]
        omega

end Lists

/-! ## Texts inside their events -/

/-- Whether an event is the first of a unit. -/
def Event.startsUnit : Event → Bool
  | terminator _ => true
  | instructionStart _ => true
  | text _ => true
  | _ => false

/-- A unit has a first event, and that one has the address of the unit. -/
theorem Command.exists_events_eq_cons (command : Command) :
    ∃ first more, command.events = first :: more ∧ first.startsUnit = true ∧
      first.address = command.address := by
  cases command with
  | terminator address => exact ⟨.terminator address, [], rfl, rfl, rfl⟩
  | instruction i => exact ⟨.instructionStart i.toInstructionHead, _, rfl, rfl, rfl⟩
  | text run => exact ⟨.text run, [], rfl, rfl, rfl⟩

namespace Event.Step

variable {level after : Level} {address : Nat} {event : Event} {unit : TextUnit}

/-- An event starts a unit exactly when it is read between units. -/
theorem startsUnit_iff (step : event.Step level address after) :
    event.startsUnit = true ↔ level = .units := by
  cases step <;> simp [Event.startsUnit]

/-- An event that starts a unit is read at the address that it speaks about. -/
theorem address_eq (step : event.Step level address after) (starts : event.startsUnit = true) :
    event.address = address := by
  cases step <;> first | rfl | simp [Event.startsUnit] at starts

/-- The text of an event stands at its end, and at its start as well only if the event is a unit of
its own. -/
theorem textUnit_bounds (step : event.Step level address after)
    (has : event.textUnit? = some unit) :
    address ≤ unit.textAddress ∧
      unit.textAddress + unit.text.length = address + event.bytes.length ∧
      (unit.textAddress = address → event.startsUnit = true) := by
  cases step with
  | text run nonempty _ =>
    simp only [Event.textUnit?, Option.some.injEq] at has
    subst has
    simp [TextUnit.textAddress, TextUnit.text, Event.bytes, Event.startsUnit]
  | operand head argument operand known fits =>
    obtain ⟨tag, address, value⟩ := operand
    cases value with
    | string payload =>
      simp only [Event.textUnit?, Operand.textUnit?, Value.payload?, Option.map_some,
        Option.some.injEq] at has
      subst has
      simp only [TextUnit.textAddress, Operand.payloadAddress, Operand.valueAddress,
        TextUnit.text, Event.bytes, Operand.length_bytes, Value.size]
      omega
    | _ => simp [Event.textUnit?, Operand.textUnit?, Value.payload?] at has
  | _ => simp [Event.textUnit?] at has

/-- Behind an event whose text is empty stands another operand or the end of its list. -/
theorem after_ne_units_of_empty (step : event.Step level address after)
    (has : event.textUnit? = some unit) (empty : unit.text.length = 0) : after ≠ .units := by
  cases step with
  | text run nonempty _ =>
    simp only [Event.textUnit?, Option.some.injEq] at has
    subst has
    exact absurd (List.length_eq_zero_iff.mp empty) nonempty
  | operand => simp
  | _ => simp [Event.textUnit?] at has

end Event.Step

/-! ## Placements along a trace -/

section Traces

variable {level after : Level} {source target finish : Nat} {events : List Event}
  {texts : List Bytes} {p q : Placement}

/-- The old event of a placement is read at its source address. -/
theorem exists_step_of_mem (trace : Trace level source events after finish)
    (member : p ∈ placements source target events texts) :
    ∃ before behind, p.old.Step before p.source behind := by
  induction trace generalizing target texts with
  | nil => simp [placements] at member
  | cons step apart rest ih =>
    rcases List.mem_cons.mp member with rfl | member
    · exact ⟨_, _, step⟩
    · exact ih member

/-- If a unit starts where a run of steps does, the run began between units. -/
theorem level_eq_units_of_startsUnit (trace : Trace level source events after finish)
    (member : p ∈ placements source target events texts) (first : p.source = source)
    (starts : p.old.startsUnit = true) : level = .units := by
  cases trace with
  | nil => simp [placements] at member
  | cons step apart rest =>
    rcases List.mem_cons.mp member with rfl | member
    · exact step.startsUnit_iff.mp starts
    · have later := ((tiles_source ..).bounds member).1
      have := step.length_bytes_pos
      omega

/-- No text stands right in front of a unit without a byte between them: one that is empty there
would be the last operand of an open list. -/
theorem eq_of_textAddress_eq {unit : TextUnit} (trace : Trace level source events after finish)
    (member : q ∈ placements source target events texts) (has : q.old.textUnit? = some unit)
    (unitMember : p ∈ placements source target events texts) (starts : p.old.startsUnit = true)
    (same : unit.textAddress = p.source) : q = p := by
  induction trace generalizing target texts with
  | nil => simp [placements] at member
  | @cons _ _ _ address _ event _ step _ rest ih =>
    rcases List.mem_cons.mp member with rfl | inTail <;>
      rcases List.mem_cons.mp unitMember with rfl | unitInTail
    · rfl
    · -- The text would have to be empty, and the unit the very next event.
      obtain ⟨-, bound, -⟩ := step.textUnit_bounds has
      have low := ((tiles_source ..).bounds unitInTail).1
      have isNext : p.source = address + event.bytes.length := by omega
      have units := level_eq_units_of_startsUnit rest unitInTail isNext starts
      exact absurd units (step.after_ne_units_of_empty has (by omega))
    · obtain ⟨_, _, qStep⟩ := exists_step_of_mem rest inTail
      have bound := (qStep.textUnit_bounds has).1
      have low := ((tiles_source ..).bounds inTail).1
      have := step.length_bytes_pos
      simp only at same
      omega
    · exact ih inTail unitInTail

/-- A recorded text lies in its event, and ends with it. -/
theorem sentence_bounds {s : Sentence} (trace : Trace level source events after finish)
    (member : p ∈ placements source target events texts) (recorded : p.sentence? = some s) :
    p.source ≤ s.address ∧ s.finish = p.finish := by
  obtain ⟨unit, has, rfl⟩ := Option.map_eq_some_iff.mp recorded
  obtain ⟨_, _, step⟩ := exists_step_of_mem trace member
  obtain ⟨low, bound, -⟩ := step.textUnit_bounds has
  exact ⟨low, bound⟩

/-- A text that ends before a unit starts before it too, even if it is empty. -/
theorem address_lt_of_startsUnit {s : Sentence} (trace : Trace level source events after finish)
    (member : q ∈ placements source target events texts) (recorded : q.sentence? = some s)
    (unitMember : p ∈ placements source target events texts) (starts : p.old.startsUnit = true)
    (before : q.finish ≤ p.source) : s.address < p.source := by
  obtain ⟨low, bound⟩ := sentence_bounds trace member recorded
  obtain ⟨unit, has, rfl⟩ := Option.map_eq_some_iff.mp recorded
  obtain ⟨_, _, step⟩ := exists_step_of_mem trace unitMember
  have nonempty := step.length_bytes_pos
  have different : unit.textAddress ≠ p.source := by
    intro same
    have hqp := eq_of_textAddress_eq trace member has unitMember starts same
    subst hqp
    unfold Placement.finish at before
    omega
  simp only [Sentence.finish] at bound ⊢
  omega

/-- Of two texts, the one that ends first starts first, even if it is empty. -/
theorem address_lt_address {s t : Sentence} (trace : Trace level source events after finish)
    (member : q ∈ placements source target events texts) (recorded : q.sentence? = some s)
    (laterMember : p ∈ placements source target events texts) (laterRecorded : p.sentence? = some t)
    (before : q.finish ≤ p.source) : s.address < t.address := by
  obtain ⟨-, bound⟩ := sentence_bounds trace member recorded
  obtain ⟨low, -⟩ := sentence_bounds trace laterMember laterRecorded
  by_cases inside : p.source < t.address
  · unfold Sentence.finish at bound
    omega
  · -- Only a run of raw text stands at the start of its event, and a run is a unit.
    have same : t.address = p.source := by omega
    obtain ⟨unit, has, rfl⟩ := Option.map_eq_some_iff.mp laterRecorded
    obtain ⟨_, _, step⟩ := exists_step_of_mem trace laterMember
    have starts := (step.textUnit_bounds has).2.2 same
    have := address_lt_of_startsUnit trace member recorded laterMember starts before
    omega

end Traces

/-! ## The ledger of a list of placements -/

/-- The record of all texts that were replaced. -/
def Ledger.ofPlacements (placed : List Placement) : Ledger :=
  { sentences := placed.filterMap Placement.sentence? }

section Shifts

variable {level after : Level} {source target finish : Nat} {events : List Event}
  {texts : List Bytes} {p : Placement}

/-- Texts are recorded in the order of the script, so the ledger is sorted. -/
theorem sorted_ofPlacements (trace : Trace level source events after finish) :
    (Ledger.ofPlacements (placements source target events texts)).Sorted := by
  rw [Ledger.Sorted, Ledger.ofPlacements, List.pairwise_filterMap]
  refine (tiles_source source target events texts).pairwise.imp_of_mem ?_
  intro q p member laterMember before s recorded t laterRecorded
  exact address_lt_address trace member recorded laterMember laterRecorded before

/-- A condition that cuts the recorded texts in two at a place sums up what the script has grown
until there. -/
theorem deltas_filter_of_split {front back : List Placement} {select : Sentence → Bool}
    (split : placements source target events texts = front ++ back)
    (hfront : ∀ q ∈ front, ∀ s, q.sentence? = some s → select s = true)
    (hback : ∀ q ∈ back, ∀ s, q.sentence? = some s → select s = false) :
    Sentence.deltas
        ((Ledger.ofPlacements (placements source target events texts)).sentences.filter select) =
      (front.flatMap fun p => p.new.bytes).length -
        ((front.flatMap fun p => p.old.bytes).length : Int) := by
  have all : (front.filterMap Placement.sentence?).filter select =
      front.filterMap Placement.sentence? := by
    rw [List.filter_eq_self]
    intro s hs
    obtain ⟨q, hq, recorded⟩ := List.mem_filterMap.mp hs
    exact hfront q hq s recorded
  have none : (back.filterMap Placement.sentence?).filter select = [] := by
    rw [List.filter_eq_nil_iff]
    intro s hs
    obtain ⟨q, hq, recorded⟩ := List.mem_filterMap.mp hs
    simp [hback q hq s recorded]
  rw [Ledger.ofPlacements, split, List.filterMap_append, List.filter_append, all, none,
    List.append_nil, deltas_placements]
  intro q hq
  exact exists_retext_of_mem source target events texts (split ▸ List.mem_append_left back hq)

/-- A condition that holds exactly of the texts before an event sums up how far it has moved. -/
theorem deltas_filter_eq_of_mem {select : Sentence → Bool}
    (trace : Trace level source events after finish)
    (member : p ∈ placements source target events texts)
    (selects : ∀ q ∈ placements source target events texts, ∀ s, q.sentence? = some s →
      (select s = true ↔ q.finish ≤ p.source)) :
    Sentence.deltas
        ((Ledger.ofPlacements (placements source target events texts)).sentences.filter select) =
      (p.target - target) - ((p.source : Int) - source) := by
  obtain ⟨front, back, split⟩ := List.append_of_mem member
  have tiles := tiles_source source target events texts
  have targets := tiles_target source target events texts
  rw [split] at tiles targets
  obtain ⟨-, hlater, hearlier⟩ := List.pairwise_append.mp tiles.pairwise
  have hsource := tiles.position_eq
  have htarget := targets.position_eq
  rw [deltas_filter_of_split split]
  · omega
  · intro q hq s recorded
    rw [selects q (by simp [split, hq]) s recorded]
    exact hearlier q hq p (by simp)
  · intro q hq s recorded
    have qMember : q ∈ placements source target events texts := by
      rw [split]
      exact List.mem_append_right front hq
    obtain ⟨_, _, step⟩ := exists_step_of_mem trace qMember
    have nonempty := step.length_bytes_pos
    have notBefore : ¬ q.finish ≤ p.source := by
      rw [Placement.finish]
      rcases List.mem_cons.mp hq with rfl | hq
      · omega
      · have := (List.pairwise_cons.mp hlater).1 q hq
        omega
    have iff := selects q qMember s recorded
    cases h : select s with
    | false => rfl
    | true => exact absurd (iff.mp h) notBefore

/-- An address in an event has moved as far as the event. -/
theorem deltaPast_eq_of_mem (trace : Trace level source events after finish)
    (member : p ∈ placements source target events texts) {address : Nat}
    (low : p.source ≤ address) (high : address < p.finish) :
    (Ledger.ofPlacements (placements source target events texts)).deltaPast address =
      (p.target - target) - ((p.source : Int) - source) := by
  apply deltas_filter_eq_of_mem trace member
  intro q qMember s recorded
  obtain ⟨-, bound⟩ := sentence_bounds trace qMember recorded
  rw [decide_eq_true_eq, bound]
  unfold Placement.finish at high ⊢
  rcases (tiles_source source target events texts).trichotomy qMember member with
    rfl | before | behind <;> omega

/-- At the end of a placement, the texts that have ended account for the distance between old and
new. -/
theorem deltaPast_finish_of_mem (trace : Trace level source events after finish)
    (member : p ∈ placements source target events texts) :
    (Ledger.ofPlacements (placements source target events texts)).deltaPast p.finish =
      (p.target + p.new.bytes.length - target) - ((p.finish : Int) - source) := by
  obtain ⟨front, back, split⟩ := List.append_of_mem member
  have tiles := tiles_source source target events texts
  have targets := tiles_target source target events texts
  rw [split] at tiles targets
  obtain ⟨-, hlater, hearlier⟩ := List.pairwise_append.mp tiles.pairwise
  have hsource := tiles.position_eq
  have htarget := targets.position_eq
  have split' : placements source target events texts = (front ++ [p]) ++ back := by
    rw [split, List.append_assoc]
    rfl
  rw [Ledger.deltaPast, deltas_filter_of_split split']
  · simp only [List.flatMap_append, List.flatMap_cons, List.flatMap_nil, List.append_nil,
      List.length_append, Placement.finish]
    omega
  · intro q hq s recorded
    have qMember : q ∈ placements source target events texts := by
      rw [split']
      exact List.mem_append_left back hq
    obtain ⟨-, bound⟩ := sentence_bounds trace qMember recorded
    rw [decide_eq_true_eq, bound]
    rcases List.mem_append.mp hq with hq | hq
    · have := hearlier q hq p (by simp)
      unfold Placement.finish
      omega
    · rw [List.mem_singleton.mp hq]
  · intro q hq s recorded
    have qMember : q ∈ placements source target events texts := by
      rw [split']
      exact List.mem_append_right _ hq
    obtain ⟨_, _, step⟩ := exists_step_of_mem trace qMember
    have nonempty := step.length_bytes_pos
    obtain ⟨-, bound⟩ := sentence_bounds trace qMember recorded
    have := (List.pairwise_cons.mp hlater).1 q hq
    rw [decide_eq_false_iff_not, bound]
    unfold Placement.finish
    omega

/-- The first byte of a replaced text has moved as far as its event. -/
theorem deltaBefore_textAddress (trace : Trace level source events after finish)
    (member : p ∈ placements source target events texts) {s : Sentence}
    (recorded : p.sentence? = some s) :
    (Ledger.ofPlacements (placements source target events texts)).deltaBefore s.address =
      (p.target - target) - ((p.source : Int) - source) := by
  rw [Ledger.deltaBefore_eq (sorted_ofPlacements trace)]
  apply deltas_filter_eq_of_mem trace member
  intro q qMember t qRecorded
  obtain ⟨_, _, step⟩ := exists_step_of_mem trace member
  have nonempty := step.length_bytes_pos
  rw [decide_eq_true_eq]
  rcases (tiles_source source target events texts).trichotomy qMember member with
    rfl | before | behind
  · have same : t = s := by simpa [recorded] using qRecorded.symm
    simp only [same, Placement.finish]
    omega
  · have := address_lt_address trace qMember qRecorded member recorded before
    exact ⟨fun _ => before, fun _ => this⟩
  · have := address_lt_address trace member recorded qMember qRecorded behind
    unfold Placement.finish
    omega

/-- At the start of a unit, the texts that have started account for the distance between old and
new. -/
theorem deltaBefore_of_startsUnit (trace : Trace level source events after finish)
    (member : p ∈ placements source target events texts) (starts : p.old.startsUnit = true) :
    (Ledger.ofPlacements (placements source target events texts)).deltaBefore p.source =
      (p.target - target) - ((p.source : Int) - source) := by
  rw [Ledger.deltaBefore_eq (sorted_ofPlacements trace)]
  apply deltas_filter_eq_of_mem trace member
  intro q qMember s recorded
  obtain ⟨_, _, step⟩ := exists_step_of_mem trace member
  have nonempty := step.length_bytes_pos
  obtain ⟨low, -⟩ := sentence_bounds trace qMember recorded
  rw [decide_eq_true_eq]
  rcases (tiles_source source target events texts).trichotomy qMember member with
    rfl | before | behind
  · unfold Placement.finish
    omega
  · have := address_lt_of_startsUnit trace qMember recorded member starts before
    exact ⟨fun _ => before, fun _ => this⟩
  · unfold Placement.finish
    omega

/-- In an event without text, the texts that have started account for the distance between old and
new. -/
theorem deltaBefore_of_textless (trace : Trace level source events after finish)
    (member : p ∈ placements source target events texts) (textless : p.old.textUnit? = none)
    {address : Nat} (low : p.source < address) (high : address ≤ p.finish) :
    (Ledger.ofPlacements (placements source target events texts)).deltaBefore address =
      (p.target - target) - ((p.source : Int) - source) := by
  rw [Ledger.deltaBefore_eq (sorted_ofPlacements trace)]
  apply deltas_filter_eq_of_mem trace member
  intro q qMember s recorded
  obtain ⟨qLow, bound⟩ := sentence_bounds trace qMember recorded
  rw [decide_eq_true_eq]
  rcases (tiles_source source target events texts).trichotomy qMember member with
    rfl | before | behind
  · simp [Placement.sentence?, textless] at recorded
  · unfold Sentence.finish at bound
    unfold Placement.finish at bound ⊢
    omega
  · unfold Placement.finish at high ⊢
    omega

end Shifts

end NovelScript
