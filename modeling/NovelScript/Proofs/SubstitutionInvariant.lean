import NovelScript.Proofs.Guards
import NovelScript.Proofs.Layout

/-!
# What a substitution can rely on

A substitution cuts, subtracts and overwrites without a check. It may, because of an order between
the addresses that the walk hands to it, the bytes that it has dealt with and the texts that it has
recorded (`Substitution.Invariant`), which holds in every state that a walk of any bytes can reach.
When a walk comes to the end, the words that are to be relocated lie apart from each other and from
every new text (`Substitution.Slots`), so each of them still holds its old target when its turn
comes.

Both together let every check of the checked injection pass (`inject?_eq`). The whole is stated in
`Substitution.guarded_of_any_input`.
-/

set_option autoImplicit false

namespace NovelScript

namespace Substitution

/-- The states between two calls of the visitor, each with the events that are still to come. -/
inductive Reached (data : Bytes) (lines : List Bytes) : List Event → Substitution → Prop
  | start : Reached data lines (events data) start
  | step {event : Event} {later : List Event} {s next : Substitution}
    (before : Reached data lines (event :: later) s)
    (accepted : visitor data lines s event = (next, none)) : Reached data lines later next

/-- What a substitution can rely on while some events are still to come. -/
structure Invariant (data : Bytes) (lines : List Bytes) (later : List Event) (s : Substitution) :
    Prop where
  /-- What is dealt with is part of the old script. -/
  copied : s.copied ≤ data.length
  /-- Every address that is still to be handed over lies behind what is dealt with. -/
  ahead : ∀ event ∈ later, ∀ address, event.handed? data = some address →
    s.copied ≤ address ∧ address ≤ data.length
  /-- The new script is ahead of the old one by what the recorded texts have grown. -/
  grown : (s.out.length : Int) - s.copied = s.ledger.totalDelta
  /-- Addresses are recorded in order and at most once. -/
  sorted : s.ledger.Sorted
  /-- The recorded texts do not overlap. -/
  disjoint : s.ledger.sentences.Pairwise fun earlier latter => earlier.finish ≤ latter.address
  /-- There is a record for every line that was used. -/
  recorded : s.ledger.size = s.consumed
  /-- No line was used that is not there. -/
  available : s.consumed ≤ lines.length

/-- What an event does to the ledger: a text is recorded behind all texts before it, and nothing
else is. -/
structure Records (s : Substitution) (event : Event) (next : Substitution) : Prop where
  /-- An event without text records nothing. -/
  textless : event.textUnit? = none → next.ledger = s.ledger
  /-- A text is added to the record, at an address that no text before it reaches. -/
  text : ∀ unit, event.textUnit? = some unit → ∃ newLength,
    next.ledger = s.ledger.record ⟨unit.textAddress, unit.text.length, newLength⟩ ∧
      next.ledger.sentences =
        s.ledger.sentences ++ [⟨unit.textAddress, unit.text.length, newLength⟩] ∧
      ∀ earlier ∈ s.ledger.sentences,
        earlier.address < unit.textAddress ∧ earlier.finish ≤ unit.textAddress

/-- What is known of the words to relocate when a substitution is finished. -/
structure Slots (data : Bytes) (lines : List Bytes) (s : Substitution) : Prop where
  /-- The words are in order and do not overlap. -/
  increasing : s.sites.Pairwise fun earlier latter =>
    earlier.outputAddress + 4 ≤ latter.outputAddress
  /-- The words lie in the new script. -/
  inside : ∀ site ∈ s.sites, site.outputAddress + 4 ≤ s.out.length
  /-- The words lie outside of every new text and of the length in front of it. -/
  apart : ∀ unit new, (unit, new) ∈ replacements data lines → ∀ site ∈ s.sites,
    (site.outputAddress + 4 : Int) ≤
        s.ledger.shift unit.textAddress - (if unit.isString then 4 else 0) ∨
      s.ledger.shift unit.textAddress + new.length ≤ site.outputAddress
  /-- Every word stands where the ledger says that it went. -/
  moved : ∀ site ∈ s.sites, site.outputAddress = s.ledger.shift site.sourceAddress
  /-- A word holds its old target until it is its turn. -/
  untouched : ∀ earlier site latter script, s.sites = earlier ++ site :: latter →
    relocate s.ledger earlier s.out = (script, none) →
      (script.drop site.outputAddress).take 4 = LittleEndian.encode 4 site.target.toNat

/-! ## Every state of a walk -/

section States

variable {data : Bytes} {lines : List Bytes} {later : List Event} {event : Event}
  {s next : Substitution}

/-- Every text that was replaced ends before the next one starts. -/
theorem pairwise_finish_le {level after : Level} {source target finish : Nat}
    {events : List Event} {texts : List Bytes} (trace : Trace level source events after finish) :
    (Ledger.ofPlacements (placements source target events texts)).sentences.Pairwise
      fun earlier latter => earlier.finish ≤ latter.address := by
  unfold Ledger.ofPlacements
  rw [List.pairwise_filterMap]
  refine (tiles_source source target events texts).pairwise.imp_of_mem ?_
  intro q p member laterMember before earlier recorded latter laterRecorded
  obtain ⟨-, ended⟩ := sentence_bounds trace member recorded
  obtain ⟨starts, -⟩ := sentence_bounds trace laterMember laterRecorded
  rw [ended]
  exact Nat.le_trans before starts

/-- An address is handed over inside its event. -/
theorem handed_bounds {before behind : Level} {start address : Nat}
    (step : event.Step before start behind) (handed : event.handed? data = some address) :
    start ≤ address ∧ address ≤ start + event.bytes.length := by
  cases step with
  | text run =>
    obtain rfl := Option.some.inj handed
    omega
  | operand head argument operand =>
    have value : address = operand.address + 1 := by
      obtain ⟨tag, place, value⟩ := operand
      cases value with
      | string => exact (Option.some.inj handed).symm
      | int32 word =>
        by_cases found : (absoluteTarget? data word).isSome = true
        · exact (Option.some.inj ((if_pos found).symm.trans handed)).symm
        · simp [Event.handed?, found] at handed
      | _ => simp [Event.handed?] at handed
    have nonempty : 0 < (Event.operand head argument operand).bytes.length := by
      simp only [Event.bytes, Operand.length_bytes]
      omega
    omega
  | _ => simp [Event.handed?] at handed

/-- The ledger has one record for each text unit. -/
theorem size_ofPlacements (lines : List Bytes) (events : List Event) :
    (Ledger.ofPlacements (Placement.ofLines lines events)).size = (textUnits events).length := by
  unfold Ledger.size Ledger.ofPlacements textUnits
  conv => rhs; rw [← map_old_placements 0 0 events (lines.map Line.replacement)]
  rw [List.filterMap_map, List.length_filterMap_eq_countP, List.length_filterMap_eq_countP]
  apply List.countP_congr
  intro p _
  simp [Placement.sentence?]

/-- An event with a text is only accepted while there are lines. -/
theorem Reflects.enough_of_accepted {seen : List Event} (reflects : Reflects data lines seen s)
    (enough : (textUnits seen).length ≤ lines.length)
    (accepted : visitor data lines s event = (next, none)) :
    (textUnits (seen ++ [event])).length ≤ lines.length := by
  rw [textUnits_append, List.length_append]
  cases has : event.textUnit? with
  | none => simpa [textUnits, has] using enough
  | some unit =>
    have single : (textUnits [event]).length = 1 := by simp [textUnits, has]
    have used := reflects.consumed
    cases line : lines[s.consumed]? with
    | none => simp [visitor_of_shortage has line] at accepted
    | some line =>
      obtain ⟨left, -⟩ := List.getElem?_eq_some_iff.mp line
      omega

/-- A reached state reflects the events that are not to come any more. -/
theorem Reached.reflects (reached : Reached data lines later s) :
    ∃ seen, events data = seen ++ later ∧ Reflects data lines seen s ∧
      (textUnits seen).length ≤ lines.length := by
  induction reached with
  | start => exact ⟨[], rfl, reflects_start data lines, Nat.zero_le _⟩
  | @step event later s next before accepted ih =>
    obtain ⟨seen, split, reflects, enough⟩ := ih
    have split' : events data = (seen ++ [event]) ++ later := by simpa using split
    obtain ⟨after, finish, trace, -⟩ := trace_events data
    obtain ⟨rest, spelled⟩ := spelled_events data
    rw [split'] at trace
    rw [split] at spelled
    simp only [List.flatMap_append, List.flatMap_cons, List.append_assoc] at spelled
    obtain ⟨middle, stop, front⟩ := trace.front
    have more := reflects.enough_of_accepted enough accepted
    obtain ⟨same, visited, reflects⟩ := reflects.step front spelled more
    rw [accepted, Prod.mk.injEq] at visited
    exact ⟨seen ++ [event], split', visited.1 ▸ reflects, more⟩

/-- The invariant holds in every state that is reached. -/
theorem Reached.invariant (reached : Reached data lines later s) :
    Invariant data lines later s := by
  obtain ⟨seen, split, reflects, enough⟩ := reached.reflects
  obtain ⟨after, finish, trace, -⟩ := trace_events data
  obtain ⟨rest, spelled⟩ := spelled_events data
  rw [split] at trace spelled
  obtain ⟨middle, stop, front⟩ := trace.front
  have copied := reflects.copied
  have length := congrArg List.length spelled
  rw [List.flatMap_append, List.length_append, List.length_append] at length
  constructor
  case copied => omega
  case ahead =>
    intro event member address handed
    -- The event stands behind the seen ones, and nothing beyond these has been copied.
    obtain ⟨before, behind, rfl⟩ := List.append_of_mem member
    rw [← List.append_assoc] at trace
    obtain ⟨_, _, step⟩ := step_of_trace trace
    obtain ⟨low, high⟩ := handed_bounds step handed
    simp only [List.flatMap_append, List.flatMap_cons, List.length_append] at low high length
    omega
  case grown =>
    rw [List.flatMap_append, List.append_assoc] at spelled
    have written := reflects.length_out spelled
    rw [reflects.ledger, totalDelta_ofLines]
    omega
  case sorted =>
    rw [reflects.ledger]
    exact sorted_ofPlacements front
  case disjoint =>
    rw [reflects.ledger]
    exact pairwise_finish_le front
  case recorded => rw [reflects.ledger, size_ofPlacements, reflects.consumed]
  case available => rwa [reflects.consumed]

/-- A call adds a record of its text, if it has one, behind the records before it. -/
theorem Reached.sentences_step (reached : Reached data lines (event :: later) s)
    (accepted : visitor data lines s event = (next, none)) :
    ∃ newLength, next.ledger.sentences = s.ledger.sentences ++
      (event.textUnit?.map fun unit =>
        ({ address := unit.textAddress, oldLength := unit.text.length, newLength } :
          Sentence)).toList := by
  obtain ⟨seen, split, before, -⟩ := reached.reflects
  obtain ⟨seen', split', behind, -⟩ := (reached.step accepted).reflects
  have same : seen' = seen ++ [event] := by
    have appended : seen' ++ later = (seen ++ [event]) ++ later := by
      rw [← split', split]
      simp
    exact List.append_cancel_right appended
  subst same
  refine ⟨((placementAt lines seen event).new.text?.getD []).length, ?_⟩
  rw [before.ledger, behind.ledger, ofLines_append_singleton]
  unfold Ledger.ofPlacements
  rw [List.filterMap_append]
  cases has : event.textUnit? with
  | none => simp [Placement.sentence?, placementAt, has]
  | some unit => simp [Placement.sentence?, placementAt, has]

/-- Of the events that are accepted, the texts are recorded, each behind all that were before it,
and nothing else is. -/
theorem Reached.records (reached : Reached data lines (event :: later) s)
    (accepted : visitor data lines s event = (next, none)) : Records s event next := by
  obtain ⟨newLength, added⟩ := reached.sentences_step accepted
  have invariant := (reached.step accepted).invariant
  have sorted := invariant.sorted
  have disjoint := invariant.disjoint
  unfold Ledger.Sorted at sorted
  rw [added, List.pairwise_append] at sorted disjoint
  constructor
  case textless =>
    intro none
    rw [none, Option.map_none, Option.toList_none, List.append_nil] at added
    exact congrArg Ledger.mk added
  case text =>
    intro unit has
    rw [has, Option.map_some, Option.toList_some] at added sorted disjoint
    have behind : ∀ earlier ∈ s.ledger.sentences, earlier.address < unit.textAddress :=
      fun earlier member => sorted.2.2 earlier member _ (List.mem_singleton_self _)
    refine ⟨newLength, ?_, added, ?_⟩
    · unfold Ledger.record
      rw [Ledger.insert_of_forall_lt behind, ← added]
    · intro earlier member
      exact ⟨behind earlier member, disjoint.2.2 earlier member _ (List.mem_singleton_self _)⟩

/-- A refused event leaves the state as it was. -/
theorem eq_of_refused {shortage : Shortage}
    (refused : visitor data lines s event = (next, some shortage)) : next = s := by
  cases event with
  | operand head argument operand =>
    obtain ⟨tag, address, value⟩ := operand
    cases value with
    | string payload =>
      cases line : lines[s.consumed]? with
      | none =>
        simp only [visitor, line, Prod.mk.injEq] at refused
        exact refused.1.symm
      | some line => simp [visitor, line] at refused
    | int32 word =>
      by_cases found : (absoluteTarget? data word).isSome = true
      · simp [visitor, found] at refused
      · simp [visitor, found] at refused
    | _ => simp [visitor] at refused
  | text run =>
    cases line : lines[s.consumed]? with
    | none =>
      simp only [visitor, line, Prod.mk.injEq] at refused
      exact refused.1.symm
    | some line => simp [visitor, line] at refused
  | _ => simp [visitor] at refused

/-- Feeding the remaining events leads to a state that is reached. -/
theorem Reached.feed (reached : Reached data lines later s) :
    ∃ rest, Reached data lines rest ((visitor data lines).feed s later).1 := by
  induction later generalizing s with
  | nil => exact ⟨[], reached⟩
  | cons event later ih =>
    rw [Visitor.feed]
    rcases visited : visitor data lines s event with ⟨next, _ | shortage⟩
    · exact ih (reached.step visited)
    · exact ⟨event :: later, eq_of_refused visited ▸ reached⟩

/-- The state at the end of a walk is reached, whether the walk was complete or not. -/
theorem exists_reached_run (data : Bytes) (lines : List Bytes) :
    ∃ later, Reached data lines later (run data lines).state := by
  obtain ⟨later, reached⟩ := (Reached.start : Reached data lines _ _).feed
  refine ⟨later, ?_⟩
  rw [run, walk_eq_feed]
  split
  case h_1 fed => rwa [fed] at reached
  case h_2 fed => rwa [fed] at reached

end States

/-! ## The words of a finished substitution -/

section Words

variable {data : Bytes} {lines : List Bytes} {events : List Event} {p : Placement}
  {site : JumpSite}

/-- The words of the jump sites do not overlap in the output. -/
theorem pairwise_sites (lines : List Bytes) (transcript : Transcript data events) :
    ((Placement.ofLines lines events).filterMap (Placement.site? data)).Pairwise
      fun earlier latter => earlier.outputAddress + 4 ≤ latter.outputAddress := by
  rw [List.pairwise_filterMap]
  refine (tiles_target 0 0 events (lines.map Line.replacement)).pairwise.imp_of_mem ?_
  intro q p member laterMember before earlier found latter laterFound
  have kind : q.Kind data := kind_of_mem transcript.trace member
  have laterKind : p.Kind data := kind_of_mem transcript.trace laterMember
  obtain ⟨-, starts, -, width⟩ := kind.jump_bounds found
  obtain ⟨-, laterStarts, -⟩ := laterKind.jump_bounds laterFound
  omega

/-- The word of a jump site is inside the output. -/
theorem site_finish_le (transcript : Transcript data events)
    (member : p ∈ Placement.ofLines lines events) (found : p.site? data = some site) :
    site.outputAddress + 4 ≤ (emitted lines events).length := by
  have kind : p.Kind data := kind_of_mem transcript.trace member
  obtain ⟨-, starts, -, width⟩ := kind.jump_bounds found
  have bounds := target_bounds member
  omega

/-- A word that is to be relocated was copied as it was. -/
theorem slot_of_site (transcript : Transcript data events)
    (member : p ∈ Placement.ofLines lines events) (found : p.site? data = some site) :
    ((emitted lines events).drop site.outputAddress).take 4 =
      LittleEndian.encode 4 site.target.toNat := by
  have kind : p.Kind data := kind_of_mem transcript.trace member
  obtain ⟨rest, placed⟩ :=
    (tiles_target 0 0 events (lines.map Line.replacement)).drop_eq member
  have same := kind.new_eq (Placement.replaced?_of_site found)
  obtain ⟨word, enrolled, rfl⟩ := Option.map_eq_some_iff.mp found
  obtain ⟨head, argument, operand, hold, henrolled⟩ := Event.enrolled?_eq_some_iff.mp enrolled
  obtain ⟨hvalue, -, -⟩ := Operand.enrolled?_eq_some_iff.mp henrolled
  have spelling : p.new.bytes = operand.tag :: LittleEndian.encode 4 word.toNat := by
    simp [same, hold, Event.bytes, Operand.bytes, hvalue, Value.bytes]
  rw [spelling, Nat.sub_zero, List.cons_append] at placed
  have behindTag := congrArg (List.drop 1) placed
  rw [List.drop_drop, List.drop_one, List.tail_cons] at behindTag
  unfold emitted Placement.ofLines
  rw [behindTag, List.take_left' (LittleEndian.length_encode 4 _)]

/-- No word shares a byte with a new text or with the length in front of one. -/
theorem site_apart_of_replacement (transcript : Transcript data events)
    (enough : (textUnits events).length ≤ lines.length) {unit : TextUnit} {new : Bytes}
    (replaced : (unit, new) ∈ replacements data lines)
    (member : p ∈ Placement.ofLines lines events) (found : p.site? data = some site) :
    (site.outputAddress + 4 : Int) ≤
        (Ledger.ofPlacements (Placement.ofLines lines events)).shift unit.textAddress -
          (if unit.isString then 4 else 0) ∨
      (Ledger.ofPlacements (Placement.ofLines lines events)).shift unit.textAddress + new.length ≤
        site.outputAddress := by
  obtain ⟨q, textMember, has⟩ := (mem_replacements_iff transcript enough).mp replaced
  have kind : p.Kind data := kind_of_mem transcript.trace member
  have textKind : q.Kind data := kind_of_mem transcript.trace textMember
  obtain ⟨-, starts, -, width⟩ := kind.jump_bounds found
  obtain ⟨-, -, textWidth⟩ := textKind.text_bounds has
  rw [shift_of_replaced transcript textMember has]
  rcases (tiles_target 0 0 events (lines.map Line.replacement)).trichotomy member textMember with
    rfl | before | behind
  · simp [Placement.replaced?_of_site found] at has
  · left
    unfold TextUnit.margin
    split <;> omega
  · right
    omega

/-- The words of a finished substitution can be relocated one after the other. -/
theorem seated_of_transcript (lines : List Bytes) (transcript : Transcript data events) :
    Seated (emitted lines events)
      ((Placement.ofLines lines events).filterMap (Placement.site? data)) := by
  constructor
  case inside =>
    intro site enrolled
    obtain ⟨p, member, found⟩ := List.mem_filterMap.mp enrolled
    exact site_finish_le transcript member found
  case apart => exact (pairwise_sites lines transcript).imp Or.inl
  case holds =>
    intro site enrolled
    obtain ⟨p, member, found⟩ := List.mem_filterMap.mp enrolled
    exact slot_of_site transcript member found

/-- At the end of a script every jump site has a slot of its own, with the old target in it. -/
theorem slots_of_transcript (transcript : Transcript data events)
    (enough : (textUnits events).length ≤ lines.length) :
    Slots data lines
      { consumed := (textUnits events).length
        copied := data.length
        out := emitted lines events
        ledger := .ofPlacements (Placement.ofLines lines events)
        sites := (Placement.ofLines lines events).filterMap (Placement.site? data) } := by
  have seated := seated_of_transcript lines transcript
  constructor
  case increasing => exact pairwise_sites lines transcript
  case inside => exact seated.inside
  case apart =>
    intro unit new replaced site enrolled
    obtain ⟨p, member, found⟩ := List.mem_filterMap.mp enrolled
    exact site_apart_of_replacement transcript enough replaced member found
  case moved =>
    intro site enrolled
    obtain ⟨p, member, found⟩ := List.mem_filterMap.mp enrolled
    have kind : p.Kind data := kind_of_mem transcript.trace member
    obtain ⟨-, starts, -⟩ := kind.jump_bounds found
    rw [starts]
    exact (shift_of_site transcript member found).symm
  case untouched => exact fun _ _ _ _ => seated.untouched

/-- At the end of a complete walk every jump site has a slot of its own, with the old target in it.
-/
theorem slots_of_run (walked : (run data lines).stop = none) :
    Slots data lines ((run data lines).state.finish data) := by
  obtain ⟨transcript, enough⟩ := transcript_of_run walked
  obtain ⟨last, same, finished⟩ := run_of_transcript transcript enough
  rw [same, finished]
  exact slots_of_transcript transcript enough

end Words

/-! ## Every check passes -/

section Checks

variable {data : Bytes} {lines : List Bytes} {later : List Event} {s : Substitution}

/-- On the events of a script the checked visitor does what the plain one does. -/
theorem Reached.feed_visitor? (reached : Reached data lines later s) :
    (visitor? data lines).feed s later =
      ((visitor data lines).feed s later).map id (Option.map some) := by
  induction later generalizing s with
  | nil => rfl
  | cons event later ih =>
    have checked : visit? data lines s event = some (visitor data lines s event) :=
      visit?_eq (reached.invariant.ahead event List.mem_cons_self)
    rw [Visitor.feed, Visitor.feed]
    unfold visitor?
    rw [checked]
    rcases visited : visitor data lines s event with ⟨next, _ | shortage⟩
    · exact ih (reached.step visited)
    · rfl

/-- Where every word holds its old target until it is its turn, the checked relocation does what the
plain one does. -/
theorem relocate?_eq {ledger : Ledger} {sites : List JumpSite} {script : Bytes}
    (inside : ∀ site ∈ sites, site.outputAddress + 4 ≤ script.length)
    (untouched : ∀ earlier site latter halfway, sites = earlier ++ site :: latter →
      relocate ledger earlier script = (halfway, none) →
        (halfway.drop site.outputAddress).take 4 = LittleEndian.encode 4 site.target.toNat) :
    relocate? ledger sites script = some (relocate ledger sites script) := by
  induction sites generalizing script with
  | nil => rfl
  | cons site sites ih =>
    have first := inside site List.mem_cons_self
    have slot : slice? script site.outputAddress (site.outputAddress + 4) =
        some (LittleEndian.encode 4 site.target.toNat) := by
      rw [slice?_of_le (Nat.le_add_right _ 4) first, Nat.add_sub_cancel_left,
        untouched [] site sites script rfl rfl]
    have held : BitVec.ofNat 32
        (LittleEndian.decode (LittleEndian.encode 4 site.target.toNat)) = site.target := by
      rw [LittleEndian.decode_encode_of_lt site.target.isLt, BitVec.ofNat_toNat,
        BitVec.setWidth_eq]
    by_cases fits : IsWord (site.corrected ledger)
    · rw [relocate_cons_of_isWord fits, relocate?]
      simp only [slot, held, if_true]
      refine (if_pos fits).trans ?_
      have width : site.outputAddress +
          (LittleEndian.encode 4 (site.corrected ledger).toNat).length ≤ script.length := by
        rwa [LittleEndian.length_encode]
      apply ih
      · intro other member
        rw [length_overwrite width]
        exact inside other (List.mem_cons_of_mem _ member)
      · intro earlier other latter halfway split relocated
        rw [← relocate_cons_of_isWord fits] at relocated
        exact untouched (site :: earlier) other latter halfway (by rw [split]; rfl) relocated
    · rw [relocate_cons_of_not_isWord fits, relocate?]
      exact if_neg fits

/-- Relocation passes all its checks when every jump site has a slot of its own. -/
theorem relocated?_eq (slots : Slots data lines s) (available : s.consumed ≤ lines.length) :
    s.relocated? lines = some (s.relocated lines) := by
  unfold relocated? relocated
  rw [relocate?_eq slots.inside slots.untouched, difference?_of_le available]
  rcases relocate s.ledger s.sites s.out with ⟨script, _ | problem⟩
  · rfl
  · rfl

/-- Every check of an injection passes, whatever the bytes and the lines are. -/
theorem inject?_eq (data : Bytes) (lines : List Bytes) :
    inject? data lines = some (inject data lines) := by
  have origin : Reached data lines (events data) start := .start
  unfold inject? inject
  rw [walk_eq_feed, origin.feed_visitor?, run, walk_eq_feed]
  rcases fed : (visitor data lines).feed start (events data) with ⟨last, _ | shortage⟩
  · cases sound : fault? data with
    | some fault => rfl
    | none =>
      have walked : run data lines = { state := last, stop := none } := by
        rw [run, walk_eq_feed, fed, sound]
        rfl
      obtain ⟨later, reached⟩ := exists_reached_run data lines
      have slots : Slots data lines ((run data lines).state.finish data) :=
        slots_of_run (by rw [walked])
      rw [walked] at reached slots
      have copied := copyThrough?_of_le reached.invariant.copied (Nat.le_refl data.length)
      have relocated := relocated?_eq slots reached.invariant.available
      simpa [Injection.ofWalk, copied, finish] using relocated
  · rfl

end Checks

/-- What an injection relies on without a check, for any bytes and any lines. Between two calls of
the visitor the invariant holds; a call that is accepted adds at most one record, behind all others,
and one that is refused leaves everything as it was; the walk ends in such a state. If it comes to
the end, the words to relocate lie apart from each other and from every new text, and hold their old
targets until they are written. So the injection that checks every cut, every difference and every
word has an answer, and it is that of the injection without checks. -/
theorem guarded_of_any_input (data : Bytes) (lines : List Bytes) :
    (∀ later s, Reached data lines later s → Invariant data lines later s) ∧
      (∀ event later s next, Reached data lines (event :: later) s →
        (visitor data lines s event = (next, none) → Records s event next) ∧
          ∀ shortage, visitor data lines s event = (next, some shortage) → next = s) ∧
      (∃ later, Reached data lines later (run data lines).state) ∧
      ((run data lines).stop = none → Slots data lines ((run data lines).state.finish data)) ∧
      inject? data lines = some (inject data lines) := by
  refine ⟨?_, ?_, exists_reached_run data lines, slots_of_run, inject?_eq data lines⟩
  · intro later s reached
    exact reached.invariant
  · intro event later s next reached
    exact ⟨reached.records, fun shortage => eq_of_refused⟩

/-- Two empty strings back to back, in front of a jump behind them: both are recorded, each at its
own address, and the word of the jump moves on by the three bytes that they get. -/
theorem guarded_of_any_input_two_empty_strings :
    let data : Bytes :=
      [0x1B, 0, 0, 1, 4, 0, 0, 0, 0, 4, 0, 0, 0, 0, 1, 21, 0, 0, 0, 0xFF, 0xFF, 0x1A]
    let lines : List Bytes := [[0x61], [0x62, 0x63]]
    (∃ event later s next, Reached data lines (event :: later) s ∧
        visitor data lines s event = (next, none) ∧ Records s event next ∧
        Invariant data lines later next ∧
        next.ledger.sentences = [⟨9, 0, 1⟩, ⟨14, 0, 2⟩]) ∧
      Slots data lines ((run data lines).state.finish data) ∧
      ((run data lines).state.finish data).sites = [⟨18, 15, 21⟩] ∧
      inject? data lines = some (inject data lines) := by
  intro data lines
  have read : events data =
      [.instructionStart ⟨0, 0⟩, .argumentStart ⟨3, 1, 1⟩,
        .operand ⟨0, 0⟩ ⟨3, 1, 1⟩ ⟨4, 4, .string []⟩, .operand ⟨0, 0⟩ ⟨3, 1, 1⟩ ⟨4, 9, .string []⟩,
        .operand ⟨0, 0⟩ ⟨3, 1, 1⟩ ⟨1, 14, .int32 21⟩, .argumentEnd ⟨3, 1, 1⟩,
        .instructionEnd ⟨0, 0⟩ 21, .terminator 21] := by
    decide +kernel
  obtain ⟨invariant, calls, -, slots, checked⟩ := guarded_of_any_input data lines
  have origin : Reached data lines _ start := .start
  rw [read] at origin
  have first := ((origin.step rfl).step rfl).step rfl
  have second := first.step rfl
  exact ⟨⟨_, _, _, _, first, rfl, (calls _ _ _ _ first).1 rfl, invariant _ _ second, rfl⟩,
    slots (by decide +kernel), by decide +kernel, checked⟩

end Substitution

end NovelScript
