import NovelScript.Inject
import NovelScript.Proofs.Relocation

/-!
# What a substitution does

A substitution copies the old script lazily: bytes between two texts are only written when the next
text is met. `Substitution.Reflects` says what it has done after some events of a script, with the
bytes that are still to be copied counted in: it has placed exactly these events. Every event keeps
the invariant (`Reflects.step`), so the walk of a whole script places all of it
(`run_of_transcript`), unless the lines run out (`run_of_shortage`) or the bytes turn out to be no
script (`run_of_fault`).

Together with relocation this gives the whole of an injection in one equation
(`inject_eq_ok_iff`): the new script is the row of placed events with their words corrected.
-/

set_option autoImplicit false

namespace NovelScript

/-- The events of a script placed with the texts of some lines. -/
def Placement.ofLines (lines : List Bytes) (events : List Event) : List Placement :=
  placements 0 0 events (lines.map Line.replacement)

/-- The bytes that are put in place of some events when the texts of lines replace their own, in
order. -/
def emitted (lines : List Bytes) (events : List Event) : Bytes :=
  (Placement.ofLines lines events).flatMap fun p => p.new.bytes

/-- The placement of an event behind others. -/
def placementAt (lines : List Bytes) (seen : List Event) (event : Event) : Placement :=
  { source := (seen.flatMap Event.bytes).length
    target := (emitted lines seen).length
    old := event
    new := event.retext ((lines.map Line.replacement).drop (textUnits seen).length) }

/-- An event is placed as those before it say, whatever follows. -/
theorem placementAt_mem (lines : List Bytes) (seen : List Event) (event : Event)
    (more : List Event) :
    placementAt lines seen event ∈ Placement.ofLines lines (seen ++ event :: more) := by
  rw [Placement.ofLines, placements_append, placements]
  simp only [Nat.zero_add]
  exact List.mem_append_right _ List.mem_cons_self

/-- One more event adds one placement. -/
theorem ofLines_append_singleton (lines : List Bytes) (seen : List Event) (event : Event) :
    Placement.ofLines lines (seen ++ [event]) =
      Placement.ofLines lines seen ++ [placementAt lines seen event] := by
  rw [Placement.ofLines, placements_append]
  simp only [placements, Nat.zero_add]
  rfl

/-- One more event adds its new bytes to the output. -/
theorem emitted_append_singleton (lines : List Bytes) (seen : List Event) (event : Event) :
    emitted lines (seen ++ [event]) =
      emitted lines seen ++ (placementAt lines seen event).new.bytes := by
  rw [emitted, ofLines_append_singleton, List.flatMap_append, List.flatMap_singleton]
  rfl

/-- A placement ends inside the output. -/
theorem target_bounds {lines : List Bytes} {events : List Event} {p : Placement}
    (member : p ∈ Placement.ofLines lines events) :
    p.target + p.new.bytes.length ≤ (emitted lines events).length := by
  have bounds := ((tiles_target 0 0 events (lines.map Line.replacement)).bounds member).2
  rwa [Nat.zero_add] at bounds

/-- What is emitted for some events is longer than they are by what their texts grow. -/
theorem totalDelta_ofLines (lines : List Bytes) (events : List Event) :
    (Ledger.ofPlacements (Placement.ofLines lines events)).totalDelta =
      (emitted lines events).length - ((events.flatMap Event.bytes).length : Int) := by
  have retexted : ∀ p ∈ Placement.ofLines lines events, ∃ rest, p.new = p.old.retext rest :=
    fun p member => exists_retext_of_mem _ _ _ _ member
  have grown := deltas_placements retexted
  rw [Placement.ofLines, flatMap_old_placements] at grown
  exact grown

/-- The first steps of a run are a run. -/
theorem Trace.front {level after : Level} {address finish : Nat} {left right : List Event}
    (trace : Trace level address (left ++ right) after finish) :
    ∃ middle stop, Trace level address left middle stop := by
  induction left generalizing level address with
  | nil => exact ⟨level, address, .nil level address⟩
  | cons event left ih =>
    cases trace with
    | cons step apart rest =>
      obtain ⟨middle, stop, trace⟩ := ih rest
      refine ⟨middle, stop, .cons step ?_ trace⟩
      intro isRun next hnext
      apply apart isRun next
      cases left with
      | nil => simp at hnext
      | cons => exact hnext

namespace Substitution

/-- What a substitution has done after some events of a script. -/
structure Reflects (data : Bytes) (lines : List Bytes) (seen : List Event) (s : Substitution) :
    Prop where
  /-- A line was used for every text. -/
  consumed : s.consumed = (textUnits seen).length
  /-- Nothing was copied ahead. -/
  copied : s.copied ≤ (seen.flatMap Event.bytes).length
  /-- What was written, and what waits to be copied, are the placed events. -/
  out : s.out ++ (data.drop s.copied).take ((seen.flatMap Event.bytes).length - s.copied) =
    emitted lines seen
  /-- Every replaced text is recorded. -/
  ledger : s.ledger = .ofPlacements (Placement.ofLines lines seen)
  /-- Every enrolled word has its site. -/
  sites : s.sites = (Placement.ofLines lines seen).filterMap (Placement.site? data)

variable {data rest : Bytes} {lines : List Bytes} {seen : List Event} {event : Event}
  {s : Substitution}

/-- The first state reflects that no event was seen. -/
theorem reflects_start (data : Bytes) (lines : List Bytes) : Reflects data lines [] start :=
  { consumed := rfl
    copied := Nat.le_refl 0
    out := rfl
    ledger := rfl
    sites := rfl }

/-- With the bytes that wait to be copied, a substitution has written up to any later address. -/
theorem Reflects.copyThrough_out (reflects : Reflects data lines seen s)
    (spelled : data = seen.flatMap Event.bytes ++ rest) (count : Nat) :
    (s.copyThrough data ((seen.flatMap Event.bytes).length + count)).out =
      emitted lines seen ++ rest.take count := by
  have hcopied := reflects.copied
  have more : (seen.flatMap Event.bytes).length + count - s.copied =
      ((seen.flatMap Event.bytes).length - s.copied) + count := by omega
  have hdrop : data.drop (seen.flatMap Event.bytes).length = rest := by
    rw [spelled, List.drop_left]
  rw [copyThrough, more, List.take_add, List.drop_drop,
    Nat.add_sub_cancel' hcopied, hdrop, ← List.append_assoc, reflects.out]

/-- An event is read behind the bytes of all events before it. -/
theorem step_of_trace {after : Level} {finish : Nat} {more : List Event}
    (trace : Trace .units 0 (seen ++ event :: more) after finish) :
    ∃ before behind, event.Step before (seen.flatMap Event.bytes).length behind :=
  exists_step_of_mem trace (placementAt_mem [] seen event more)

/-- What is written and what is still to be copied are as long as what the events emit. -/
theorem Reflects.length_out (reflects : Reflects data lines seen s)
    (spelled : data = seen.flatMap Event.bytes ++ rest) :
    s.out.length + ((seen.flatMap Event.bytes).length - s.copied) =
      (emitted lines seen).length := by
  rw [← reflects.out, List.length_append, List.length_take, List.length_drop]
  have hdata : data.length = (seen.flatMap Event.bytes).length + rest.length := by
    rw [spelled, List.length_append]
  omega

/-- An event without text only waits to be copied, and may add a site. -/
theorem Reflects.textless (reflects : Reflects data lines seen s)
    (spelled : data = seen.flatMap Event.bytes ++ (event.bytes ++ rest))
    (none : event.textUnit? = none) :
    Reflects data lines (seen ++ [event])
      { s with sites := s.sites ++ ((placementAt lines seen event).site? data).toList } := by
  have hnew : (placementAt lines seen event).new = event := Event.retext_of_none none
  have hsentence : (placementAt lines seen event).sentence? = Option.none := by
    simp [Placement.sentence?, placementAt, none]
  constructor
  · simp [reflects.consumed, textUnits, none]
  · have := reflects.copied
    simp only [List.flatMap_append, List.length_append]
    omega
  · -- Copying the event right away would write the same bytes as leaving it to wait.
    have written := reflects.copyThrough_out spelled event.bytes.length
    simp only [copyThrough, List.take_left] at written
    rw [emitted_append_singleton]
    simp only [List.flatMap_append, List.flatMap_singleton, List.length_append, hnew]
    exact written
  · rw [ofLines_append_singleton, Ledger.ofPlacements, List.filterMap_append]
    simp [reflects.ledger, Ledger.ofPlacements, hsentence]
  · rw [ofLines_append_singleton, List.filterMap_append, reflects.sites]
    cases h : (placementAt lines seen event).site? data <;> simp [h]

/-- A text is replaced behind everything before it, and recorded behind every text before it. -/
theorem Reflects.replace {unit : TextUnit} {line bytes : Bytes} {count : Nat} {after : Level}
    {finish : Nat} (reflects : Reflects data lines seen s)
    (trace : Trace .units 0 (seen ++ [event]) after finish)
    (spelled : data = seen.flatMap Event.bytes ++ (event.bytes ++ rest))
    (has : event.textUnit? = some unit) (hline : lines[s.consumed]? = some line)
    (hcount : count ≤ event.bytes.length)
    (hbytes : (event.withText (Line.replacement line)).bytes = event.bytes.take count ++ bytes) :
    Reflects data lines (seen ++ [event])
      ((s.copyThrough data ((seen.flatMap Event.bytes).length + count)).replace
        ((seen.flatMap Event.bytes).length + event.bytes.length) bytes
        { address := unit.textAddress
          oldLength := unit.text.length
          newLength := (Line.replacement line).length }) := by
  have hnew : (placementAt lines seen event).new = event.withText (Line.replacement line) := by
    rw [reflects.consumed] at hline
    have texts : (lines.map Line.replacement).drop (textUnits seen).length =
        Line.replacement line ::
          (lines.map Line.replacement).drop ((textUnits seen).length + 1) := by
      obtain ⟨bound, rfl⟩ := List.getElem?_eq_some_iff.mp hline
      rw [List.drop_eq_getElem_cons (by simpa using bound), List.getElem_map]
    simp only [placementAt, texts, Event.retext]
  have htext : (placementAt lines seen event).new.text? = some (Line.replacement line) := by
    rw [hnew, Event.text?_withText, Event.text?, has]
    rfl
  have hsentence : (placementAt lines seen event).sentence? = some
      { address := unit.textAddress
        oldLength := unit.text.length
        newLength := (Line.replacement line).length } := by
    rw [Placement.sentence?, htext]
    simp [placementAt, has]
  have hlast := placementAt_mem lines seen event []
  constructor
  · simp [Substitution.replace, copyThrough, reflects.consumed, textUnits, has]
  · simp [Substitution.replace]
  · have written := reflects.copyThrough_out spelled count
    rw [List.take_append_of_le_length hcount] at written
    rw [emitted_append_singleton]
    simp only [Substitution.replace, written, List.flatMap_append, List.flatMap_singleton,
      List.length_append, Nat.sub_self, List.take_zero, List.append_nil, hnew, hbytes,
      List.append_assoc]
  · -- Every text seen before belongs to an event that ends where this one starts, or earlier.
    have behind : ∀ t ∈ s.ledger.sentences, t.address < unit.textAddress := by
      rw [reflects.ledger]
      intro t ht
      obtain ⟨q, hq, recorded⟩ := List.mem_filterMap.mp ht
      have hq' : q ∈ Placement.ofLines lines (seen ++ [event]) := by
        rw [ofLines_append_singleton]
        simp [hq]
      have before := ((tiles_source 0 0 seen _).bounds hq).2
      rw [flatMap_old_placements, Nat.zero_add] at before
      exact address_lt_address trace hq' recorded hlast hsentence before
    have hrecord : s.ledger.record
        { address := unit.textAddress
          oldLength := unit.text.length
          newLength := (Line.replacement line).length } =
        { sentences := s.ledger.sentences ++
            ((placementAt lines seen event).sentence?).toList } := by
      rw [Ledger.record, Ledger.insert_of_forall_lt behind, hsentence]
      rfl
    rw [ofLines_append_singleton, Ledger.ofPlacements, List.filterMap_append]
    simp only [Substitution.replace, copyThrough, hrecord]
    rw [reflects.ledger]
    simp [Ledger.ofPlacements, hsentence]
  · have hsite : (placementAt lines seen event).site? data = none := by
      cases h : event.enrolled? data with
      | none => simp [Placement.site?, placementAt, h]
      | some word => simp [Event.textUnit?_of_enrolled h] at has
    rw [ofLines_append_singleton, List.filterMap_append]
    simp [Substitution.replace, copyThrough, reflects.sites, hsite]

/-! ## The walk of a substitution -/

/-- An event without text adds at most a jump site, and its bytes are copied later. -/
theorem Reflects.visitor_of_textless {after : Level} {finish : Nat}
    (reflects : Reflects data lines seen s) (trace : Trace .units 0 (seen ++ [event]) after finish)
    (spelled : data = seen.flatMap Event.bytes ++ rest) (none : event.textUnit? = none) :
    visitor data lines s event =
      ({ s with sites := s.sites ++ ((placementAt lines seen event).site? data).toList },
        Option.none) := by
  obtain ⟨before, behind, step⟩ := step_of_trace trace
  generalize hsource : (seen.flatMap Event.bytes).length = source at step
  cases step with
  | operand head argument operand known fits =>
    obtain ⟨tag, address, value⟩ := operand
    cases value with
    | int32 word =>
      by_cases found : (absoluteTarget? data word).isSome = true
      · have written := reflects.length_out spelled
        have copied := reflects.copied
        -- The bytes that still wait to be copied count for the address of the word.
        have target : s.outputAddress (address + 1) =
            (emitted lines seen).length + 1 := by
          simp only [outputAddress] at hsource ⊢
          omega
        simp [visitor, found, enrol, Operand.valueAddress, Placement.site?, placementAt,
          Event.enrolled?, Operand.enrolled?, hsource, target]
      · simp [visitor, found, Placement.site?, placementAt, Event.enrolled?, Operand.enrolled?]
    | string payload => simp [Event.textUnit?, Operand.textUnit?, Value.payload?] at none
    | _ => simp [visitor, Placement.site?, placementAt, Event.enrolled?, Operand.enrolled?]
  | text => simp [Event.textUnit?] at none
  | _ => simp [visitor, Placement.site?, placementAt, Event.enrolled?]

/-- An event with a text takes the next line, and the state then reflects it too. -/
theorem Reflects.visitor_of_text {unit : TextUnit} {line : Bytes} {after : Level} {finish : Nat}
    (reflects : Reflects data lines seen s) (trace : Trace .units 0 (seen ++ [event]) after finish)
    (spelled : data = seen.flatMap Event.bytes ++ (event.bytes ++ rest))
    (has : event.textUnit? = some unit) (hline : lines[s.consumed]? = some line) :
    ∃ next, visitor data lines s event = (next, none) ∧
      Reflects data lines (seen ++ [event]) next := by
  obtain ⟨before, behind, step⟩ := step_of_trace trace
  generalize hsource : (seen.flatMap Event.bytes).length = source at step
  cases step with
  | operand head argument operand known fits =>
    obtain ⟨tag, address, value⟩ := operand
    cases value with
    | string payload =>
      simp only [Event.textUnit?, Operand.textUnit?, Value.payload?, Option.map_some,
        Option.some.injEq] at has
      subst has
      refine ⟨s.replaceString data ⟨tag, address, .string payload⟩ payload (Line.replacement line),
        by simp [visitor, hline], ?_⟩
      -- The tag is copied, and the length is written anew together with the text.
      have spelling : (Event.withText (Line.replacement line)
            (.operand head argument ⟨tag, address, .string payload⟩)).bytes =
          (Event.operand head argument ⟨tag, address, .string payload⟩).bytes.take 1 ++
            (LittleEndian.encode 4 (Line.replacement line).length ++ Line.replacement line) := rfl
      have replaced := reflects.replace trace spelled rfl hline (by simp [Event.bytes]) spelling
      rw [hsource] at replaced
      simpa [replaceString, Operand.valueAddress, Operand.finish, Event.bytes, TextUnit.textAddress,
        TextUnit.text, Nat.add_assoc] using replaced
    | _ => simp [Event.textUnit?, Operand.textUnit?, Value.payload?] at has
  | text run nonempty bytes =>
    simp only [Event.textUnit?, Option.some.injEq] at has
    subst has
    refine ⟨s.replaceRun data run (Line.replacement line), by simp [visitor, hline], ?_⟩
    have spelling : (Event.withText (Line.replacement line) (.text run)).bytes =
        (Event.text run).bytes.take 0 ++ Line.replacement line := rfl
    have replaced := reflects.replace trace spelled rfl hline (Nat.zero_le _) spelling
    rw [hsource] at replaced
    exact replaced
  | _ => simp [Event.textUnit?] at has

/-- A text for which no line is left is refused, and the state stays. -/
theorem visitor_of_shortage {unit : TextUnit} (has : event.textUnit? = some unit)
    (hline : lines[s.consumed]? = none) :
    visitor data lines s event = (s, some { address := unit.address, consumed := s.consumed }) := by
  cases event with
  | operand head argument operand =>
    obtain ⟨tag, address, value⟩ := operand
    cases value with
    | string payload =>
      simp only [Event.textUnit?, Operand.textUnit?, Value.payload?, Option.map_some,
        Option.some.injEq] at has
      subst has
      simp [visitor, hline, TextUnit.address]
    | _ => simp [Event.textUnit?, Operand.textUnit?, Value.payload?] at has
  | text run =>
    simp only [Event.textUnit?, Option.some.injEq] at has
    subst has
    simp [visitor, hline, TextUnit.address]
  | _ => simp [Event.textUnit?] at has

/-- Whatever an event is, the substitution goes on to place it, as long as there are lines. -/
theorem Reflects.step {after : Level} {finish : Nat} (reflects : Reflects data lines seen s)
    (trace : Trace .units 0 (seen ++ [event]) after finish)
    (spelled : data = seen.flatMap Event.bytes ++ (event.bytes ++ rest))
    (enough : (textUnits (seen ++ [event])).length ≤ lines.length) :
    ∃ next, visitor data lines s event = (next, none) ∧
      Reflects data lines (seen ++ [event]) next := by
  cases has : event.textUnit? with
  | none => exact ⟨_, reflects.visitor_of_textless trace spelled has, reflects.textless spelled has⟩
  | some unit =>
    have inside : s.consumed < lines.length := by
      rw [textUnits_append, List.length_append, ← reflects.consumed] at enough
      simp only [textUnits, has, List.filterMap_cons, List.filterMap_nil, List.length_cons,
        List.length_nil] at enough
      omega
    exact reflects.visitor_of_text trace spelled has (List.getElem?_eq_getElem inside)

/-- With enough lines a substitution places every event that it is fed. -/
theorem Reflects.feed {events : List Event} {after : Level} {finish : Nat}
    (reflects : Reflects data lines seen s) (trace : Trace .units 0 (seen ++ events) after finish)
    (spelled : data = seen.flatMap Event.bytes ++ (events.flatMap Event.bytes ++ rest))
    (enough : (textUnits (seen ++ events)).length ≤ lines.length) :
    ∃ last, (visitor data lines).feed s events = (last, none) ∧
      Reflects data lines (seen ++ events) last := by
  induction events generalizing seen s with
  | nil => exact ⟨s, rfl, by rwa [List.append_nil]⟩
  | cons event events ih =>
    have split : seen ++ event :: events = (seen ++ [event]) ++ events := by simp
    rw [split] at trace enough ⊢
    obtain ⟨middle, stop, front⟩ := trace.front
    rw [List.flatMap_cons, List.append_assoc] at spelled
    have first : (textUnits (seen ++ [event])).length ≤ lines.length := by
      rw [textUnits_append, List.length_append] at enough
      omega
    obtain ⟨next, visited, reflects⟩ := reflects.step front spelled first
    obtain ⟨last, fed, reflects⟩ := ih reflects trace (by simpa using spelled) enough
    exact ⟨last, by rw [Visitor.feed, visited]; exact fed, reflects⟩

/-- With too few lines a substitution refuses the first text that has none. -/
theorem Reflects.feed_refuses {events : List Event} {after : Level} {finish : Nat}
    {unit : TextUnit} (reflects : Reflects data lines seen s)
    (trace : Trace .units 0 (seen ++ events) after finish)
    (spelled : data = seen.flatMap Event.bytes ++ (events.flatMap Event.bytes ++ rest))
    (possible : (textUnits seen).length ≤ lines.length)
    (short : (textUnits (seen ++ events))[lines.length]? = some unit) :
    ∃ last, (visitor data lines).feed s events =
      (last, some { address := unit.address, consumed := lines.length }) := by
  induction events generalizing seen s with
  | nil =>
    rw [List.append_nil, List.getElem?_eq_none possible] at short
    simp at short
  | cons event events ih =>
    have split : seen ++ event :: events = (seen ++ [event]) ++ events := by simp
    rw [split] at trace short
    obtain ⟨middle, stop, front⟩ := trace.front
    rw [List.flatMap_cons, List.append_assoc] at spelled
    by_cases enough : (textUnits (seen ++ [event])).length ≤ lines.length
    · obtain ⟨next, visited, reflects⟩ := reflects.step front spelled enough
      obtain ⟨last, fed⟩ := ih reflects trace (by simpa using spelled) enough short
      exact ⟨last, by rw [Visitor.feed, visited]; exact fed⟩
    · -- The event has a text, and the lines were all used before it.
      rw [textUnits_append, List.length_append] at enough
      cases has : event.textUnit? with
      | none =>
        have nothing : textUnits [event] = [] := by simp [textUnits, has]
        rw [nothing, List.length_nil] at enough
        omega
      | some found =>
        have single : textUnits [event] = [found] := by simp [textUnits, has]
        rw [single, List.length_singleton] at enough
        have used : s.consumed = lines.length := by
          rw [reflects.consumed]
          omega
        rw [textUnits_append, textUnits_append, single, ← used, reflects.consumed] at short
        simp only [List.append_assoc, List.getElem?_append_right (Nat.le_refl _), Nat.sub_self,
          List.cons_append, List.getElem?_cons_zero, Option.some.injEq] at short
        subst short
        have refused : visitor data lines s event = _ :=
          visitor_of_shortage has (List.getElem?_eq_none (Nat.le_of_eq used.symm))
        exact ⟨s, by rw [Visitor.feed, refused, used]⟩

/-- With enough lines a substitution walks a whole script and places all of it. -/
theorem run_of_transcript {events : List Event} (transcript : Transcript data events)
    (enough : (textUnits events).length ≤ lines.length) :
    ∃ last, run data lines = { state := last, stop := none } ∧
      last.finish data =
        { consumed := (textUnits events).length
          copied := data.length
          out := emitted lines events
          ledger := .ofPlacements (Placement.ofLines lines events)
          sites := (Placement.ofLines lines events).filterMap (Placement.site? data) } := by
  obtain ⟨last, fed, reflects⟩ := (reflects_start data lines).feed transcript.trace
    (by rw [transcript.bytes, List.append_nil, List.flatMap_nil, List.nil_append]) enough
  rw [List.nil_append] at reflects
  obtain ⟨hevents, sound⟩ := transcript_iff.mp transcript
  refine ⟨last, ?_, ?_⟩
  · rw [run, walk_eq_feed, hevents, fed, sound]
    rfl
  · have written := reflects.out
    rw [transcript.bytes] at written
    rw [Substitution.finish, copyThrough, written, reflects.consumed, reflects.ledger,
      reflects.sites]

/-- A walk to the end enrols the jumps of all placements, in order. -/
theorem sites_run {events : List Event} (transcript : Transcript data events)
    (enough : (textUnits events).length ≤ lines.length) :
    (run data lines).state.sites =
      (Placement.ofLines lines events).filterMap (Placement.site? data) := by
  obtain ⟨last, walked, finished⟩ := run_of_transcript transcript enough
  rw [walked]
  exact congrArg Substitution.sites finished

/-- Too few lines stop the walk at the first text that has none, whatever follows it. -/
theorem run_of_shortage {unit : TextUnit}
    (short : (textUnits (events data))[lines.length]? = some unit) :
    ∃ last, run data lines =
      { state := last
        stop := some (.refused { address := unit.address, consumed := lines.length }) } := by
  obtain ⟨after, finish, trace, -⟩ := trace_events data
  obtain ⟨rest, spelled⟩ := spelled_events data
  obtain ⟨last, fed⟩ : ∃ last, (visitor data lines).feed start (events data) =
      (last, some { address := unit.address, consumed := lines.length }) :=
    (reflects_start data lines).feed_refuses trace
      (by rwa [List.flatMap_nil, List.nil_append]) (Nat.zero_le _) short
  refine ⟨last, ?_⟩
  rw [run, walk_eq_feed, fed]

/-- With enough lines the walk stops where the bytes are no script. -/
theorem run_of_fault {fault : FormatError} (found : fault? data = some fault)
    (enough : (textUnits (events data)).length ≤ lines.length) :
    ∃ last, run data lines = { state := last, stop := some (.fault fault) } := by
  obtain ⟨after, finish, trace, -⟩ := trace_events data
  obtain ⟨rest, spelled⟩ := spelled_events data
  obtain ⟨last, fed, -⟩ : ∃ last, (visitor data lines).feed start (events data) = (last, none) ∧
      Reflects data lines (events data) last :=
    (reflects_start data lines).feed trace (by rwa [List.flatMap_nil, List.nil_append]) enough
  refine ⟨last, ?_⟩
  rw [run, walk_eq_feed, fed, found]
  rfl

/-- Only a whole script with a line for each of its texts is walked to its end. -/
theorem transcript_of_run (walked : (run data lines).stop = none) :
    Transcript data (events data) ∧ (textUnits (events data)).length ≤ lines.length := by
  by_cases enough : (textUnits (events data)).length ≤ lines.length
  · cases sound : fault? data with
    | none => exact ⟨transcript_iff.mpr ⟨rfl, sound⟩, enough⟩
    | some fault =>
      obtain ⟨last, stopped⟩ := run_of_fault sound enough
      simp [stopped] at walked
  · have short := List.getElem?_eq_getElem (Nat.lt_of_not_le enough)
    obtain ⟨last, stopped⟩ := run_of_shortage short
    simp [stopped] at walked

end Substitution

/-! ## Injections -/

/-- The outcome of putting lines into the script of some events. -/
def Injection.ofEvents (data : Bytes) (lines : List Bytes) (events : List Event) : Injection :=
  let placed := Placement.ofLines lines events
  { script := placed.flatMap fun p => (p.new.relocated data (.ofPlacements placed)).bytes
    ledger := .ofPlacements placed
    sites := placed.filterMap (Placement.site? data)
    warnings := surplusWarnings (lines.length - (textUnits events).length) }

/-- Whether every enrolled word of a script can store where its target has gone. -/
def Reachable (data : Bytes) (lines : List Bytes) (events : List Event) : Prop :=
  ∀ event ∈ events, ∀ word, event.enrolled? data = some word →
    IsWord ((Ledger.ofPlacements (Placement.ofLines lines events)).corrected word)

variable {data : Bytes} {lines : List Bytes} {events : List Event}

/-- A jump site is corrected as its enrolled word is. -/
theorem Placement.corrected_of_site {ledger : Ledger} {p : Placement} {site : JumpSite}
    (found : p.site? data = some site) :
    p.old.enrolled? data = some site.target ∧
      site.corrected ledger = ledger.corrected site.target := by
  obtain ⟨word, enrolled, rfl⟩ := Option.map_eq_some_iff.mp found
  obtain ⟨_, _, _, -, henrolled⟩ := Event.enrolled?_eq_some_iff.mp enrolled
  exact ⟨enrolled, JumpSite.corrected_eq (Operand.enrolled?_eq_some_iff.mp henrolled).2.1⟩

/-- All targets can be reached exactly when every site has a corrected target that fits. -/
theorem reachable_iff :
    Reachable data lines events ↔
      ∀ site ∈ (Placement.ofLines lines events).filterMap (Placement.site? data),
        IsWord (site.corrected (.ofPlacements (Placement.ofLines lines events))) := by
  have hevents := map_old_placements 0 0 events (lines.map Line.replacement)
  rw [Reachable]
  constructor
  · intro fits site hsite
    obtain ⟨p, member, found⟩ := List.mem_filterMap.mp hsite
    obtain ⟨enrolled, hcorrected⟩ := Placement.corrected_of_site found
    rw [hcorrected]
    refine fits p.old ?_ site.target enrolled
    rw [← hevents]
    exact List.mem_map_of_mem member
  · intro fits event member word enrolled
    rw [← hevents] at member
    obtain ⟨p, placed, rfl⟩ := List.mem_map.mp member
    have found : p.site? data = some ⟨p.target + 1, p.source + 1, word⟩ := by
      simp [Placement.site?, enrolled]
    rw [← (Placement.corrected_of_site found).2]
    exact fits _ (List.mem_filterMap.mpr ⟨p, placed, found⟩)

/-- With enough lines the outcome of an injection is that of relocating the placed events. -/
theorem inject_eq_of_transcript (transcript : Transcript data events)
    (enough : (textUnits events).length ≤ lines.length) :
    inject data lines =
      Substitution.relocated lines
        { consumed := (textUnits events).length
          copied := data.length
          out := emitted lines events
          ledger := .ofPlacements (Placement.ofLines lines events)
          sites := (Placement.ofLines lines events).filterMap (Placement.site? data) } := by
  obtain ⟨last, hrun, hlast⟩ := Substitution.run_of_transcript transcript enough
  rw [inject, hrun, ← hlast]
  rfl

/-- An injection with enough lines succeeds if all targets can be reached. -/
theorem inject_of_reachable (transcript : Transcript data events)
    (enough : (textUnits events).length ≤ lines.length) (reachable : Reachable data lines events) :
    inject data lines = .ok (.ofEvents data lines events) := by
  have members : ∀ p ∈ Placement.ofLines lines events, p.old ∈ events := by
    intro p member
    rw [← map_old_placements 0 0 events (lines.map Line.replacement)]
    exact List.mem_map_of_mem member
  have hrelocate := relocate_placements []
    (tiles_target 0 0 events (lines.map Line.replacement))
    (fun p member => exists_retext_of_mem _ _ _ _ member)
    (fun p member => reachable p.old (members p member))
  rw [List.nil_append, List.nil_append] at hrelocate
  rw [inject_eq_of_transcript transcript enough, Substitution.relocated]
  simp only [emitted, Placement.ofLines] at hrelocate ⊢
  rw [hrelocate]
  rfl

/-- The problem of an injection is that of its relocation. -/
theorem Substitution.relocated_eq_error_iff {s : Substitution} {problem : InjectError} :
    s.relocated lines = .error problem ↔ (relocate s.ledger s.sites s.out).2 = some problem := by
  rw [Substitution.relocated]
  split
  case h_1 found => rw [found, Except.error.injEq, Option.some.injEq]
  case h_2 found => simp [found]

/-- An injection with enough lines fails at a jump if some target cannot be reached. -/
theorem inject_of_not_reachable (transcript : Transcript data events)
    (enough : (textUnits events).length ≤ lines.length)
    (unreachable : ¬ Reachable data lines events) :
    ∃ site value, inject data lines = .error (.jumpOutOfRange site value) := by
  rw [inject_eq_of_transcript transcript enough]
  rw [reachable_iff, ← relocate_snd_eq_none_iff
    (emitted lines events)] at unreachable
  obtain ⟨problem, hproblem⟩ := Option.ne_none_iff_exists'.mp unreachable
  obtain ⟨_, site, _, -, -, -, rfl⟩ := relocate_snd_eq_some_iff.mp hproblem
  exact ⟨_, _, Substitution.relocated_eq_error_iff.mpr hproblem⟩

/-- An injection succeeds only on a script, with a line for each text unit. -/
theorem transcript_of_inject {out : Injection} (injected : inject data lines = .ok out) :
    Transcript data (NovelScript.events data) ∧
      (textUnits (NovelScript.events data)).length ≤ lines.length := by
  apply Substitution.transcript_of_run
  unfold inject Injection.ofWalk at injected
  split at injected
  case h_1 => simp at injected
  case h_2 => simp at injected
  case h_3 walked => exact walked

/-- An injection succeeds exactly on a whole script with a line for each of its texts and no jump
that would leave the range, and its outcome is read off the placed events. -/
theorem inject_eq_ok_iff {out : Injection} :
    inject data lines = .ok out ↔
      ∃ events, Transcript data events ∧ (textUnits events).length ≤ lines.length ∧
        Reachable data lines events ∧ out = .ofEvents data lines events := by
  constructor
  · intro injected
    obtain ⟨transcript, enough⟩ := transcript_of_inject injected
    by_cases reachable : Reachable data lines (events data)
    · rw [inject_of_reachable transcript enough reachable, Except.ok.injEq] at injected
      exact ⟨_, transcript, enough, reachable, injected.symm⟩
    · obtain ⟨site, value, failed⟩ := inject_of_not_reachable transcript enough reachable
      simp [failed] at injected
  · rintro ⟨events, transcript, enough, reachable, rfl⟩
    exact inject_of_reachable transcript enough reachable

/-- The placements tile the new script after jumps are corrected too. -/
theorem tiles_script (data : Bytes) (lines : List Bytes) (events : List Event) :
    Tiles Placement.target
      (fun p => (p.new.relocated data (.ofPlacements (Placement.ofLines lines events))).bytes) 0
      (Placement.ofLines lines events) := by
  apply (tiles_target 0 0 events (lines.map Line.replacement)).congr_length
  intro p _
  exact p.new.length_bytes_relocated

/-- What stands in the new script where an event was placed is the new event with its word
corrected. -/
theorem drop_script_of_mem (data : Bytes) {p : Placement}
    (member : p ∈ Placement.ofLines lines events) :
    ∃ rest, (Injection.ofEvents data lines events).script.drop p.target =
      (p.new.relocated data (.ofPlacements (Placement.ofLines lines events))).bytes ++ rest :=
  (tiles_script data lines events).drop_eq member

end NovelScript
