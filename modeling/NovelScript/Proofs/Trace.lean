import Mathlib.Data.List.TakeWhile
import NovelScript.Script.Walk

/-!
# What a walk reads

A walk of a script is a run of single readings, and each reading depends only on the level of the
cursor, its address and the bytes in front of it. This file says once, as a relation, what a reading
can be (`Event.Step`), and ties the cursor to it in both directions (`Cursor.next_step`,
`Cursor.next_of_step`).

A `Trace` is a run of such steps, with no bytes in it. A byte string is walked to its end along
exactly those traces whose events spell it (`transcript_iff`), and every visitor of a byte string is
fed the same events in the same order (`walk_eq_feed`). The later files never open the cursor again.
-/

set_option autoImplicit false

namespace NovelScript

/-- Whether an event is a run of raw text. -/
def Event.isText : Event → Bool
  | text _ => true
  | _ => false

/-- What can be read at a level and an address: an event, and the level after it. -/
inductive Event.Step : Level → Nat → Event → Level → Prop
  | terminator (address : Nat) : Step .units address (.terminator address) .units
  | instructionStart (head : InstructionHead) :
    Step .units head.address (.instructionStart head) (.arguments head 0)
  | text (run : TextRun) (nonempty : run.bytes ≠ [])
    (bytes : ∀ b ∈ run.bytes, NovelScript.isText b = true) :
    Step .units run.address (.text run) .units
  | argumentStart (head : InstructionHead) (argument : ArgumentHead) (count : Nat)
    (id : argument.id ≠ listEnd) (ordinal : argument.ordinal = count + 1) :
    Step (.arguments head count) argument.address (.argumentStart argument)
      (.operands head argument)
  | instructionEnd (head : InstructionHead) (count address : Nat) :
    Step (.arguments head count) address (.instructionEnd head (address + 1)) .units
  | operand (head : InstructionHead) (argument : ArgumentHead) (operand : Operand)
    (known : Shape.ofTag? operand.tag = some operand.value.shape) (fits : operand.value.Fits) :
    Step (.operands head argument) operand.address (.operand head argument operand)
      (.operands head argument)
  | argumentEnd (head : InstructionHead) (argument : ArgumentHead) (address : Nat) :
    Step (.operands head argument) address (.argumentEnd argument)
      (.arguments head argument.ordinal)

namespace Event.Step

variable {level after : Level} {address : Nat} {event : Event}

/-- Every event takes up bytes. -/
theorem length_bytes_pos (step : event.Step level address after) : 0 < event.bytes.length := by
  cases step with
  | text run nonempty _ => exact List.length_pos_iff.mpr nonempty
  | _ => simp [Event.bytes, InstructionHead.bytes, Operand.bytes]

/-- The first byte of an event between units tells whether it is raw text. -/
theorem isText_head (step : event.Step .units address after) (rest : Bytes) :
    ∃ first more, event.bytes ++ rest = first :: more ∧
      NovelScript.isText first = event.isText := by
  cases step with
  | terminator => exact ⟨terminatorTag, rest, rfl, rfl⟩
  | instructionStart head => exact ⟨instructionTag, _, rfl, rfl⟩
  | text run nonempty bytes =>
    obtain ⟨first, more, spelled⟩ := List.exists_cons_of_ne_nil nonempty
    refine ⟨first, more ++ rest, by simp [Event.bytes, spelled], ?_⟩
    exact bytes first (by simp [spelled])

/-- Behind raw text there are units again. -/
theorem after_of_isText (step : event.Step level address after) (isRun : event.isText = true) :
    after = .units := by
  cases step with
  | text => rfl
  | _ => simp [Event.isText] at isRun

end Event.Step

/-! ## One reading -/

namespace Cursor

/-- A reading between units is a step, and a run of raw text is read to its end. -/
theorem nextUnit_step {address : Nat} {bytes : Bytes} {event : Event} {after : Cursor}
    (h : nextUnit address bytes = .ok (event, after)) :
    event.Step .units address after.level ∧
      (event.isText = true → ∀ b ∈ after.rest.head?, isText b = false) := by
  cases bytes with
  | nil => simp [nextUnit] at h
  | cons tag rest =>
    rw [nextUnit] at h
    split at h
    case isTrue =>
      simp only [Except.ok.injEq, Prod.mk.injEq] at h
      obtain ⟨rfl, rfl⟩ := h
      exact ⟨.terminator address, by simp [Event.isText]⟩
    case isFalse =>
      split at h
      case isTrue =>
        split at h
        case h_1 => simp at h
        case h_2 word _ _ =>
          simp only [Except.ok.injEq, Prod.mk.injEq] at h
          obtain ⟨rfl, rfl⟩ := h
          let head : InstructionHead :=
            { address, executor := UInt16.ofNat (LittleEndian.decode word) }
          exact ⟨.instructionStart head, by simp [Event.isText]⟩
      case isFalse =>
        split at h
        case isFalse => simp at h
        case isTrue isTag =>
          simp only [Except.ok.injEq, Prod.mk.injEq] at h
          obtain ⟨rfl, rfl⟩ := h
          refine ⟨.text { address, bytes := tag :: rest.takeWhile isText } (by simp) ?_, ?_⟩
          · intro b hb
            rcases List.mem_cons.mp hb with rfl | hb
            · exact isTag
            · exact List.mem_takeWhile_imp hb
          · intro _ b hb
            have h := List.head?_dropWhile_not isText rest
            simp_all

/-- In an argument list, a reading is a step, and never raw text. -/
theorem nextArgument_step {head : InstructionHead} {count address : Nat} {bytes : Bytes}
    {event : Event} {after : Cursor}
    (h : nextArgument head count address bytes = .ok (event, after)) :
    event.Step (.arguments head count) address after.level ∧ event.isText = false := by
  cases bytes with
  | nil => simp [nextArgument] at h
  | cons id rest =>
    rw [nextArgument] at h
    split at h
    case isTrue =>
      simp only [Except.ok.injEq, Prod.mk.injEq] at h
      obtain ⟨rfl, rfl⟩ := h
      exact ⟨.instructionEnd head count address, rfl⟩
    case isFalse isId =>
      simp only [Except.ok.injEq, Prod.mk.injEq] at h
      obtain ⟨rfl, rfl⟩ := h
      let argument : ArgumentHead := { address, id, ordinal := count + 1 }
      exact ⟨.argumentStart head argument count isId rfl, rfl⟩

/-- In an operand list, a reading is a step, and never raw text. -/
theorem nextOperand_step {head : InstructionHead} {argument : ArgumentHead} {address : Nat}
    {bytes : Bytes} {event : Event} {after : Cursor}
    (h : nextOperand head argument address bytes = .ok (event, after)) :
    event.Step (.operands head argument) address after.level ∧ event.isText = false := by
  cases bytes with
  | nil => simp [nextOperand] at h
  | cons tag rest =>
    rw [nextOperand] at h
    split at h
    case isTrue =>
      simp only [Except.ok.injEq, Prod.mk.injEq] at h
      obtain ⟨rfl, rfl⟩ := h
      exact ⟨.argumentEnd head argument address, rfl⟩
    case isFalse =>
      split at h
      case h_1 => simp at h
      case h_2 shape known =>
        split at h
        case h_1 => simp at h
        case h_2 value last taken =>
          simp only [Except.ok.injEq, Prod.mk.injEq] at h
          obtain ⟨rfl, rfl⟩ := h
          obtain ⟨-, rfl, fits⟩ := Value.read_eq_ok taken
          exact ⟨.operand head argument { tag, address, value } known fits, rfl⟩

/-- A reading is a step, and a run of raw text is read to its end. -/
theorem next_step {cursor after : Cursor} {event : Event} (h : cursor.next = .ok (event, after)) :
    event.Step cursor.level cursor.address after.level ∧
      (event.isText = true → ∀ b ∈ after.rest.head?, isText b = false) := by
  unfold next at h
  split at h
  case h_1 level => exact level ▸ nextUnit_step h
  case h_2 level =>
    obtain ⟨step, notText⟩ := nextArgument_step h
    exact ⟨level ▸ step, by simp [notText]⟩
  case h_3 level =>
    obtain ⟨step, notText⟩ := nextOperand_step h
    exact ⟨level ▸ step, by simp [notText]⟩

/-- An operand is read where the cursor stands. Its value is read behind the tag, at `valueAddress`, in
the shape that the tag announces, and the cursor is left at `finish`. -/
theorem next_operand {cursor after : Cursor} {head : InstructionHead} {argument : ArgumentHead}
    {operand : Operand} (h : cursor.next = .ok (.operand head argument operand, after)) :
    operand.address = cursor.address ∧ Shape.ofTag? operand.tag = some operand.shape ∧
      Value.read operand.shape operand.valueAddress cursor.rest.tail =
        .ok (operand.value, after.rest) ∧
      after.address = operand.finish := by
  obtain ⟨spelled, finish, -⟩ := next_eq_ok h
  obtain ⟨step, -⟩ := next_step h
  generalize cursor.level = level, after.level = next, cursor.address = address at step finish
  cases step with
  | operand _ _ _ known fits =>
    refine ⟨rfl, known, ?_, ?_⟩
    · rw [spelled, Event.bytes, Operand.bytes, List.cons_append, List.tail_cons]
      exact Value.read_bytes fits operand.valueAddress after.rest
    · rw [finish, Event.bytes, Operand.length_bytes, Operand.finish, Nat.add_assoc]

/-- The byte that closes a list is not in the table of tags. -/
theorem ne_listEnd_of_ofTag? {tag : UInt8} {shape : Shape} (known : Shape.ofTag? tag = some shape) :
    tag ≠ listEnd := by
  rintro rfl
  have closed : Shape.ofTag? listEnd = none := by decide
  simp [closed] at known

/-- Every step is read from the bytes of its event, whatever follows them; behind a run of raw text
that must not be more text. -/
theorem next_of_step {level after : Level} {address : Nat} {event : Event}
    (step : event.Step level address after) {rest : Bytes}
    (apart : event.isText = true → ∀ b ∈ rest.head?, isText b = false) :
    next { address, rest := event.bytes ++ rest, level } =
      .ok (event, { address := address + event.bytes.length, rest, level := after }) := by
  cases step with
  | terminator => rfl
  | instructionStart head =>
    have word : UInt16.ofNat (LittleEndian.decode (LittleEndian.encode 2 head.executor.toNat)) =
        head.executor := by
      have small : head.executor.toNat < LittleEndian.capacity 2 := head.executor.toNat_lt
      rw [LittleEndian.decode_encode_of_lt small, UInt16.ofNat_toNat]
    have tags : instructionTag ≠ terminatorTag := by decide
    simp only [next, Event.bytes, InstructionHead.bytes, List.cons_append, nextUnit, tags,
      if_false, if_true, takeBytes_append (LittleEndian.length_encode 2 head.executor.toNat), word,
      List.length_cons, LittleEndian.length_encode]
  | text run nonempty bytes =>
    obtain ⟨first, more, spelled⟩ := List.exists_cons_of_ne_nil nonempty
    have hfirst : isText first = true := bytes first (by simp [spelled])
    have hmore : ∀ b ∈ more, isText b = true := fun b hb => bytes b (by simp [spelled, hb])
    -- What follows is no text, so the run is read up to its old end and no further.
    have hstop : rest.takeWhile isText = [] ∧ rest.dropWhile isText = rest := by
      cases rest with
      | nil => exact ⟨rfl, rfl⟩
      | cons b rest =>
        have hb : isText b = false := apart rfl b rfl
        simp [hb]
    have notTerminator : first ≠ terminatorTag := by
      rintro rfl
      revert hfirst
      decide
    have notInstruction : first ≠ instructionTag := by
      rintro rfl
      revert hfirst
      decide
    simp only [next, Event.bytes, spelled, List.cons_append, nextUnit, notTerminator,
      notInstruction, hfirst, if_false, if_true, List.takeWhile_append_of_pos hmore,
      List.dropWhile_append_of_pos hmore, hstop, List.append_nil]
    obtain ⟨address, bytes⟩ := run
    simp_all [TextRun.finish]
  | argumentStart head argument count id ordinal =>
    simp only [next, Event.bytes, List.cons_append, List.nil_append, nextArgument, id, if_false,
      ← ordinal, List.length_cons, List.length_nil]
  | instructionEnd => rfl
  | operand head argument operand known fits =>
    have notEnd := ne_listEnd_of_ofTag? known
    simp only [next, Event.bytes, Operand.bytes, List.cons_append, nextOperand, notEnd, if_false,
      known, Value.read_bytes fits, Operand.finish, List.length_cons, Value.length_bytes]
    simp [Nat.add_assoc, Nat.add_comm]
  | argumentEnd => rfl

end Cursor

/-! ## Runs of readings -/

/-- A run of readings from one cursor to another. -/
inductive Cursor.Reads : Cursor → List Event → Cursor → Prop
  | nil (cursor : Cursor) : Reads cursor [] cursor
  | cons {cursor middle after : Cursor} {event : Event} {events : List Event}
    (read : cursor.next = .ok (event, middle)) (rest : Reads middle events after) :
    Reads cursor (event :: events) after

/-- Whether an event may stand in front of others: no run of raw text touches another one. -/
def Event.Apart (event : Event) (events : List Event) : Prop :=
  event.isText = true → ∀ next ∈ events.head?, next.isText = false

/-- Only a run of raw text has to be kept apart from what follows. -/
theorem Event.apart_of_not_isText {event : Event} (other : event.isText = false)
    (events : List Event) : event.Apart events := by
  intro isRun
  simp [other] at isRun

/-- A run of steps from a level and an address to others. -/
inductive Trace : Level → Nat → List Event → Level → Nat → Prop
  | nil (level : Level) (address : Nat) : Trace level address [] level address
  | cons {level middle after : Level} {address finish : Nat} {event : Event} {events : List Event}
    (step : event.Step level address middle) (apart : event.Apart events)
    (rest : Trace middle (address + event.bytes.length) events after finish) :
    Trace level address (event :: events) after finish

/-- The events of a whole script: a trace from unit to unit that spells its bytes. -/
structure Transcript (data : Bytes) (events : List Event) : Prop where
  /-- The events follow each other as those of a script do. -/
  trace : Trace .units 0 events .units data.length
  /-- The events stand for the bytes of the script. -/
  bytes : events.flatMap Event.bytes = data

/-- A run of steps ends behind the bytes of its events. -/
theorem Trace.finish_eq {level after : Level} {address finish : Nat} {events : List Event}
    (trace : Trace level address events after finish) :
    finish = address + (events.flatMap Event.bytes).length := by
  induction trace with
  | nil => simp
  | cons step apart rest ih =>
    rw [ih, List.flatMap_cons, List.length_append]
    omega

/-- Every event of a run was a step somewhere. -/
theorem Trace.exists_step {level after : Level} {address finish : Nat} {events : List Event}
    (trace : Trace level address events after finish) {event : Event} (member : event ∈ events) :
    ∃ before start behind, event.Step before start behind := by
  induction trace with
  | nil => simp at member
  | cons step apart rest ih =>
    rcases List.mem_cons.mp member with rfl | member
    · exact ⟨_, _, _, step⟩
    · exact ih member

namespace Cursor

variable {cursor after : Cursor} {events : List Event}

/-- A run of readings takes off the bytes of its events. -/
theorem Reads.rest_eq (reads : cursor.Reads events after) :
    cursor.rest = events.flatMap Event.bytes ++ after.rest := by
  induction reads with
  | nil => rfl
  | cons read rest ih =>
    rw [(next_eq_ok read).1, ih, List.flatMap_cons, List.append_assoc]

/-- A run of readings is a run of steps. -/
theorem Reads.trace (reads : cursor.Reads events after) :
    Trace cursor.level cursor.address events after.level after.address := by
  induction reads with
  | nil cursor => exact .nil cursor.level cursor.address
  | @cons cursor middle after event events read rest ih =>
    obtain ⟨step, longest⟩ := next_step read
    rw [(next_eq_ok read).2.1] at ih
    refine .cons step ?_ ih
    -- A second run right behind the first would have been read as part of it.
    intro isRun next hnext
    cases rest with
    | nil => simp at hnext
    | cons readNext rest =>
      simp only [List.head?_cons, Option.mem_def, Option.some.injEq] at hnext
      subst hnext
      obtain ⟨nextStep, -⟩ := next_step readNext
      rw [step.after_of_isText isRun] at nextStep
      obtain ⟨first, more, spelled, sort⟩ := nextStep.isText_head _
      rw [← sort]
      apply longest isRun first
      rw [(next_eq_ok readNext).1, spelled]
      rfl

/-- A run of raw text that comes last ends between units, in front of a byte that is no text. -/
theorem Reads.longest (reads : cursor.Reads events after) :
    ∀ last ∈ events.getLast?, last.isText = true →
      after.level = .units ∧ ∀ b ∈ after.rest.head?, isText b = false := by
  induction reads with
  | nil => simp
  | @cons cursor middle after event events read more ih =>
    intro last member isRun
    cases more with
    | nil =>
      obtain rfl : event = last := Option.some.inj member
      obtain ⟨step, longest⟩ := next_step read
      exact ⟨step.after_of_isText isRun, longest isRun⟩
    | cons =>
      rw [List.getLast?_cons_cons] at member
      exact ih last member isRun

/-- A trace is read from the bytes that its events stand for, whatever follows them; behind a run of
raw text that must not be more text. -/
theorem reads_of_trace_append {level after : Level} {address finish : Nat}
    (trace : Trace level address events after finish) (rest : Bytes)
    (apart : ∀ last ∈ events.getLast?, last.isText = true → ∀ b ∈ rest.head?, isText b = false) :
    Reads { address, rest := events.flatMap Event.bytes ++ rest, level } events
      { address := finish, rest, level := after } := by
  induction trace with
  | nil level address => exact .nil _
  | @cons level middle after address finish event events step ahead more ih =>
    rw [List.flatMap_cons, List.append_assoc]
    refine .cons (next_of_step step ?_) (ih ?_)
    · intro isRun b hb
      cases more with
      | nil => exact apart event rfl isRun b hb
      | cons nextStep _ _ =>
        rw [step.after_of_isText isRun] at nextStep
        rw [List.flatMap_cons, List.append_assoc] at hb
        obtain ⟨first, tail, spelled, sort⟩ :=
          nextStep.isText_head (List.flatMap Event.bytes _ ++ rest)
        rw [spelled, List.head?_cons, Option.mem_def, Option.some.injEq] at hb
        subst hb
        rw [sort]
        exact ahead isRun _ rfl
    · intro last member
      apply apart last
      rw [List.getLast?_cons, Option.mem_def.mp member]
      rfl

/-- A trace that ends between units is read from the bytes that its events stand for. -/
theorem reads_of_trace {level : Level} {address finish : Nat}
    (trace : Trace level address events .units finish) :
    Reads { address, rest := events.flatMap Event.bytes, level } events
      { address := finish, rest := [], level := .units } := by
  have reads := reads_of_trace_append trace [] (by simp)
  rwa [List.append_nil] at reads

/-- Where an event can be read, the script does not end. -/
theorem isDone_eq_false_of_next {event : Event} (read : cursor.next = .ok (event, after)) :
    cursor.isDone = false := by
  have shorter := length_rest_lt read
  cases h : cursor.rest with
  | nil => simp [h] at shorter
  | cons => simp [isDone, h]

/-- From every cursor readings go on to the end of the script or to a fault. -/
theorem exists_reads (cursor : Cursor) :
    ∃ events after, cursor.Reads events after ∧
      (after.isDone = true ∨ after.isDone = false ∧ ∃ fault, after.next = .error fault) := by
  -- Every reading leaves fewer bytes, so the induction is on how many there are.
  generalize hn : cursor.rest.length = n
  induction n using Nat.strongRecOn generalizing cursor with
  | ind n ih =>
    cases done : cursor.isDone with
    | true => exact ⟨[], cursor, .nil cursor, .inl done⟩
    | false =>
      cases read : cursor.next with
      | error fault => exact ⟨[], cursor, .nil cursor, .inr ⟨done, fault, read⟩⟩
      | ok found =>
        obtain ⟨event, middle⟩ := found
        have shorter := length_rest_lt read
        rw [hn] at shorter
        obtain ⟨events, after, reads, stop⟩ := ih _ shorter middle rfl
        exact ⟨event :: events, after, .cons read reads, stop⟩

end Cursor

/-! ## Visitors -/

variable {σ ε : Type}

/-- Feeds events to a visitor, up to the first that it refuses. -/
def Visitor.feed (visit : Visitor σ ε) : σ → List Event → σ × Option ε
  | state, [] => (state, none)
  | state, event :: events =>
    match visit state event with
    | (state, some reason) => (state, some reason)
    | (state, none) => feed visit state events

/-- A walk along readings that are not refused goes on behind them. -/
theorem Cursor.Reads.walk_eq {cursor after : Cursor} {events : List Event} {visit : Visitor σ ε}
    {state last : σ} (reads : cursor.Reads events after)
    (fed : visit.feed state events = (last, none)) :
    cursor.walk visit state = after.walk visit last := by
  induction reads generalizing state with
  | nil cursor =>
    simp only [Visitor.feed, Prod.mk.injEq, and_true] at fed
    rw [fed]
  | @cons cursor middle after event events read rest ih =>
    rw [walk_of_next_eq_ok (isDone_eq_false_of_next read) read]
    unfold Visitor.feed at fed
    rcases hvisit : visit state event with ⟨state', _ | reason⟩
    · rw [hvisit] at fed
      exact ih fed
    · simp [hvisit] at fed

/-- A walk ends at the event that its visitor refuses, whatever could be read behind it. -/
theorem Cursor.Reads.walk_eq_refused {cursor after : Cursor} {events : List Event}
    {visit : Visitor σ ε} {state last : σ} {reason : ε} (reads : cursor.Reads events after)
    (fed : visit.feed state events = (last, some reason)) :
    cursor.walk visit state = { state := last, stop := some (.refused reason) } := by
  induction reads generalizing state with
  | nil cursor => simp [Visitor.feed] at fed
  | @cons cursor middle after event events read rest ih =>
    rw [walk_of_next_eq_ok (isDone_eq_false_of_next read) read]
    unfold Visitor.feed at fed
    rcases hvisit : visit state event with ⟨state', _ | reason'⟩
    · rw [hvisit] at fed
      exact ih fed
    · simp only [hvisit, Prod.mk.injEq, Option.some.injEq] at fed
      obtain ⟨rfl, rfl⟩ := fed
      rfl

/-- A visitor that refused nothing goes on with the events that follow. -/
theorem Visitor.feed_append {visit : Visitor σ ε} {state before : σ} {front : List Event}
    (fed : visit.feed state front = (before, none)) (more : List Event) :
    visit.feed state (front ++ more) = visit.feed before more := by
  induction front generalizing state with
  | nil =>
    simp only [Visitor.feed, Prod.mk.injEq, and_true] at fed
    rw [List.nil_append, fed]
  | cons first front ih =>
    rw [List.cons_append, Visitor.feed]
    rw [Visitor.feed] at fed
    rcases visited : visit state first with ⟨next, _ | reason⟩
    · rw [visited] at fed
      exact ih fed
    · simp [visited] at fed

/-- The recorder keeps every event, the latest first. -/
theorem Visitor.feed_recorder (seen events : List Event) :
    Visitor.recorder.feed seen events = (events.reverse ++ seen, none) := by
  induction events generalizing seen with
  | nil => rfl
  | cons event events ih => simp [Visitor.feed, Visitor.recorder, ih]

/-- The silent visitor refuses nothing. -/
theorem Visitor.feed_silent (events : List Event) : Visitor.silent.feed () events = ((), none) := by
  induction events with
  | nil => rfl
  | cons event events ih => simp [Visitor.feed, Visitor.silent, ih]

section Readings

variable {data : Bytes} {read : List Event} {after : Cursor}

/-- A byte string that is read to its end has no fault. -/
theorem fault?_eq_none_of_reads (reads : (Cursor.start data).Reads read after)
    (done : after.isDone = true) : fault? data = none := by
  rw [fault?, walk, reads.walk_eq (Visitor.feed_silent read), Cursor.walk_of_isDone done]

/-- The fault of a byte string is the one at which reading stops. -/
theorem fault?_eq_some_of_reads {fault : FormatError} (reads : (Cursor.start data).Reads read after)
    (more : after.isDone = false) (failed : after.next = .error fault) :
    fault? data = some fault := by
  rw [fault?, walk, reads.walk_eq (Visitor.feed_silent read),
    Cursor.walk_of_next_eq_error more failed]

/-- The events of a byte string are those that are read up to its end or its fault. -/
theorem events_eq_of_reads (reads : (Cursor.start data).Reads read after)
    (stop : after.isDone = true ∨ after.isDone = false ∧ ∃ fault, after.next = .error fault) :
    events data = read := by
  rw [events, walk, reads.walk_eq (Visitor.feed_recorder [] read)]
  rcases stop with done | ⟨more, fault, failed⟩
  · simp [Cursor.walk_of_isDone done]
  · simp [Cursor.walk_of_next_eq_error more failed]

end Readings

/-- The events of a byte string are what is read from its start, up to its end or its first
fault. -/
theorem reads_events (data : Bytes) :
    ∃ after, (Cursor.start data).Reads (events data) after ∧
      (after.isDone = true ∧ fault? data = none ∨
        after.isDone = false ∧ ∃ fault, after.next = .error fault ∧ fault? data = some fault) := by
  obtain ⟨read, after, reads, stop⟩ := (Cursor.start data).exists_reads
  rw [events_eq_of_reads reads stop]
  refine ⟨after, reads, ?_⟩
  rcases stop with done | ⟨more, fault, failed⟩
  · exact .inl ⟨done, fault?_eq_none_of_reads reads done⟩
  · exact .inr ⟨more, fault, failed, fault?_eq_some_of_reads reads more failed⟩

/-- The events of any byte string are a run of steps, which ends between units if there is no fault.
-/
theorem trace_events (data : Bytes) :
    ∃ after finish, Trace .units 0 (events data) after finish ∧
      (fault? data = none → after = .units) := by
  obtain ⟨after, reads, stop⟩ := reads_events data
  refine ⟨after.level, after.address, reads.trace, ?_⟩
  intro sound
  rcases stop with ⟨done, -⟩ | ⟨-, fault, -, found⟩
  · simp only [Cursor.isDone, Bool.and_eq_true, decide_eq_true_eq] at done
    exact done.1
  · simp [sound] at found

/-- The events of a byte string spell its front, up to its end or its first fault. -/
theorem spelled_events (data : Bytes) :
    ∃ rest, data = (events data).flatMap Event.bytes ++ rest := by
  obtain ⟨after, reads, -⟩ := reads_events data
  exact ⟨after.rest, reads.rest_eq⟩

/-- Every visitor is fed the events of the byte string in order, and a fault is found only when no
event before it was refused. -/
theorem walk_eq_feed (visit : Visitor σ ε) (state : σ) (data : Bytes) :
    walk visit state data =
      match visit.feed state (events data) with
      | (last, some reason) => { state := last, stop := some (.refused reason) }
      | (last, none) => { state := last, stop := (fault? data).map .fault } := by
  obtain ⟨after, reads, stop⟩ := reads_events data
  rcases fed : visit.feed state (events data) with ⟨last, _ | reason⟩
  · simp only [walk, reads.walk_eq fed]
    rcases stop with ⟨done, none⟩ | ⟨more, fault, failed, some⟩
    · rw [Cursor.walk_of_isDone done, none]
      rfl
    · rw [Cursor.walk_of_next_eq_error more failed, some]
      rfl
  · simp only [walk, reads.walk_eq_refused fed]

/-- The whole scripts are the byte strings without a fault, and each has one transcript. -/
theorem transcript_iff {data : Bytes} {read : List Event} :
    Transcript data read ↔ events data = read ∧ fault? data = none := by
  constructor
  · rintro ⟨trace, spelled⟩
    have reads := Cursor.reads_of_trace trace
    rw [spelled] at reads
    exact ⟨events_eq_of_reads reads (.inl rfl), fault?_eq_none_of_reads reads rfl⟩
  · rintro ⟨rfl, sound⟩
    obtain ⟨after, reads, ⟨done, -⟩ | ⟨-, fault, -, found⟩⟩ := reads_events data
    · simp only [Cursor.isDone, Bool.and_eq_true, decide_eq_true_eq, List.isEmpty_iff] at done
      have spelled := reads.rest_eq
      have trace := reads.trace
      rw [done.2, List.append_nil] at spelled
      have finish : after.address = data.length := by
        rw [trace.finish_eq, ← spelled]
        simp [Cursor.start]
      rw [done.1, finish] at trace
      exact ⟨trace, spelled.symm⟩
    · simp [sound] at found

end NovelScript
