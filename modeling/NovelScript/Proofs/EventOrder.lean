import Mathlib.Computability.RegularExpressions
import NovelScript.Proofs.Assembly

/-!
# One walk for every visitor

A byte string has one sequence of events, and every visitor is given these events in order: all of
them, or those up to and including the first that it refuses. Only a visitor that refuses nothing
gets to hear of a fault of the byte string.

In which order kinds of events can come is a regular expression (`EventKind.script`). Each level of
the nesting has one of its own, which describes what has been read when a cursor stands there; a
step leads from the words of its level to those of the next (`mem_grammar_of_step`). So the events
of a byte string always start a word of the whole expression, and are one when there is no fault.

`walk_of_any_visitor` puts this together with the tree that decoding builds out of the same events.
-/

set_option autoImplicit false

namespace NovelScript

/-! ## The order of events -/

/-- What an event is, without what it says. -/
inductive EventKind
  | terminator
  | text
  | instructionStart
  | argumentStart
  | operand
  | argumentEnd
  | instructionEnd
  deriving DecidableEq

/-- What an event is, whatever it says. -/
def Event.kind : Event → EventKind
  | terminator _ => .terminator
  | instructionStart _ => .instructionStart
  | argumentStart _ => .argumentStart
  | operand .. => .operand
  | argumentEnd _ => .argumentEnd
  | instructionEnd .. => .instructionEnd
  | text _ => .text

namespace EventKind

open RegularExpression (char)

/-- The start of an argument and its operands. -/
def openArgument : RegularExpression EventKind :=
  char .argumentStart * (char .operand).star

/-- A whole argument. -/
def argument : RegularExpression EventKind :=
  openArgument * char .argumentEnd

/-- The start of an instruction and its arguments. -/
def openInstruction : RegularExpression EventKind :=
  char .instructionStart * argument.star

/-- A whole instruction. -/
def instruction : RegularExpression EventKind :=
  openInstruction * char .instructionEnd

/-- One unit of a script. -/
def unit : RegularExpression EventKind :=
  char .terminator + char .text + instruction

/-- The events of a whole script. -/
def script : RegularExpression EventKind :=
  unit.star

end EventKind

open EventKind

/-- What has been read when a cursor stands at a level. -/
def Level.grammar : Level → RegularExpression EventKind
  | units => script
  | arguments .. => script * openInstruction
  | operands .. => script * (openInstruction * openArgument)

section Words

variable {level after : Level} {address finish : Nat} {event : Event} {events : List Event}
  {word : List EventKind}

/-- A repetition goes on with one more word. -/
theorem append_mem_star {p : RegularExpression EventKind} {front back : List EventKind}
    (hfront : front ∈ p.star.matches') (hback : back ∈ p.matches') :
    front ++ back ∈ p.star.matches' := by
  rw [RegularExpression.matches'_star, Language.mem_kstar] at hfront ⊢
  obtain ⟨words, rfl, members⟩ := hfront
  refine ⟨words ++ [back], by simp, ?_⟩
  intro w member
  rcases List.mem_append.mp member with early | last
  · exact members w early
  · rw [List.mem_singleton.mp last]
    exact hback

/-- The events of a script go on with those of one more unit. -/
theorem mem_script_append {front back : List EventKind} (hfront : front ∈ script.matches')
    (hback : back ∈ EventKind.unit.matches') : front ++ back ∈ script.matches' :=
  append_mem_star hfront hback

/-- A step leads from the words of its level to those of the next one. -/
theorem mem_grammar_of_step (step : event.Step level address after)
    (read : word ∈ level.grammar.matches') : word ++ [event.kind] ∈ after.grammar.matches' := by
  cases step with
  | terminator => exact mem_script_append read (.inl (.inl rfl))
  | text => exact mem_script_append read (.inl (.inr rfl))
  | instructionStart head =>
    apply Language.append_mem_mul read
    rw [← List.append_nil [_]]
    exact Language.append_mem_mul rfl (Language.nil_mem_kstar _)
  | argumentStart head argument count =>
    obtain ⟨units, hunits, opened, hopened, rfl⟩ := Language.mem_mul.mp read
    rw [List.append_assoc]
    apply Language.append_mem_mul hunits
    apply Language.append_mem_mul hopened
    rw [← List.append_nil [_]]
    exact Language.append_mem_mul rfl (Language.nil_mem_kstar _)
  | instructionEnd head count =>
    obtain ⟨units, hunits, opened, hopened, rfl⟩ := Language.mem_mul.mp read
    rw [List.append_assoc]
    apply mem_script_append hunits
    exact .inr (Language.append_mem_mul hopened rfl)
  | operand head argument operand =>
    obtain ⟨units, hunits, _, inside, rfl⟩ := Language.mem_mul.mp read
    obtain ⟨opened, hopened, _, latest, rfl⟩ := Language.mem_mul.mp inside
    obtain ⟨start, hstart, operands, hoperands, rfl⟩ := Language.mem_mul.mp latest
    simp only [List.append_assoc]
    apply Language.append_mem_mul hunits
    apply Language.append_mem_mul hopened
    apply Language.append_mem_mul hstart
    exact append_mem_star hoperands rfl
  | argumentEnd head argument =>
    obtain ⟨units, hunits, _, inside, rfl⟩ := Language.mem_mul.mp read
    obtain ⟨_, earlier, latest, hlatest, rfl⟩ := Language.mem_mul.mp inside
    obtain ⟨start, hstart, arguments, harguments, rfl⟩ := Language.mem_mul.mp earlier
    simp only [List.append_assoc]
    apply Language.append_mem_mul hunits
    apply Language.append_mem_mul hstart
    exact append_mem_star harguments (Language.append_mem_mul hlatest rfl)

/-- A run of steps leads from the words of its first level to those of its last one. -/
theorem mem_grammar_of_trace (trace : Trace level address events after finish)
    (read : word ∈ level.grammar.matches') :
    word ++ events.map Event.kind ∈ after.grammar.matches' := by
  induction trace generalizing word with
  | nil => simpa using read
  | cons step apart rest ih => simpa using ih (mem_grammar_of_step step read)

/-- What is open can be closed, so everything that has been read starts a whole script. -/
theorem exists_word_of_mem_grammar (level : Level) (read : word ∈ level.grammar.matches') :
    ∃ whole ∈ script.matches', word <+: whole := by
  have closed : ∀ head count word,
      word ∈ (Level.arguments head count).grammar.matches' →
        ∃ whole ∈ script.matches', word <+: whole := by
    intro head count word read
    exact ⟨_, mem_grammar_of_step (.instructionEnd head count 0) read, List.prefix_append _ _⟩
  cases level with
  | units => exact ⟨word, read, List.prefix_rfl⟩
  | arguments head count => exact closed head count word read
  | operands head argument =>
    obtain ⟨whole, member, longer⟩ := closed _ _ _
      (mem_grammar_of_step (.argumentEnd head argument 0) read)
    exact ⟨whole, member, (List.prefix_append _ _).trans longer⟩

end Words

/-! ## What a visitor is given -/

section Visitors

variable {σ ε : Type}

/-- A visitor that keeps, beside its own state, every event that it was given. -/
def Visitor.observed (visit : Visitor σ ε) : Visitor (σ × List Event) ε :=
  fun (state, given) event =>
    let (next, refusal?) := visit state event
    ((next, given ++ [event]), refusal?)

/-- A visitor takes all of some events, or refuses one of them after it took those in front. -/
theorem Visitor.feed_cases (visit : Visitor σ ε) (state : σ) (events : List Event) :
    (∃ front event back before last reason, events = front ++ event :: back ∧
        visit.feed state front = (before, none) ∧ visit before event = (last, some reason)) ∨
      ∃ last, visit.feed state events = (last, none) := by
  induction events generalizing state with
  | nil => exact .inr ⟨state, rfl⟩
  | cons first events ih =>
    rcases visited : visit state first with ⟨next, _ | reason⟩
    · rcases ih next with ⟨front, event, back, before, last, reason, rfl, fed, refused⟩ |
        ⟨last, fed⟩
      · refine .inl ⟨first :: front, event, back, before, last, reason, rfl, ?_, refused⟩
        rw [Visitor.feed, visited]
        exact fed
      · refine .inr ⟨last, ?_⟩
        rw [Visitor.feed, visited]
        exact fed
    · exact .inl ⟨[], first, events, state, next, reason, rfl, rfl, visited⟩

/-- An observed visitor does what the visitor does, and has kept all that it was given. -/
theorem Visitor.feed_observed {visit : Visitor σ ε} {state last : σ} {events : List Event}
    (fed : visit.feed state events = (last, none)) (given : List Event) :
    visit.observed.feed (state, given) events = ((last, given ++ events), none) := by
  induction events generalizing state given with
  | nil =>
    simp only [Visitor.feed, Prod.mk.injEq, and_true] at fed
    rw [Visitor.feed, fed, List.append_nil]
  | cons first events ih =>
    rw [Visitor.feed] at fed ⊢
    rcases visited : visit state first with ⟨next, _ | reason⟩
    · rw [visited] at fed
      have observed : visit.observed (state, given) first = ((next, given ++ [first]), none) := by
        simp only [Visitor.observed, visited]
      rw [observed]
      simpa using ih fed (given ++ [first])
    · simp [visited] at fed

end Visitors

/-- Every visitor is given the events of the byte string, in order, up to and including the first
that it refuses, and its refusal is the outcome of the walk. If it refuses none it is given all of
them, and the outcome is that of the byte string. The events are a word of the grammar, cut off
where a fault is, and the units that decoding builds are these events put together. -/
theorem walk_of_any_visitor (data : Bytes) :
    (∀ (σ ε : Type) (visit : Visitor σ ε) (state : σ),
      (∃ front event back before last reason, events data = front ++ event :: back ∧
          visit.feed state front = (before, none) ∧ visit before event = (last, some reason) ∧
          walk visit state data = { state := last, stop := some (.refused reason) } ∧
          walk visit.observed (state, []) data =
            { state := (last, front ++ [event]), stop := some (.refused reason) }) ∨
        ∃ last, visit.feed state (events data) = (last, none) ∧
          walk visit state data = { state := last, stop := (fault? data).map .fault } ∧
          walk visit.observed (state, []) data =
            { state := (last, events data), stop := (fault? data).map .fault }) ∧
      (∃ word ∈ script.matches', (events data).map Event.kind <+: word) ∧
      (fault? data = none → (events data).map Event.kind ∈ script.matches') ∧
      (∀ commands, decode data = .ok commands ↔
        fault? data = none ∧ commands.flatMap Command.events = events data) ∧
      ∀ fault, decode data = .error fault ↔ fault? data = some fault := by
  obtain ⟨after, finish, trace, complete⟩ := trace_events data
  have word := mem_grammar_of_trace trace (Language.nil_mem_kstar _)
  refine ⟨?_, exists_word_of_mem_grammar after word, ?_, ?_, fun _ => decode_eq_error_iff⟩
  · intro σ ε visit state
    rcases visit.feed_cases state (events data) with
      ⟨front, event, back, before, last, reason, hevents, fed, refused⟩ | ⟨last, fed⟩
    · refine .inl ⟨front, event, back, before, last, reason, hevents, fed, refused, ?_, ?_⟩
      · rw [walk_eq_feed, hevents, Visitor.feed_append fed, Visitor.feed, refused]
      · rw [walk_eq_feed, hevents, Visitor.feed_append (Visitor.feed_observed fed []), Visitor.feed,
          Visitor.observed, refused]
        rfl
    · refine .inr ⟨last, fed, ?_, ?_⟩
      · rw [walk_eq_feed, fed]
      · rw [walk_eq_feed, Visitor.feed_observed fed]
        rfl
  · intro sound
    rw [complete sound] at word
    exact word
  · intro commands
    rw [decode_eq_ok_iff_transcript, transcript_iff]
    exact ⟨fun h => ⟨h.2, h.1.symm⟩, fun h => ⟨h.2.symm, h.1⟩⟩

/-- A visitor that keeps two events refuses the operand of an instruction: the walk stops there, and
what comes behind is not looked at. A visitor that refuses nothing would have seen a whole script. -/
theorem walk_of_any_visitor_full_midway :
    let data : Bytes := [0x1B, 0x1C, 0, 0, 3, 7, 0xFF, 0xFF, 0x1A]
    let start : Event := .instructionStart ⟨0, 0x1C⟩
    let argument : Event := .argumentStart ⟨3, 0, 1⟩
    let operand : Event := .operand ⟨0, 0x1C⟩ ⟨3, 0, 1⟩ ⟨3, 4, .int8 7⟩
    walk (Visitor.limitedRecorder 2) [] data =
        { state := [argument, start], stop := some (.refused ⟨4, 2⟩) } ∧
      walk (Visitor.limitedRecorder 2).observed ([], []) data =
        { state := ([argument, start], [start, argument, operand]),
          stop := some (.refused ⟨4, 2⟩) } ∧
      fault? data = none ∧
      [EventKind.instructionStart, .argumentStart, .operand, .argumentEnd, .instructionEnd,
        .terminator] ∈ script.matches' := by
  intro data start argument operand
  have read : events data = [start, argument, operand, .argumentEnd ⟨3, 0, 1⟩,
      .instructionEnd ⟨0, 0x1C⟩ 8, .terminator 8] := by
    decide +kernel
  have sound : fault? data = none := by decide +kernel
  obtain ⟨visitors, -, word, -⟩ := walk_of_any_visitor data
  specialize word sound
  specialize visitors _ _ (Visitor.limitedRecorder 2) []
  rw [read] at visitors word
  rcases visitors with ⟨front, event, back, before, last, reason, split, fed, refused, walked,
    observed⟩ | ⟨last, fed, -⟩
  · -- Of the events in front of the refused one there are two: fewer would not fill the visitor.
    rcases front with _ | ⟨first, _ | ⟨second, _ | ⟨third, front⟩⟩⟩
    · cases fed
      cases refused
    · cases fed
      cases refused
    · cases split
      cases fed
      cases refused
      exact ⟨walked, observed, sound, word⟩
    · cases fed
  · cases fed

end NovelScript
