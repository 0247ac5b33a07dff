import NovelScript.Proofs.Layout

/-!
# A new script is a script

The events of a new script are those of the old one with new texts, corrected words and all
addresses moved along (`Placement.rebuilt`). If every new text could have been read where it stands,
each step of the old trace is a step of the new one (`Placement.Readable.step`), and no run of raw
text comes to touch another. So the rebuilt events are the transcript of the new script
(`transcript_of_injection`).
-/

set_option autoImplicit false

namespace NovelScript

/-- Whether a text can stand in place of another one and be read back as such. -/
def TextUnit.Accepts (unit : TextUnit) (new : Bytes) : Prop :=
  match unit with
  | string .. => new.length < 0x100000000
  | run _ => new ≠ [] ∧ ∀ b ∈ new, isText b = true

/-! ## Moving addresses -/

section Moving

variable (f : Nat → Nat)

/-- The head of an instruction at another address. -/
def InstructionHead.moved (head : InstructionHead) : InstructionHead :=
  { head with address := f head.address }

/-- The head of an argument at another address. -/
def ArgumentHead.moved (argument : ArgumentHead) : ArgumentHead :=
  { argument with address := f argument.address }

/-- An operand at another address. -/
def Operand.moved (operand : Operand) : Operand :=
  { operand with address := f operand.address }

/-- An event with all its addresses moved. -/
def Event.moved : Event → Event
  | terminator address => .terminator (f address)
  | instructionStart i => .instructionStart (i.moved f)
  | argumentStart a => .argumentStart (a.moved f)
  | operand i a o => .operand (i.moved f) (a.moved f) (o.moved f)
  | argumentEnd a => .argumentEnd (a.moved f)
  | instructionEnd i finish => .instructionEnd (i.moved f) (f finish)
  | text run => .text { run with address := f run.address }

/-- A level with all its addresses moved. -/
def Level.moved : Level → Level
  | units => .units
  | arguments head count => .arguments (head.moved f) count
  | operands head argument => .operands (head.moved f) (argument.moved f)

/-- The stored form of an event has no address in it. -/
theorem Event.bytes_moved (event : Event) : (event.moved f).bytes = event.bytes := by
  cases event <;> rfl

/-- An event keeps its text at another address. -/
theorem Event.text?_moved (event : Event) : (event.moved f).text? = event.text? := by
  cases event with
  | operand head argument operand =>
    obtain ⟨tag, address, value⟩ := operand
    cases value <;> rfl
  | _ => rfl

end Moving

/-- The event of the new script that a placement leads to. -/
def Placement.rebuilt (data : Bytes) (ledger : Ledger) (f : Nat → Nat) (p : Placement) : Event :=
  (p.new.relocated data ledger).moved f

/-- Whether the new event of a placement can be read, and ends where the address after the old one
goes. -/
structure Placement.Readable (data : Bytes) (f : Nat → Nat) (p : Placement) : Prop where
  /-- The placement is one that a substitution makes. -/
  kind : p.Kind data
  /-- Its text can be read back. -/
  accepted : ∀ unit new, p.replaced? = some (unit, new) → unit.Accepts new
  /-- The address after it has moved with it. -/
  finish : f p.finish = p.target + p.new.bytes.length

section Steps

variable {data : Bytes} {ledger : Ledger} {p : Placement} {f : Nat → Nat}

/-- The new event of a placement is raw text exactly when the old one is. -/
theorem Placement.Kind.isText_rebuilt (kind : p.Kind data) :
    (p.rebuilt data ledger f).isText = p.old.isText := by
  cases kind with
  | plain source target event textless unenrolled =>
    rw [Placement.rebuilt, Event.relocated_of_none unenrolled]
    cases event <;> rfl
  | _ => rfl

/-- The new event of a placement has the text that was placed. -/
theorem Placement.Kind.text?_rebuilt (kind : p.Kind data) :
    (p.rebuilt data ledger f).text? = p.replaced?.map Prod.snd := by
  rw [Placement.rebuilt, Event.text?_moved]
  cases kind with
  | word source target head argument tag word enrolled =>
    rw [Event.relocated, Operand.relocated_of_some enrolled]
    rfl
  | plain source target event textless unenrolled =>
    rw [Event.relocated_of_none unenrolled, Event.text?, Placement.replaced?, textless]
    rfl
  | _ => rfl

/-- The bytes of a rebuilt event are those of the new event with its word corrected. -/
theorem Placement.bytes_rebuilt :
    (p.rebuilt data ledger f).bytes = (p.new.relocated data ledger).bytes :=
  Event.bytes_moved f _

/-- An operand is read in an operand list, at its own address and in the shape of its tag. -/
theorem Event.Step.of_operand {level after : Level} {address : Nat} {head : InstructionHead}
    {argument : ArgumentHead} {operand : Operand}
    (step : (Event.operand head argument operand).Step level address after) :
    level = .operands head argument ∧ after = .operands head argument ∧
      address = operand.address ∧ Shape.ofTag? operand.tag = some operand.value.shape := by
  cases step with
  | operand _ _ _ known fits => exact ⟨rfl, rfl, rfl, known⟩

/-- A run of raw text is read between units, at its own address. -/
theorem Event.Step.of_text {level after : Level} {address : Nat} {run : TextRun}
    (step : (Event.text run).Step level address after) :
    level = .units ∧ after = .units ∧ address = run.address := by
  cases step
  exact ⟨rfl, rfl, rfl⟩

/-- An event can be read at its new address as it was at the old one. -/
theorem Event.Step.moved {event : Event} {level after : Level} {address : Nat}
    (step : event.Step level address after)
    (closing : ∀ head finish, event = .instructionEnd head finish →
      f (address + 1) = f address + 1) :
    (event.moved f).Step (level.moved f) (f address) (after.moved f) := by
  cases step with
  | terminator => exact .terminator _
  | instructionStart head => exact .instructionStart (head.moved f)
  | text run nonempty bytes => exact .text { run with address := f run.address } nonempty bytes
  | argumentStart head argument count id ordinal =>
    exact .argumentStart (head.moved f) (argument.moved f) count id ordinal
  | instructionEnd head count address =>
    rw [Event.moved, closing _ _ rfl]
    exact .instructionEnd (head.moved f) count (f address)
  | operand head argument operand known fits =>
    exact .operand (head.moved f) (argument.moved f) (operand.moved f) known fits
  | argumentEnd head argument => exact .argumentEnd (head.moved f) (argument.moved f) _

/-- A step with an accepted text and a corrected word is a step at the same address. -/
theorem Placement.Kind.step_new (kind : p.Kind data) {level after : Level}
    (step : p.old.Step level p.source after)
    (accepted : ∀ unit new, p.replaced? = some (unit, new) → unit.Accepts new) :
    (p.new.relocated data ledger).Step level p.source after := by
  cases kind with
  | string source target head argument tag old new =>
    obtain ⟨rfl, rfl, -, known⟩ := step.of_operand
    exact .operand head argument ⟨tag, source, .string new⟩ known (accepted _ _ rfl)
  | run source target old new =>
    obtain ⟨rfl, rfl, -⟩ := step.of_text
    obtain ⟨nonempty, bytes⟩ := accepted _ _ rfl
    exact .text ⟨source, new⟩ nonempty bytes
  | word source target head argument tag word enrolled =>
    obtain ⟨rfl, rfl, -, known⟩ := step.of_operand
    rw [Event.relocated, Operand.relocated_of_some enrolled]
    exact .operand head argument ⟨tag, source, .int32 _⟩ known trivial
  | plain source target event textless unenrolled =>
    rwa [Event.relocated_of_none unenrolled]

/-- What can be read back at its new place is read there, as the old event is at the old one. -/
theorem Placement.Readable.step (readable : p.Readable data f) {level after : Level}
    (step : p.old.Step level p.source after) (start : f p.source = p.target) :
    (p.rebuilt data ledger f).Step (level.moved f) p.target (after.moved f) := by
  rw [← start]
  apply (readable.kind.step_new step readable.accepted).moved
  -- The end of an instruction speaks about the address after it.
  intro head finish closes
  have hfinish := readable.finish
  rw [← start] at hfinish
  cases readable.kind with
  | plain source target event textless unenrolled =>
    rw [Event.relocated_of_none unenrolled] at closes
    rw [closes] at hfinish
    exact hfinish
  | _ => simp [Event.relocated] at closes

end Steps

/-! ## The transcript of a new script -/

/-- The address in the new script that an address goes to. -/
def Ledger.newAddress (ledger : Ledger) (address : Nat) : Nat :=
  (ledger.shiftPast address).toNat

section Transcripts

variable {data : Bytes} {lines : List Bytes} {events : List Event} {p : Placement} {f : Nat → Nat}

/-- An address of an old event goes into the new one. -/
theorem newAddress_of_mem (transcript : Transcript data events)
    (member : p ∈ Placement.ofLines lines events) {address : Nat} (low : p.source ≤ address)
    (high : address < p.finish) :
    (Ledger.ofPlacements (Placement.ofLines lines events)).newAddress address =
      p.target + (address - p.source) := by
  rw [Ledger.newAddress, shiftPast_of_mem transcript member low high]
  omega

/-- The ledger takes the end of an old event to the end of the new one. -/
theorem shiftPast_finish (transcript : Transcript data events)
    (member : p ∈ Placement.ofLines lines events) :
    (Ledger.ofPlacements (Placement.ofLines lines events)).shiftPast p.finish =
      p.target + (p.new.bytes.length : Int) := by
  have moved := deltaPast_finish_of_mem transcript.trace member
  rw [Ledger.shiftPast, Placement.ofLines, moved]
  omega

/-- The new address of the end of an old event is the end of the new one. -/
theorem newAddress_finish (transcript : Transcript data events)
    (member : p ∈ Placement.ofLines lines events) :
    (Ledger.ofPlacements (Placement.ofLines lines events)).newAddress p.finish =
      p.target + p.new.bytes.length := by
  rw [Ledger.newAddress, shiftPast_finish transcript member]
  omega

/-- Both scripts begin at the same address. -/
theorem newAddress_zero (transcript : Transcript data events) :
    (Ledger.ofPlacements (Placement.ofLines lines events)).newAddress 0 = 0 := by
  cases events with
  | nil => rfl
  | cons event events =>
    have member := placementAt_mem lines [] event events
    obtain ⟨_, _, step⟩ := exists_step_of_mem transcript.trace member
    exact newAddress_of_mem transcript member (Nat.le_refl 0)
      (Nat.lt_add_of_pos_right step.length_bytes_pos)

/-- Placed events follow each other in the new script as they did in the old one. -/
theorem trace_rebuilt (ledger : Ledger) {level after : Level} {source target finish : Nat}
    {events : List Event} {texts : List Bytes} (trace : Trace level source events after finish)
    (readable : ∀ p ∈ placements source target events texts, p.Readable data f)
    (start : f source = target) :
    ∃ last, Trace (level.moved f) target
      ((placements source target events texts).map (Placement.rebuilt data ledger f))
      (after.moved f) last := by
  induction trace generalizing target texts with
  | nil level address => exact ⟨_, .nil _ _⟩
  | @cons level middle after source finish event events step apart rest ih =>
    rw [placements, List.forall_mem_cons] at readable
    obtain ⟨first, others⟩ := readable
    obtain ⟨last, trace⟩ := ih others first.finish
    refine ⟨last, .cons (first.step step start) ?_ ?_⟩
    · -- Runs stay runs, so no two of them touch that did not touch before.
      intro isRun next hnext
      rw [first.kind.isText_rebuilt] at isRun
      cases events with
      | nil => simp [placements] at hnext
      | cons second events =>
        simp only [placements, List.map_cons, List.head?_cons, Option.mem_def,
          Option.some.injEq] at hnext
        rw [placements, List.forall_mem_cons] at others
        rw [← hnext, others.1.kind.isText_rebuilt]
        exact apart isRun second rfl
    · rw [Placement.bytes_rebuilt, Event.length_bytes_relocated]
      exact trace

/-- The rebuilt events are the transcript of the new script, if every new text can be read back. -/
theorem transcript_of_injection (transcript : Transcript data events)
    (enough : (textUnits events).length ≤ lines.length)
    (accepted : ∀ unit new, (unit, new) ∈ replacements data lines → unit.Accepts new) :
    Transcript (Injection.ofEvents data lines events).script
      ((Placement.ofLines lines events).map
        (Placement.rebuilt data (.ofPlacements (Placement.ofLines lines events))
          (Ledger.ofPlacements (Placement.ofLines lines events)).newAddress)) := by
  have readable : ∀ p ∈ Placement.ofLines lines events,
      p.Readable data (Ledger.ofPlacements (Placement.ofLines lines events)).newAddress := by
    intro p member
    refine ⟨kind_of_mem transcript.trace member, ?_, newAddress_finish transcript member⟩
    intro unit new replaced
    exact accepted unit new ((mem_replacements_iff transcript enough).mpr ⟨p, member, replaced⟩)
  have spelled : ((Placement.ofLines lines events).map
      (Placement.rebuilt data (.ofPlacements (Placement.ofLines lines events))
        (Ledger.ofPlacements (Placement.ofLines lines events)).newAddress)).flatMap Event.bytes =
      (Injection.ofEvents data lines events).script := by
    simp only [List.flatMap_map, Placement.bytes_rebuilt, Injection.ofEvents]
  obtain ⟨last, trace⟩ := trace_rebuilt (.ofPlacements (Placement.ofLines lines events))
    transcript.trace readable (newAddress_zero transcript)
  have hlast := trace.finish_eq
  rw [← spelled]
  refine ⟨?_, rfl⟩
  rw [← Nat.zero_add (List.length _)]
  exact hlast ▸ trace

end Transcripts

end NovelScript
