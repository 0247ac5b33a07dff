import NovelScript.Proofs.Assembly

/-!
# The texts of a script

A text unit is what one line of a translation replaces: the payload of a string operand, or a run of
raw text. The text units of the units of a script, in order, are those of its events
(`textUnits_flatMap_events`), so a dump and a substitution meet them in the same order.

`Event.retext` puts the first of some texts in place of the text of an event, and leaves an event
without text as it is.
-/

set_option autoImplicit false

namespace NovelScript

/-- A text that a line can replace. -/
inductive TextUnit
  /-- The payload of a string operand. -/
  | string (operand : Operand) (payload : Bytes)
  /-- A run of raw text. -/
  | run (run : TextRun)
  deriving DecidableEq

namespace TextUnit

/-- The text itself. -/
def text : TextUnit → Bytes
  | string _ payload => payload
  | run r => r.bytes

/-- The address of the operand or of the run. -/
def address : TextUnit → Nat
  | string operand _ => operand.address
  | run r => r.address

/-- The address of the first byte of the text. -/
def textAddress : TextUnit → Nat
  | string operand _ => operand.payloadAddress
  | run r => r.address

/-- Whether a length stands in front of the text. -/
def isString : TextUnit → Bool
  | string .. => true
  | run _ => false

end TextUnit

/-- The text of a string operand. -/
def Operand.textUnit? (operand : Operand) : Option TextUnit :=
  operand.value.payload?.map (.string operand)

/-- The text of an event, if it has one. -/
def Event.textUnit? : Event → Option TextUnit
  | operand _ _ o => o.textUnit?
  | text run => some (.run run)
  | _ => none

/-- The texts of a unit, in address order. -/
def Command.textUnits : Command → List TextUnit
  | terminator _ => []
  | instruction i => i.operands.filterMap Operand.textUnit?
  | text run => [.run run]

/-- The texts of a sequence of events, in order. -/
def textUnits (events : List Event) : List TextUnit :=
  events.filterMap Event.textUnit?

/-- The text units of two lists of events follow each other. -/
@[simp] theorem textUnits_append (left right : List Event) :
    textUnits (left ++ right) = textUnits left ++ textUnits right :=
  List.filterMap_append

/-- The text units among the events of an argument are its strings, in order. -/
theorem Argument.textUnits_events (head : InstructionHead) (argument : Argument) :
    textUnits (argument.events head) = argument.operands.filterMap Operand.textUnit? := by
  simp [Argument.events, textUnits, List.filterMap_cons, List.filterMap_map, Event.textUnit?,
    Function.comp_def]

/-- The text units among the events of a unit are those of the unit, in order. -/
theorem Command.textUnits_events (command : Command) :
    NovelScript.textUnits command.events = command.textUnits := by
  cases command with
  | terminator => rfl
  | text => rfl
  | instruction i =>
    have arguments : ∀ list : List Argument,
        NovelScript.textUnits (list.flatMap (Argument.events i.toInstructionHead)) =
          (list.flatMap Argument.operands).filterMap Operand.textUnit? := by
      intro list
      induction list with
      | nil => rfl
      | cons argument list ih =>
        rw [List.flatMap_cons, List.flatMap_cons, textUnits_append, List.filterMap_append, ih,
          Argument.textUnits_events]
    have flat := arguments i.arguments
    simp only [NovelScript.textUnits] at flat
    simp [Command.events, Instruction.events, NovelScript.textUnits, List.filterMap_cons,
      Event.textUnit?, flat, Command.textUnits, Instruction.operands]

/-- The texts of the units of a script are those of its events. -/
theorem textUnits_flatMap_events (commands : List Command) :
    textUnits (commands.flatMap Command.events) = commands.flatMap Command.textUnits := by
  induction commands with
  | nil => rfl
  | cons command commands ih =>
    rw [List.flatMap_cons, List.flatMap_cons, textUnits_append, ih, Command.textUnits_events]

/-! ## Replacing texts -/

/-- An operand with another text, if it has one. -/
def Operand.withText (text : Bytes) (operand : Operand) : Operand :=
  match operand.value with
  | .string _ => { operand with value := .string text }
  | _ => operand

/-- An event with another text, if it has one. -/
def Event.withText (text : Bytes) : Event → Event
  | operand head argument o => .operand head argument (o.withText text)
  | .text run => .text { run with bytes := text }
  | event => event

/-- An event with the first of some texts in place of its own; where there is none it keeps its own
text. -/
def Event.retext (texts : List Bytes) (event : Event) : Event :=
  match texts with
  | [] => event
  | new :: _ => event.withText new

/-- The text of an event, if it has one. -/
def Event.text? (event : Event) : Option Bytes :=
  event.textUnit?.map TextUnit.text

namespace Event

variable {event : Event} {text old : Bytes} {texts : List Bytes}

/-- An event without a text unit cannot be given a text. -/
theorem withText_of_none (none : event.textUnit? = none) : event.withText text = event := by
  cases event with
  | operand head argument operand =>
    obtain ⟨tag, address, value⟩ := operand
    cases value <;> simp_all [textUnit?, Operand.textUnit?, Value.payload?, withText,
      Operand.withText]
  | text run => simp [textUnit?] at none
  | _ => rfl

/-- An event has the text that it was given, if it can have one. -/
theorem text?_withText : (event.withText text).text? = event.text?.map fun _ => text := by
  cases event with
  | operand head argument operand =>
    obtain ⟨tag, address, value⟩ := operand
    cases value <;> simp [text?, textUnit?, Operand.textUnit?, Value.payload?, withText,
      Operand.withText, TextUnit.text]
  | text run => simp [text?, textUnit?, withText, TextUnit.text]
  | _ => rfl

/-- A new text changes the length of an event by the difference of the two texts. -/
theorem length_bytes_withText (text : Bytes) (has : event.text? = some old) :
    (event.withText text).bytes.length + old.length = event.bytes.length + text.length := by
  cases event with
  | operand head argument operand =>
    obtain ⟨tag, address, value⟩ := operand
    cases value <;> simp_all [text?, textUnit?, Operand.textUnit?, Value.payload?, withText,
      Operand.withText, TextUnit.text, bytes, Value.size]
    omega
  | text run =>
    simp only [text?, textUnit?, TextUnit.text, Option.map_some, Option.some.injEq] at has
    subst has
    simp [withText, bytes, Nat.add_comm]
  | _ => simp [text?, textUnit?] at has

/-- An event without a text unit takes no text from the lines. -/
theorem retext_of_none (none : event.textUnit? = none) : event.retext texts = event := by
  cases texts with
  | nil => rfl
  | cons text texts => exact withText_of_none none

end Event

end NovelScript
