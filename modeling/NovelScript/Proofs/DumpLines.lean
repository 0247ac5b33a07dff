import NovelScript.Dump
import NovelScript.Proofs.TextStream
import NovelScript.Proofs.TextUnit

/-!
# What the lines of a dump put back

The pieces of a script are those of its events, and their texts are its text units
(`filterMap_text?_pieces`). So an untouched dump is the text stream with the texts of the script
itself (`text_ofCommands`), and each of its lines gives back what `TextUnit.reread` says
(`map_replacement_split_dump`).

A text survives this if it holds no mark that would be read as something else. One that does not
survive comes back shorter (`TextUnit.length_reread_lt`), never longer.
-/

set_option autoImplicit false

namespace NovelScript

/-! ## The pieces of a script -/

/-- The pieces of an event. -/
def Event.pieces (rules : TagRules) : Event → List Piece
  | instructionStart i => if rules.marksUnfinished i.executor then [.unfinished] else []
  | operand i a o => (o.value.payload?.map (.string i.address (rules.category i.executor a))).toList
  | text run => [.run run.address run.bytes]
  | _ => []

/-- What the events of an argument write into the stream is what the argument writes. -/
theorem Argument.flatMap_pieces_events (rules : TagRules) (head : InstructionHead)
    (argument : Argument) :
    (argument.events head).flatMap (Event.pieces rules) = argument.pieces rules head := by
  have operands : ∀ list : List Operand,
      (list.map (Event.operand head argument.toArgumentHead)).flatMap (Event.pieces rules) =
        list.filterMap fun operand => operand.value.payload?.map
          (.string head.address (rules.category head.executor argument.toArgumentHead)) := by
    intro list
    rw [List.flatMap_map, List.filterMap_eq_flatMap_toList]
    rfl
  simp [Argument.events, Argument.pieces, Event.pieces, operands]

/-- What the events of a unit write into the stream is what the unit writes. -/
theorem Command.flatMap_pieces_events (rules : TagRules) (command : Command) :
    command.events.flatMap (Event.pieces rules) = command.pieces rules := by
  cases command with
  | terminator => rfl
  | text => simp [Command.events, Event.pieces, Command.pieces]
  | instruction i =>
    simp [Command.events, Instruction.events, Command.pieces, Instruction.pieces, Event.pieces,
      List.flatMap_assoc, Argument.flatMap_pieces_events]

/-- The pieces of a script are those of its events. -/
theorem flatMap_pieces_events (rules : TagRules) (commands : List Command) :
    (commands.flatMap Command.events).flatMap (Event.pieces rules) =
      commands.flatMap (Command.pieces rules) := by
  rw [List.flatMap_assoc]
  apply List.flatMap_congr
  intro command _
  exact command.flatMap_pieces_events rules

/-- A text unit as the text of its piece. -/
def TextUnit.pieceText (unit : TextUnit) : Bool × Bytes :=
  (unit.isString, unit.text)

/-- An event writes one text if it has a text unit, and none otherwise. -/
theorem Event.filterMap_text?_pieces (rules : TagRules) (event : Event) :
    (event.pieces rules).filterMap Piece.text? =
      event.textUnit?.toList.map TextUnit.pieceText := by
  cases event with
  | instructionStart i =>
    rw [Event.pieces]
    split <;> rfl
  | operand i a o =>
    rw [Event.pieces, Event.textUnit?, Operand.textUnit?]
    cases o.value.payload? <;> rfl
  | _ => rfl

/-- The texts of the pieces of a script are its text units, in order. -/
theorem filterMap_text?_pieces (rules : TagRules) (commands : List Command) :
    (commands.flatMap (Command.pieces rules)).filterMap Piece.text? =
      (commands.flatMap Command.textUnits).map TextUnit.pieceText := by
  rw [← flatMap_pieces_events, ← textUnits_flatMap_events, textUnits]
  generalize commands.flatMap Command.events = events
  rw [List.filterMap_flatMap, List.filterMap_eq_flatMap_toList, List.map_flatMap]
  apply List.flatMap_congr
  intro event _
  exact event.filterMap_text?_pieces rules

/-! ## The lines of a dump -/

/-- What the dumped line of a text puts back in its place. -/
def TextUnit.reread : TextUnit → Bytes
  | string _ payload => Line.unescape payload
  | run r => Line.strip r.bytes

/-- Whether a text comes back from its dumped line: a string holds no mark of a line break, and a
run of raw text does not open like a marked line. -/
def TextUnit.Survives : TextUnit → Prop
  | string _ payload => ¬ Bytes.ascii "[r]" <:+: payload ∧ ¬ Bytes.ascii "[n]" <:+: payload
  | run r => ¬ Bytes.ascii "[Spec" <+: r.bytes ∧ ¬ Bytes.ascii "[pre_unfinish]" <+: r.bytes

namespace TextUnit

/-- A text that survives is read back as it was. -/
theorem reread_eq_text {unit : TextUnit} (survives : unit.Survives) : unit.reread = unit.text := by
  cases unit with
  | string operand payload => exact Line.unescape_eq_self survives.1 survives.2
  | run r => exact Line.strip_eq_self survives.1 survives.2

/-- A text that does not survive comes back shorter. -/
theorem length_reread_lt {unit : TextUnit} (lost : ¬ unit.Survives) :
    unit.reread.length < unit.text.length := by
  cases unit with
  | string operand payload =>
    rw [Survives, not_and_or, not_not, not_not] at lost
    exact Line.length_unescape_lt lost
  | run r =>
    rw [Survives, not_and_or, not_not, not_not] at lost
    exact Line.length_strip_lt lost

/-- No text comes back longer than it was. -/
theorem length_reread_le (unit : TextUnit) : unit.reread.length ≤ unit.text.length := by
  by_cases survives : unit.Survives
  · rw [reread_eq_text survives]
  · exact Nat.le_of_lt (length_reread_lt survives)

/-- What is taken from the line that was written for a unit is the text that is read back. -/
theorem taken_written (unit : TextUnit) :
    Line.taken unit.isString (Line.written unit.isString unit.text) = unit.reread := by
  cases unit with
  | string operand payload => exact Line.unescape_escape payload
  | run r => rfl

end TextUnit

/-- No line break is written into the line of a text. -/
theorem not_mem_written_of_mem {data : Bytes} {commands : List Command}
    (decoded : decode data = .ok commands) {unit : TextUnit}
    (member : unit ∈ commands.flatMap Command.textUnits) :
    Bytes.cr ∉ Line.written unit.isString unit.text ∧
      Bytes.lf ∉ Line.written unit.isString unit.text := by
  cases unit with
  | string operand payload => exact Line.not_mem_escape payload
  | run r =>
    rw [← textUnits_flatMap_events, textUnits, List.mem_filterMap] at member
    obtain ⟨event, hevent, has⟩ := member
    obtain ⟨_, _, _, step⟩ := (transcript_of_decode decoded).trace.exists_step hevent
    have bytes : ∀ b ∈ r.bytes, isText b = true := by
      cases step with
      | text run nonempty bytes =>
        simp only [Event.textUnit?, Option.some.injEq, TextUnit.run.injEq] at has
        exact has ▸ bytes
      | operand head argument operand =>
        simp [Event.textUnit?, Operand.textUnit?, Option.map_eq_some_iff] at has
      | _ => simp [Event.textUnit?] at has
    exact ⟨fun member => absurd (bytes _ member) (by decide),
      fun member => absurd (bytes _ member) (by decide)⟩

/-- A script that decodes is dumped. -/
theorem dump_of_decode {data : Bytes} {commands : List Command} (rules : TagRules)
    (decoded : decode data = .ok commands) :
    dump rules data = .ok (Dump.ofCommands rules data commands) := by
  rw [dump, decoded]

/-- A dump counts one line for each text unit. -/
theorem lines_ofCommands (rules : TagRules) (data : Bytes) (commands : List Command) :
    (Dump.ofCommands rules data commands).lines =
      (commands.flatMap Command.textUnits).length := by
  show (commands.flatMap (Command.pieces rules)).countP Piece.isLine = _
  rw [Piece.countP_isLine, filterMap_text?_pieces, List.length_map]

/-- A dump is the text stream of the pieces of a script with the texts of the script. -/
theorem text_ofCommands (rules : TagRules) (data : Bytes) (commands : List Command) :
    (Dump.ofCommands rules data commands).text =
      stream (commands.flatMap (Command.pieces rules))
        ((commands.flatMap Command.textUnits).map fun unit => .ofText unit.pieceText) := by
  show (commands.flatMap (Command.pieces rules)).flatMap Piece.bytes = _
  rw [flatMap_bytes_eq_stream, filterMap_text?_pieces, List.map_map]
  rfl

/-- The lines of an untouched dump put back the texts of the script as they are reread, in order. -/
theorem map_replacement_split_dump {data : Bytes} {commands : List Command} (rules : TagRules)
    (decoded : decode data = .ok commands) :
    ∃ extra, (Line.split (Dump.ofCommands rules data commands).text).map Line.replacement =
      (commands.flatMap Command.textUnits).map TextUnit.reread ++ extra := by
  have count : ((commands.flatMap Command.textUnits).map fun unit =>
      TypedLine.ofText unit.pieceText).length =
        ((commands.flatMap (Command.pieces rules)).filterMap Piece.text?).length := by
    rw [filterMap_text?_pieces, List.length_map, List.length_map]
  have noBreaks : ∀ line ∈ (commands.flatMap Command.textUnits).map fun unit =>
      TypedLine.ofText unit.pieceText, Bytes.cr ∉ line.text ∧ Bytes.lf ∉ line.text := by
    intro line member
    obtain ⟨unit, hunit, rfl⟩ := List.mem_map.mp member
    exact not_mem_written_of_mem decoded hunit
  have nothing : ∀ b ∈ ([] : Bytes), isFront b = true := by simp
  obtain ⟨extra, hextra⟩ := map_replacement_split_stream count noBreaks nothing
  refine ⟨extra, ?_⟩
  rw [List.nil_append, filterMap_text?_pieces, List.zipWith_map, List.zipWith_self] at hextra
  rw [text_ofCommands, hextra]
  congr 1
  exact List.map_congr_left fun unit _ => unit.taken_written

end NovelScript
