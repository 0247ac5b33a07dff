import NovelScript.Operand.Read
import NovelScript.Script.Event

/-!
# Reading one event

A cursor is a place in a script: an address, the bytes from there on, and how deep in the nesting of
units, arguments and operands it stands. `Cursor.next` reads one event there. Everything that the
format leaves to context is decided by the level: the byte `0xFF` is text among units, but closes a
list inside an instruction.

An event takes off exactly the bytes that it stands for (`next_eq_ok`), which are never none
(`length_rest_lt`), so a walk ends.
-/

set_option autoImplicit false

namespace NovelScript

/-- Where in the nesting of a script a cursor stands. -/
inductive Level
  /-- Between units. -/
  | units
  /-- In the argument list of an instruction, after `count` arguments. -/
  | arguments (instruction : InstructionHead) (count : Nat)
  /-- In the operand list of an argument. -/
  | operands (instruction : InstructionHead) (argument : ArgumentHead)
  deriving DecidableEq

/-- A place in a script. -/
structure Cursor where
  /-- The address of the next byte. -/
  address : Nat
  /-- The bytes from there on. -/
  rest : Bytes
  /-- What the next byte belongs to. -/
  level : Level
  deriving DecidableEq

namespace Cursor

/-- The place before the first byte of a script. -/
def start (data : Bytes) : Cursor :=
  { address := 0, rest := data, level := .units }

/-- Whether a script may end here and does. -/
def isDone (cursor : Cursor) : Bool :=
  cursor.level = .units && cursor.rest.isEmpty

/-- The event at a place between units. -/
def nextUnit (address : Nat) : Bytes → Except FormatError (Event × Cursor)
  | [] => .error (.truncated address 1)
  | tag :: rest =>
    if tag = terminatorTag then
      .ok (.terminator address, { address := address + 1, rest, level := .units })
    else if tag = instructionTag then
      match takeBytes (address + 1) 2 rest with
      | .error fault => .error fault
      | .ok (word, rest) =>
        let instruction : InstructionHead :=
          { address, executor := UInt16.ofNat (LittleEndian.decode word) }
        .ok (.instructionStart instruction,
          { address := address + 3, rest, level := .arguments instruction 0 })
    else if isText tag then
      let run : TextRun := { address, bytes := tag :: rest.takeWhile isText }
      .ok (.text run, { address := run.finish, rest := rest.dropWhile isText, level := .units })
    else
      .error (.unknownUnitTag tag address)

/-- The event at a place in an argument list. -/
def nextArgument (instruction : InstructionHead) (count address : Nat) :
    Bytes → Except FormatError (Event × Cursor)
  | [] => .error (.truncated address 1)
  | id :: rest =>
    if id = listEnd then
      .ok (.instructionEnd instruction (address + 1),
        { address := address + 1, rest, level := .units })
    else
      let argument : ArgumentHead := { address, id, ordinal := count + 1 }
      .ok (.argumentStart argument,
        { address := address + 1, rest, level := .operands instruction argument })

/-- The event at a place in an operand list. -/
def nextOperand (instruction : InstructionHead) (argument : ArgumentHead) (address : Nat) :
    Bytes → Except FormatError (Event × Cursor)
  | [] => .error (.truncated address 1)
  | tag :: rest =>
    if tag = listEnd then
      .ok (.argumentEnd argument,
        { address := address + 1, rest, level := .arguments instruction argument.ordinal })
    else
      match Shape.ofTag? tag with
      | none => .error (.unknownOperandTag tag address)
      | some shape =>
        match Value.read shape (address + 1) rest with
        | .error fault => .error fault
        | .ok (value, rest) =>
          let operand : Operand := { tag, address, value }
          .ok (.operand instruction argument operand,
            { address := operand.finish, rest, level := .operands instruction argument })

/-- The event at a place and the place after it. -/
def next (cursor : Cursor) : Except FormatError (Event × Cursor) :=
  match cursor.level with
  | .units => nextUnit cursor.address cursor.rest
  | .arguments instruction count => nextArgument instruction count cursor.address cursor.rest
  | .operands instruction argument => nextOperand instruction argument cursor.address cursor.rest

/-- Between units, an event takes off exactly the bytes that it stands for. -/
theorem nextUnit_eq_ok {address : Nat} {bytes : Bytes} {event : Event} {after : Cursor}
    (h : nextUnit address bytes = .ok (event, after)) :
    bytes = event.bytes ++ after.rest ∧ after.address = address + event.bytes.length ∧
      event.bytes ≠ [] := by
  cases bytes with
  | nil => simp [nextUnit] at h
  | cons tag rest =>
    rw [nextUnit] at h
    split at h
    case isTrue isTerminator =>
      simp only [Except.ok.injEq, Prod.mk.injEq] at h
      obtain ⟨rfl, rfl⟩ := h
      simp [Event.bytes, isTerminator]
    case isFalse =>
      split at h
      case isTrue isInstruction =>
        split at h
        case h_1 => simp at h
        case h_2 word last taken =>
          simp only [Except.ok.injEq, Prod.mk.injEq] at h
          obtain ⟨rfl, rfl⟩ := h
          obtain ⟨rfl, wide⟩ := takeBytes_eq_ok taken
          have small := LittleEndian.decode_lt word
          rw [wide] at small
          have executor : LittleEndian.encode 2 (UInt16.ofNat (LittleEndian.decode word)).toNat =
              word := by
            have bounded : LittleEndian.decode word < UInt16.size := small
            have stored := LittleEndian.encode_decode word
            rw [wide] at stored
            rw [UInt16.toNat_ofNat_of_lt' bounded, stored]
          refine ⟨?_, ?_, by simp [Event.bytes, InstructionHead.bytes]⟩
          · rw [Event.bytes, InstructionHead.bytes, executor, isInstruction]
            rfl
          · simp [Event.bytes, InstructionHead.bytes]
      case isFalse =>
        split at h
        case isTrue =>
          simp only [Except.ok.injEq, Prod.mk.injEq] at h
          obtain ⟨rfl, rfl⟩ := h
          simp [Event.bytes, TextRun.finish, List.takeWhile_append_dropWhile]
        case isFalse => simp at h

/-- In an argument list, an event takes off exactly the bytes that it stands for. -/
theorem nextArgument_eq_ok {instruction : InstructionHead} {count address : Nat} {bytes : Bytes}
    {event : Event} {after : Cursor}
    (h : nextArgument instruction count address bytes = .ok (event, after)) :
    bytes = event.bytes ++ after.rest ∧ after.address = address + event.bytes.length ∧
      event.bytes ≠ [] := by
  cases bytes with
  | nil => simp [nextArgument] at h
  | cons id rest =>
    rw [nextArgument] at h
    split at h
    all_goals
      simp only [Except.ok.injEq, Prod.mk.injEq] at h
      obtain ⟨rfl, rfl⟩ := h
      simp_all [Event.bytes]

/-- In an operand list, an event takes off exactly the bytes that it stands for. -/
theorem nextOperand_eq_ok {instruction : InstructionHead} {argument : ArgumentHead} {address : Nat}
    {bytes : Bytes} {event : Event} {after : Cursor}
    (h : nextOperand instruction argument address bytes = .ok (event, after)) :
    bytes = event.bytes ++ after.rest ∧ after.address = address + event.bytes.length ∧
      event.bytes ≠ [] := by
  cases bytes with
  | nil => simp [nextOperand] at h
  | cons tag rest =>
    rw [nextOperand] at h
    split at h
    case isTrue isEnd =>
      simp only [Except.ok.injEq, Prod.mk.injEq] at h
      obtain ⟨rfl, rfl⟩ := h
      simp [Event.bytes, isEnd]
    case isFalse =>
      split at h
      case h_1 => simp at h
      case h_2 shape _ =>
        split at h
        case h_1 => simp at h
        case h_2 value last taken =>
          simp only [Except.ok.injEq, Prod.mk.injEq] at h
          obtain ⟨rfl, rfl⟩ := h
          obtain ⟨rfl, -, -⟩ := Value.read_eq_ok taken
          refine ⟨rfl, ?_, by simp [Event.bytes, Operand.bytes]⟩
          simp [Event.bytes, Operand.finish, Nat.add_assoc]

/-- An event takes off exactly the bytes that it stands for, and they are never none. -/
theorem next_eq_ok {cursor after : Cursor} {event : Event} (h : cursor.next = .ok (event, after)) :
    cursor.rest = event.bytes ++ after.rest ∧
      after.address = cursor.address + event.bytes.length ∧ event.bytes ≠ [] := by
  unfold next at h
  split at h
  · exact nextUnit_eq_ok h
  · exact nextArgument_eq_ok h
  · exact nextOperand_eq_ok h

/-- An event leaves fewer bytes than there were. -/
theorem length_rest_lt {cursor after : Cursor} {event : Event}
    (h : cursor.next = .ok (event, after)) : after.rest.length < cursor.rest.length := by
  obtain ⟨rest, -, nonempty⟩ := next_eq_ok h
  have := List.length_pos_iff.mpr nonempty
  rw [rest, List.length_append]
  omega

end Cursor

end NovelScript
