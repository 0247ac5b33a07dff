import NovelScript.Proofs.Assembly

/-!
# Cut off or corrupt

A byte string that is no script is either the front of one, or nothing that follows can save it.
Decoding tells the two apart by the fault that it reports. When the byte string ends too early the
bytes that are missing can be made up: first those of the event that was cut off
(`Cursor.next_eq_error`), then the ends of the lists that are open (`Level.exists_closing`). When a
tag is unknown it stays so, whatever stands behind it.

Both rest on one fact about readings: they depend on what lies behind them only through the byte at
which a run of raw text ends (`Cursor.Reads.with_rest`).
-/

set_option autoImplicit false

namespace NovelScript

/-! ## Values that are cut off -/

/-- Taking bytes fails only if there are too few, and says how many were asked for. -/
theorem takeBytes_eq_error {address count : Nat} {bytes : Bytes} {fault : FormatError}
    (failed : takeBytes address count bytes = .error fault) :
    fault = .truncated address count ∧ bytes.length < count := by
  unfold takeBytes at failed
  split at failed
  case h_1 => simp at failed
  case h_2 none =>
    simp only [Except.error.injEq] at failed
    exact ⟨failed.symm, Bytes.split?_eq_none_iff.mp none⟩

/-- Too few bytes can be filled up. -/
theorem Bytes.exists_length_append {count : Nat} {bytes : Bytes} (short : bytes.length ≤ count) :
    ∃ more : Bytes, (bytes ++ more).length = count := by
  refine ⟨List.replicate (count - bytes.length) 0, ?_⟩
  rw [List.length_append, List.length_replicate]
  omega

namespace Value

variable {shape : Shape} {address width : Nat} {bytes : Bytes} {fault : FormatError}

/-- A value of fixed width is missed as a whole. -/
theorem read_eq_error_of_width (fixed : shape.width? = some width)
    (failed : read shape address bytes = .error fault) :
    fault = .truncated address width ∧ bytes.length < width := by
  cases shape
  case string => simp [Shape.width?] at fixed
  case marker => simp [read] at failed
  all_goals
    simp only [Shape.width?, Option.some.injEq] at fixed
    subst fixed
    simp only [read, bind, Except.bind, pure, Except.pure] at failed
    split at failed
    · rename_i cut
      obtain ⟨rfl, short⟩ := takeBytes_eq_error cut
      simp only [Except.error.injEq] at failed
      exact ⟨failed.symm, short⟩
    · simp at failed

/-- Any bytes of the right number are a value of fixed width. -/
theorem exists_read_of_width (fixed : shape.width? = some width) (whole : bytes.length = width) :
    ∃ value, read shape address bytes = .ok (value, []) := by
  have taken := takeBytes_append whole address []
  rw [List.append_nil] at taken
  cases shape
  case string => simp [Shape.width?] at fixed
  case marker =>
    simp only [Shape.width?, Option.some.injEq] at fixed
    rw [← fixed, List.length_eq_zero_iff] at whole
    exact ⟨.marker, by rw [whole, read]⟩
  all_goals
    simp only [Shape.width?, Option.some.injEq] at fixed
    subst fixed
    simp only [read, taken, bind, Except.bind, pure, Except.pure]
    exact ⟨_, rfl⟩

/-- A string is read from its length and as many bytes. -/
theorem read_string_of_length {length payload : Bytes} (address : Nat) (wide : length.length = 4)
    (long : payload.length = LittleEndian.decode length) :
    read .string address (length ++ payload) = .ok (.string payload, []) := by
  have taken := takeBytes_append long (address + 4) []
  rw [List.append_nil] at taken
  simp only [read, takeBytes_append wide, taken, bind, Except.bind, pure, Except.pure]

/-- Of a string the length is missed, or the text behind it. -/
theorem read_string_eq_error (failed : read .string address bytes = .error fault) :
    fault = .truncated address 4 ∧ bytes.length < 4 ∨
      ∃ length payload, bytes = length ++ payload ∧ length.length = 4 ∧
        fault = .truncated (address + 4) (LittleEndian.decode length) ∧
        payload.length < LittleEndian.decode length := by
  simp only [read, bind, Except.bind, pure, Except.pure] at failed
  split at failed
  · rename_i cut
    simp only [Except.error.injEq] at failed
    subst failed
    exact .inl (takeBytes_eq_error cut)
  next parts first =>
  obtain ⟨length, payload⟩ := parts
  obtain ⟨rfl, wide⟩ := takeBytes_eq_ok first
  split at failed
  · rename_i cut
    simp only [Except.error.injEq] at failed
    subst failed
    exact .inr ⟨length, payload, rfl, wide, takeBytes_eq_error cut⟩
  · simp at failed

/-- A value is missed only where the bytes end, and it can be completed there. -/
theorem read_eq_error (failed : read shape address bytes = .error fault) :
    (∃ place needed, fault = .truncated place needed ∧ address ≤ place ∧
        place ≤ address + bytes.length ∧ address + bytes.length < place + needed) ∧
      ∃ more value, read shape address (bytes ++ more) = .ok (value, []) := by
  cases fixed : shape.width? with
  | some width =>
    obtain ⟨rfl, short⟩ := read_eq_error_of_width fixed failed
    obtain ⟨more, whole⟩ := Bytes.exists_length_append (Nat.le_of_lt short)
    refine ⟨⟨address, width, rfl, by omega, by omega, by omega⟩, more, ?_⟩
    exact exists_read_of_width fixed whole
  | none =>
    obtain rfl : shape = .string := by
      cases shape <;> simp_all [Shape.width?]
    rcases read_string_eq_error failed with
      ⟨rfl, short⟩ | ⟨length, payload, rfl, wide, rfl, short⟩
    · refine ⟨⟨address, 4, rfl, by omega, by omega, by omega⟩, ?_⟩
      obtain ⟨more, wide⟩ := Bytes.exists_length_append (Nat.le_of_lt short)
      -- The length is made up, and then as many bytes of text as it says.
      obtain ⟨payload, long⟩ : ∃ payload : Bytes,
          payload.length = LittleEndian.decode (bytes ++ more) :=
        ⟨List.replicate _ 0, List.length_replicate⟩
      refine ⟨more ++ payload, .string payload, ?_⟩
      rw [← List.append_assoc]
      exact read_string_of_length address wide long
    · rw [List.length_append, wide]
      refine ⟨⟨address + 4, _, rfl, by omega, by omega, by omega⟩, ?_⟩
      obtain ⟨more, long⟩ := Bytes.exists_length_append (Nat.le_of_lt short)
      refine ⟨more, .string (payload ++ more), ?_⟩
      rw [List.append_assoc]
      exact read_string_of_length address wide long

end Value

/-! ## Readings that fail -/

namespace Cursor

variable {cursor after : Cursor} {events : List Event} {fault : FormatError}

/-- A place with other bytes behind it. -/
def withRest (cursor : Cursor) (rest : Bytes) : Cursor :=
  { cursor with rest }

/-- Whether the event at a place is cut off: the bytes end inside it, and with more of them it is
read to its end. -/
def IsCutOff (cursor : Cursor) (fault : FormatError) : Prop :=
  (∃ place needed, fault = .truncated place needed ∧ cursor.address ≤ place ∧
      place ≤ cursor.address + cursor.rest.length ∧
      cursor.address + cursor.rest.length < place + needed) ∧
    ∃ more event after, (cursor.withRest (cursor.rest ++ more)).next = .ok (event, after) ∧
      after.rest = []

/-- Whether the byte at a place can start nothing there. -/
def IsCorrupt (cursor : Cursor) (fault : FormatError) : Prop :=
  ∃ tag, cursor.rest.head? = some tag ∧
    (cursor.level = .units ∧ fault = .unknownUnitTag tag cursor.address ∧ isText tag = false ∧
        tag ≠ terminatorTag ∧ tag ≠ instructionTag ∨
      (∃ head argument, cursor.level = .operands head argument) ∧
        fault = .unknownOperandTag tag cursor.address ∧ tag ≠ listEnd ∧ Shape.ofTag? tag = none)

/-- Where nothing is left a single byte is missed. -/
theorem isCutOff_of_nil {address : Nat} {level : Level} (more : Bytes)
    (read : ∃ event after, next { address, rest := more, level } = .ok (event, after) ∧
      after.rest = []) :
    IsCutOff { address, rest := [], level } (.truncated address 1) := by
  refine ⟨⟨address, 1, rfl, Nat.le_refl _, Nat.le_refl _, Nat.lt_succ_self _⟩, more, ?_⟩
  exact read

/-- Between units, reading fails because bytes are missing or because of a bad tag. -/
theorem nextUnit_eq_error {address : Nat} {bytes : Bytes}
    (failed : nextUnit address bytes = .error fault) :
    IsCutOff { address, rest := bytes, level := .units } fault ∨
      IsCorrupt { address, rest := bytes, level := .units } fault := by
  cases bytes with
  | nil =>
    simp only [nextUnit, Except.error.injEq] at failed
    subst failed
    exact .inl (isCutOff_of_nil [terminatorTag] ⟨_, _, rfl, rfl⟩)
  | cons tag rest =>
    rw [nextUnit] at failed
    split at failed
    case isTrue => simp at failed
    case isFalse notTerminator =>
      split at failed
      case isTrue isInstruction =>
        split at failed
        case h_2 => simp at failed
        case h_1 cut =>
          simp only [Except.error.injEq] at failed
          subst failed
          obtain ⟨rfl, short⟩ := takeBytes_eq_error cut
          obtain ⟨more, whole⟩ := Bytes.exists_length_append (Nat.le_of_lt short)
          have taken := takeBytes_append whole (address + 1) []
          rw [List.append_nil] at taken
          refine .inl ⟨⟨address + 1, 2, rfl, ?_, ?_, ?_⟩, more, ?_⟩
          · simp
          · simp
          · simp only [List.length_cons]
            omega
          · simp only [withRest, next, List.cons_append, nextUnit, if_neg notTerminator,
              if_pos isInstruction, taken]
            exact ⟨_, _, rfl, rfl⟩
      case isFalse notInstruction =>
        split at failed
        case isTrue => simp at failed
        case isFalse notText =>
          simp only [Except.error.injEq] at failed
          exact .inr ⟨tag, rfl, .inl ⟨rfl, failed.symm, by simpa using notText, notTerminator,
            notInstruction⟩⟩

/-- In an argument list, reading fails only because bytes are missing. -/
theorem nextArgument_eq_error {head : InstructionHead} {count address : Nat} {bytes : Bytes}
    (failed : nextArgument head count address bytes = .error fault) :
    IsCutOff { address, rest := bytes, level := .arguments head count } fault := by
  cases bytes with
  | nil =>
    simp only [nextArgument, Except.error.injEq] at failed
    subst failed
    exact isCutOff_of_nil [listEnd] ⟨_, _, rfl, rfl⟩
  | cons id rest =>
    rw [nextArgument] at failed
    split at failed <;> simp at failed

/-- In an operand list, reading fails because bytes are missing or because of a bad tag. -/
theorem nextOperand_eq_error {head : InstructionHead} {argument : ArgumentHead} {address : Nat}
    {bytes : Bytes} (failed : nextOperand head argument address bytes = .error fault) :
    IsCutOff { address, rest := bytes, level := .operands head argument } fault ∨
      IsCorrupt { address, rest := bytes, level := .operands head argument } fault := by
  cases bytes with
  | nil =>
    simp only [nextOperand, Except.error.injEq] at failed
    subst failed
    exact .inl (isCutOff_of_nil [listEnd] ⟨_, _, rfl, rfl⟩)
  | cons tag rest =>
    rw [nextOperand] at failed
    split at failed
    case isTrue => simp at failed
    case isFalse notEnd =>
      split at failed
      case h_1 unknown =>
        simp only [Except.error.injEq] at failed
        exact .inr ⟨tag, rfl, .inr ⟨⟨head, argument, rfl⟩, failed.symm, notEnd, unknown⟩⟩
      case h_2 shape known =>
        split at failed
        case h_2 => simp at failed
        case h_1 cut =>
          simp only [Except.error.injEq] at failed
          subst failed
          obtain ⟨⟨place, needed, rfl, low, high, short⟩, more, value, read⟩ :=
            Value.read_eq_error cut
          refine .inl ⟨⟨place, needed, rfl, ?_, ?_, ?_⟩, more, ?_⟩
          · simp only
            omega
          · simp only [List.length_cons]
            omega
          · simp only [List.length_cons]
            omega
          · simp only [withRest, next, List.cons_append, nextOperand, if_neg notEnd, known, read]
            exact ⟨_, _, rfl, rfl⟩

/-- A reading fails because the event is cut off, or because of the byte at which it starts. -/
theorem next_eq_error (failed : cursor.next = .error fault) :
    cursor.IsCutOff fault ∨ cursor.IsCorrupt fault := by
  obtain ⟨address, rest, level⟩ := cursor
  cases level with
  | units => exact nextUnit_eq_error failed
  | arguments head count => exact .inl (nextArgument_eq_error failed)
  | operands head argument => exact nextOperand_eq_error failed

/-- A byte that can start nothing is all that is looked at. -/
theorem IsCorrupt.next_withRest (corrupt : cursor.IsCorrupt fault) {rest : Bytes}
    (same : rest.head? = cursor.rest.head?) : (cursor.withRest rest).next = .error fault := by
  obtain ⟨tag, found, sort⟩ := corrupt
  rw [found] at same
  obtain ⟨more, rfl⟩ := List.head?_eq_some_iff.mp same
  rcases sort with ⟨level, rfl, notText, notTerminator, notInstruction⟩ |
    ⟨⟨head, argument, level⟩, rfl, notEnd, unknown⟩
  · simp only [withRest, next, level, nextUnit, notTerminator, notInstruction, notText, if_false,
      Bool.false_eq_true]
  · simp only [withRest, next, level, nextOperand, notEnd, unknown, if_false]

/-! ## What lies behind a reading -/

/-- Readings are the same with other bytes behind them; between units, where they may have ended a
run of raw text, the first of these bytes has to stay. -/
theorem Reads.with_rest (reads : cursor.Reads events after) (rest : Bytes)
    (same : after.level = .units → rest.head? = after.rest.head?) :
    (cursor.withRest (events.flatMap Event.bytes ++ rest)).Reads events (after.withRest rest) := by
  apply reads_of_trace_append reads.trace rest
  intro last member isRun b hb
  obtain ⟨between, longest⟩ := reads.longest last member isRun
  rw [same between] at hb
  exact longest b hb

/-- Two runs of readings follow each other. -/
theorem Reads.trans {middle : Cursor} {more : List Event} (reads : cursor.Reads events middle)
    (rest : middle.Reads more after) : cursor.Reads (events ++ more) after := by
  induction reads with
  | nil => exact rest
  | cons read _ ih => exact .cons read (ih rest)

end Cursor

/-- Every list that is open can be closed. -/
theorem Level.exists_closing (level : Level) (address : Nat) :
    ∃ bytes events last, Cursor.Reads { address, rest := bytes, level } events last ∧
      last.isDone = true ∧ (level = .units → bytes = []) := by
  have closed : ∀ events finish, Trace level address events .units finish →
      (level = .units → events = []) →
      ∃ bytes events last, Cursor.Reads { address, rest := bytes, level } events last ∧
        last.isDone = true ∧ (level = .units → bytes = []) := by
    intro events finish trace nothing
    refine ⟨_, events, _, Cursor.reads_of_trace trace, rfl, ?_⟩
    intro isUnits
    rw [nothing isUnits]
    rfl
  cases level with
  | units => exact closed [] address (.nil _ _) fun _ => rfl
  | arguments head count =>
    have last : Trace (.arguments head count) address [.instructionEnd head (address + 1)] .units
        (address + 1) :=
      .cons (.instructionEnd head count address) (Event.apart_of_not_isText rfl _) (.nil _ _)
    exact closed _ _ last (by simp)
  | operands head argument =>
    have last : Trace (.operands head argument) address
        [.argumentEnd argument, .instructionEnd head (address + 1 + 1)] .units (address + 1 + 1) :=
      .cons (.argumentEnd head argument address) (Event.apart_of_not_isText rfl _)
        (.cons (.instructionEnd head argument.ordinal (address + 1))
          (Event.apart_of_not_isText rfl _) (.nil _ _))
    exact closed _ _ last (by simp)

/-! ## Faults -/

section Faults

variable {data : Bytes} {events : List Event} {after : Cursor} {fault : FormatError}

/-- A fault is found by reading up to it. -/
theorem exists_reads_of_fault? (found : fault? data = some fault) :
    ∃ events after, (Cursor.start data).Reads events after ∧ after.isDone = false ∧
      after.next = .error fault := by
  obtain ⟨after, reads, stop⟩ := reads_events data
  rcases stop with ⟨-, sound⟩ | ⟨more, other, failed, again⟩
  · simp [sound] at found
  · rw [again, Option.some.injEq] at found
    exact ⟨_, after, reads, more, found ▸ failed⟩

/-- What is cut off can be completed to a script. -/
theorem exists_extension_of_isCutOff (reads : (Cursor.start data).Reads events after)
    (more : after.isDone = false) (cut : after.IsCutOff fault) :
    ∃ missing, fault? (data ++ missing) = none := by
  obtain ⟨-, missing, event, place, read, nothing⟩ := cut
  obtain ⟨closing, ends, last, closed, done, bare⟩ := place.level.exists_closing place.address
  have inside : after.level = .units → after.rest ≠ [] := by
    rintro isUnits empty
    simp [Cursor.isDone, isUnits, empty] at more
  have front := reads.with_rest (after.rest ++ (missing ++ closing)) (by
    intro isUnits
    obtain ⟨first, _, spelled⟩ := List.exists_cons_of_ne_nil (inside isUnits)
    rw [spelled, List.cons_append, List.head?_cons, List.head?_cons])
  have middle := (Cursor.Reads.cons read (.nil place)).with_rest closing (by
    intro isUnits
    rw [bare isUnits, nothing])
  -- The event that was cut off is spelled by what was left of it and by what is missing.
  have spelled := (Cursor.next_eq_ok read).1
  simp only [Cursor.withRest, nothing, List.append_nil] at spelled
  simp only [Cursor.withRest, List.flatMap_cons, List.flatMap_nil, List.append_nil, ← spelled,
    List.append_assoc] at front middle
  have whole : data = events.flatMap Event.bytes ++ after.rest := reads.rest_eq
  refine ⟨missing ++ closing, ?_⟩
  rw [whole, List.append_assoc]
  exact fault?_eq_none_of_reads (front.trans (middle.trans closed)) done

/-- What is corrupt stays so with everything behind its first byte exchanged. -/
theorem fault?_of_isCorrupt (reads : (Cursor.start data).Reads events after)
    (corrupt : after.IsCorrupt fault) {rest : Bytes} (same : rest.head? = after.rest.head?) :
    fault? (events.flatMap Event.bytes ++ rest) = some fault := by
  refine fault?_eq_some_of_reads (reads.with_rest rest fun _ => same) ?_
    (corrupt.next_withRest same)
  obtain ⟨tag, found, -⟩ := corrupt
  rw [found] at same
  obtain ⟨more, rfl⟩ := List.head?_eq_some_iff.mp same
  simp [Cursor.isDone, Cursor.withRest]

end Faults

namespace FormatError

/-- Whether a fault is that the byte string ends too early. -/
def isTruncation : FormatError → Bool
  | truncated .. => true
  | _ => false

/-- The address at which a fault was met. -/
def address : FormatError → Nat
  | unknownUnitTag _ address => address
  | unknownOperandTag _ address => address
  | truncated address _ => address

/-- Whether what a fault says is true of a byte string. -/
def Describes (data : Bytes) : FormatError → Prop
  | unknownUnitTag tag address =>
    data[address]? = some tag ∧ tag < textFloor ∧ tag ≠ terminatorTag ∧ tag ≠ instructionTag
  | unknownOperandTag tag address =>
    data[address]? = some tag ∧ tag ≠ listEnd ∧ Shape.ofTag? tag = none
  | truncated address needed => address ≤ data.length ∧ data.length < address + needed

end FormatError

section Classification

variable {data : Bytes} {events : List Event} {after : Cursor} {fault : FormatError}

/-- Where bytes are missing, the fault is a truncation that says where and how many. -/
theorem describes_of_isCutOff (reads : (Cursor.start data).Reads events after)
    (cut : after.IsCutOff fault) : fault.isTruncation = true ∧ fault.Describes data := by
  obtain ⟨⟨place, needed, rfl, low, high, short⟩, -⟩ := cut
  have whole : data = events.flatMap Event.bytes ++ after.rest := reads.rest_eq
  have length := congrArg List.length whole
  have address := reads.trace.finish_eq
  rw [List.length_append] at length
  simp only [Cursor.start] at address
  refine ⟨rfl, ?_, ?_⟩
  · omega
  · omega

/-- Where a tag is bad, the fault is no truncation, and it says where and which. -/
theorem describes_of_isCorrupt (reads : (Cursor.start data).Reads events after)
    (corrupt : after.IsCorrupt fault) :
    fault.isTruncation = false ∧ fault.address = (events.flatMap Event.bytes).length ∧
      fault.Describes data := by
  obtain ⟨tag, found, sort⟩ := corrupt
  have address := reads.trace.finish_eq
  simp only [Cursor.start, Nat.zero_add] at address
  have here : data[after.address]? = some tag := by
    have whole : data = events.flatMap Event.bytes ++ after.rest := reads.rest_eq
    rw [whole, address, List.getElem?_append_right (Nat.le_refl _), Nat.sub_self,
      ← List.head?_eq_getElem?, found]
  rcases sort with ⟨-, rfl, notText, notTerminator, notInstruction⟩ | ⟨-, rfl, notEnd, unknown⟩
  · refine ⟨rfl, address, here, ?_, notTerminator, notInstruction⟩
    simpa [isText] using notText
  · exact ⟨rfl, address, here, notEnd, unknown⟩

/-- A fault is true of the byte string, and is a truncation exactly when the byte string can be
completed; otherwise it is met again in everything that goes on behind the byte at fault, and in what
ends with that byte. -/
theorem fault?_cases (found : fault? data = some fault) :
    fault.Describes data ∧
      (fault.isTruncation = true ∧ (∃ missing, fault? (data ++ missing) = none) ∨
        fault.isTruncation = false ∧ (∀ more, fault? (data ++ more) = some fault) ∧
          fault? (data.take (fault.address + 1)) = some fault) := by
  obtain ⟨events, after, reads, more, failed⟩ := exists_reads_of_fault? found
  have whole : data = events.flatMap Event.bytes ++ after.rest := reads.rest_eq
  rcases Cursor.next_eq_error failed with cut | corrupt
  · obtain ⟨truncation, describes⟩ := describes_of_isCutOff reads cut
    exact ⟨describes, .inl ⟨truncation, exists_extension_of_isCutOff reads more cut⟩⟩
  · obtain ⟨unknown, address, describes⟩ := describes_of_isCorrupt reads corrupt
    obtain ⟨tag, head, -⟩ := id corrupt
    obtain ⟨rest, spelled⟩ := List.head?_eq_some_iff.mp head
    refine ⟨describes, .inr ⟨unknown, ?_, ?_⟩⟩
    · intro more
      rw [whole, List.append_assoc]
      apply fault?_of_isCorrupt reads corrupt
      rw [spelled, List.cons_append, List.head?_cons, List.head?_cons]
    · have front : data.take (fault.address + 1) = events.flatMap Event.bytes ++ [tag] := by
        rw [whole, address, List.take_length_add_append, spelled, List.take_succ_cons,
          List.take_zero]
      rw [front]
      apply fault?_of_isCorrupt reads corrupt
      rw [head, List.head?_singleton]

/-- A byte string decodes exactly when it has no fault. -/
theorem decode_eq_ok_iff_fault? : (∃ commands, decode data = .ok commands) ↔ fault? data = none := by
  constructor
  · rintro ⟨commands, decoded⟩
    obtain ⟨_, transcript, -⟩ := decode_eq_ok_iff.mp decoded
    exact (transcript_iff.mp transcript).2
  · intro sound
    exact ⟨_, (transcript_iff.mpr ⟨rfl, sound⟩).decode⟩

end Classification

/-- Decoding reports a truncation exactly on the byte strings that are the front of a script, and an
unknown tag exactly on those that are not; what it reports is true of the byte string, and an
unknown tag is reported again whatever follows it, also when nothing does. So the front of a script
is a script or is reported as truncated. -/
theorem decode_error_classified (data : Bytes) :
    (∀ fault, decode data = .error fault →
      (fault.isTruncation = true ↔ ∃ more commands, decode (data ++ more) = .ok commands) ∧
      (fault.isTruncation = false ↔ ∀ more commands, decode (data ++ more) ≠ .ok commands) ∧
      fault.Describes data ∧
      (fault.isTruncation = false →
        (∀ more, decode (data ++ more) = .error fault) ∧
          decode (data.take (fault.address + 1)) = .error fault)) ∧
      ∀ more commands, decode (data ++ more) = .ok commands →
        (∃ front, decode data = .ok front) ∨
          ∃ address needed, decode data = .error (.truncated address needed) := by
  have classified : ∀ fault, decode data = .error fault →
      (fault.isTruncation = true ↔ ∃ more commands, decode (data ++ more) = .ok commands) ∧
      fault.Describes data ∧
      (fault.isTruncation = false →
        (∀ more, decode (data ++ more) = .error fault) ∧
          decode (data.take (fault.address + 1)) = .error fault) := by
    intro fault failed
    simp only [decode_eq_error_iff, decode_eq_ok_iff_fault?] at failed ⊢
    obtain ⟨describes, ⟨truncation, missing, completed⟩ | ⟨unknown, again, alone⟩⟩ :=
      fault?_cases failed
    · refine ⟨⟨fun _ => ⟨missing, completed⟩, fun _ => truncation⟩, describes, ?_⟩
      intro unknown
      simp [truncation] at unknown
    · refine ⟨⟨?_, ?_⟩, describes, fun _ => ⟨again, alone⟩⟩
      · intro truncation
        simp [unknown] at truncation
      · rintro ⟨more, completed⟩
        simp [again more] at completed
  refine ⟨?_, ?_⟩
  · intro fault failed
    obtain ⟨truncation, describes, again⟩ := classified fault failed
    refine ⟨truncation, ?_, describes, again⟩
    rw [← Bool.not_eq_true, truncation]
    simp only [not_exists, ne_eq]
  · intro more commands completed
    cases decoded : decode data with
    | ok front => exact .inl ⟨front, rfl⟩
    | error fault =>
      have truncation := (classified fault decoded).1.mpr ⟨more, commands, completed⟩
      cases fault with
      | truncated address needed => exact .inr ⟨address, needed, rfl⟩
      | unknownUnitTag => simp [FormatError.isTruncation] at truncation
      | unknownOperandTag => simp [FormatError.isTruncation] at truncation

/-- An instruction that ends within its executor can be completed, and one with an operand of an
unknown tag cannot. -/
theorem decode_error_classified_instructions :
    (decode [0x1B, 1] = .error (.truncated 1 2) ∧
        ∃ more commands, decode ([0x1B, 1] ++ more) = .ok commands) ∧
      ∀ more, decode ([0x1B, 1, 0, 5, 0xEE] ++ more) = .error (.unknownOperandTag 0xEE 4) := by
  have cutOff : decode [0x1B, 1] = .error (.truncated 1 2) := by
    decide +kernel
  have corrupt : decode [0x1B, 1, 0, 5, 0xEE] = .error (.unknownOperandTag 0xEE 4) := by
    decide +kernel
  refine ⟨⟨cutOff, ?_⟩, ?_⟩
  · exact ((decode_error_classified _).1 _ cutOff).1.mp rfl
  · exact (((decode_error_classified _).1 _ corrupt).2.2.2 rfl).1

end NovelScript
