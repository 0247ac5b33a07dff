import NovelScript.Proofs.DumpLines
import NovelScript.Proofs.Structure

/-!
# What is typed is what a new dump shows

A translator types over the texts of a dump and leaves the rest of it alone. `stream` says what the
dump is then, line by line. Injecting it gives a script whose own dump shows the typed texts again,
under addresses that have moved along, with every mark where it was (`dump_inject_typed`).

The pieces of the new script are those of the old one with other texts and addresses. What their
lines look like without their texts is known from the old pieces (`Piece.blank`), and their texts
are what the typed lines put back. A typed text may be any that survives being taken from its line
and written again (`TextUnit.Editable`).
-/

set_option autoImplicit false

namespace NovelScript

/-- Whether a text can be typed in the line of a text unit. A string takes any text of a single
line whose length can be stored; a run takes raw text that does not open like a marked line. -/
def TextUnit.Editable : TextUnit → Bytes → Prop
  | string .., text => Bytes.cr ∉ text ∧ Bytes.lf ∉ text ∧ text.length < 0x100000000
  | run _, text => text ≠ [] ∧ (∀ b ∈ text, isText b = true) ∧
      ¬ Bytes.ascii "[Spec" <+: text ∧ ¬ Bytes.ascii "[pre_unfinish]" <+: text

namespace TextUnit.Editable

variable {unit : TextUnit} {text : Bytes}

/-- A text that can be typed for a unit has no byte that breaks lines. -/
theorem noBreaks (editable : unit.Editable text) : Bytes.cr ∉ text ∧ Bytes.lf ∉ text := by
  cases unit with
  | string operand payload => exact ⟨editable.1, editable.2.1⟩
  | run r =>
    have raw := editable.2.1
    constructor
    · intro member
      exact absurd (raw _ member) (by decide)
    · intro member
      exact absurd (raw _ member) (by decide)

/-- A unit accepts the text that is taken from what can be typed for it. -/
theorem accepts (editable : unit.Editable text) :
    unit.Accepts (Line.taken unit.isString text) := by
  cases unit with
  | string operand payload => exact Nat.lt_of_le_of_lt (Line.length_unescape_le text) editable.2.2
  | run r =>
    obtain ⟨nonempty, raw, noCategory, noUnfinished⟩ := editable
    show Line.strip text ≠ [] ∧ ∀ b ∈ Line.strip text, isText b = true
    rw [Line.strip_eq_self noCategory noUnfinished]
    exact ⟨nonempty, raw⟩

/-- What can be typed for a unit is written again just as it was typed. -/
theorem written_taken (editable : unit.Editable text) :
    Line.written unit.isString (Line.taken unit.isString text) = text := by
  cases unit with
  | string operand payload => exact Line.escape_unescape editable.1 editable.2.1
  | run r => exact Line.strip_eq_self editable.2.2.1 editable.2.2.2

end TextUnit.Editable

/-! ## Pieces without their texts -/

namespace Piece

/-- A piece without its text. -/
def blank : Piece → Piece
  | unfinished => .unfinished
  | string address category _ => .string address category []
  | run address _ => .run address []

/-- The address in front of a line. -/
def address? : Piece → Option Nat
  | unfinished => none
  | string address _ _ => some address
  | run address _ => some address

/-- A piece with another address. -/
def moved (f : Nat → Nat) : Piece → Piece
  | unfinished => .unfinished
  | string address category payload => .string (f address) category payload
  | run address bytes => .run (f address) bytes

/-- Blanking out texts and moving addresses can be done in either order. -/
theorem map_blank_map_moved (f : Nat → Nat) (pieces : List Piece) :
    (pieces.map (moved f)).map blank = (pieces.map blank).map (moved f) := by
  rw [List.map_map, List.map_map]
  apply List.map_congr_left
  intro piece _
  cases piece <;> rfl

/-- Pieces keep their texts at other addresses. -/
theorem filterMap_text?_map_moved (f : Nat → Nat) (pieces : List Piece) :
    (pieces.map (moved f)).filterMap text? = pieces.filterMap text? := by
  rw [List.filterMap_map]
  apply List.filterMap_congr
  intro piece _
  cases piece <;> rfl

end Piece

/-- The texts of the pieces have no part in a text stream, only those that are typed. -/
theorem stream_map_blank (pieces : List Piece) (typed : List TypedLine) :
    stream (pieces.map Piece.blank) typed = stream pieces typed := by
  fun_induction stream pieces typed with
  | case1 => rfl
  | case2 pieces typed ih =>
    show Line.unfinishedMark ++ stream (pieces.map Piece.blank) typed = _
    rw [ih]
  | case3 piece pieces notMark ih =>
    cases piece with
    | unfinished => exact absurd rfl notMark
    | string => exact congrArg _ ih
    | run => exact congrArg _ ih
  | case4 piece pieces line typed notMark ih =>
    cases piece with
    | unfinished => exact absurd rfl notMark
    | string => exact congrArg (fun rest => _ ++ (line.bytes ++ rest)) ih
    | run => exact congrArg (fun rest => _ ++ (line.bytes ++ rest)) ih

/-- All lines of a unit are filed under the address of the unit. -/
theorem Command.address_of_mem_pieces {rules : TagRules} {command : Command} {piece : Piece}
    (member : piece ∈ command.pieces rules) {address : Nat} (filed : address ∈ piece.address?) :
    address = command.address := by
  cases command with
  | terminator => simp [Command.pieces] at member
  | text run =>
    obtain rfl := List.mem_singleton.mp member
    exact (Option.some.inj filed).symm
  | instruction i =>
    rcases List.mem_append.mp member with mark | line
    · split at mark
      · obtain rfl := List.mem_singleton.mp mark
        simp [Piece.address?] at filed
      · simp at mark
    · obtain ⟨argument, -, line⟩ := List.mem_flatMap.mp line
      obtain ⟨operand, -, line⟩ := List.mem_filterMap.mp line
      obtain ⟨payload, -, rfl⟩ := Option.map_eq_some_iff.mp line
      exact (Option.some.inj filed).symm

/-! ## The pieces of a new script -/

section Pieces

variable {data : Bytes} {p : Placement} (rules : TagRules) (f : Nat → Nat)

/-- A moved event writes the same pieces with moved addresses. -/
theorem Event.pieces_moved (event : Event) :
    (event.moved f).pieces rules = (event.pieces rules).map (Piece.moved f) := by
  cases event with
  | instructionStart head =>
    show (if rules.marksUnfinished head.executor then [Piece.unfinished] else []) =
      (if rules.marksUnfinished head.executor then [Piece.unfinished] else []).map (Piece.moved f)
    split <;> rfl
  | operand head argument operand =>
    show (operand.value.payload?.map _).toList = (operand.value.payload?.map _).toList.map _
    cases operand.value.payload? <;> rfl
  | _ => rfl

/-- A word that follows its target is in no line. -/
theorem Event.pieces_relocated (ledger : Ledger) (event : Event) :
    (event.relocated data ledger).pieces rules = event.pieces rules := by
  cases enrolled : event.enrolled? data with
  | none => rw [Event.relocated_of_none enrolled]
  | some word =>
    obtain ⟨head, argument, operand, rfl, own⟩ := Event.enrolled?_eq_some_iff.mp enrolled
    have isWord := (Operand.enrolled?_eq_some_iff.mp own).1
    rw [Event.relocated, Operand.relocated_of_some own]
    simp [Event.pieces, isWord, Value.payload?]

/-- A new event has the lines of the old one, up to their texts. -/
theorem Placement.Kind.blank_pieces_new (kind : p.Kind data) :
    (p.new.pieces rules).map Piece.blank = (p.old.pieces rules).map Piece.blank := by
  cases kind <;> rfl

/-- The text of a new event is the one that replaces the old one. -/
theorem Placement.Kind.text?_pieces_new (kind : p.Kind data) :
    (p.new.pieces rules).filterMap Piece.text? =
      p.replaced?.toList.map fun replaced => (replaced.1.isString, replaced.2) := by
  rw [Event.filterMap_text?_pieces]
  cases kind with
  | plain source target event textless unenrolled =>
    rw [Placement.replaced?, textless]
    rfl
  | _ => rfl

/-- What the new event of a placement writes is what the placed event writes, moved. -/
theorem Placement.pieces_rebuilt (ledger : Ledger) :
    (p.rebuilt data ledger f).pieces rules = (p.new.pieces rules).map (Piece.moved f) := by
  rw [Placement.rebuilt, Event.pieces_moved, Event.pieces_relocated]

end Pieces

section Dumps

variable {data : Bytes} {lines : List Bytes} {events : List Event}

/-- But for the texts, the placed events write what the old ones wrote. -/
theorem blank_pieces_ofLines (rules : TagRules) (transcript : Transcript data events) :
    ((Placement.ofLines lines events).flatMap fun p => p.new.pieces rules).map Piece.blank =
      (events.flatMap (Event.pieces rules)).map Piece.blank := by
  conv => rhs; rw [← map_old_placements 0 0 events (lines.map Line.replacement)]
  rw [List.flatMap_map, List.map_flatMap, List.map_flatMap]
  apply List.flatMap_congr
  intro p member
  have kind : p.Kind data := kind_of_mem transcript.trace member
  exact kind.blank_pieces_new rules

/-- The texts that the placed events write are those of the lines. -/
theorem text?_pieces_ofLines (rules : TagRules) (transcript : Transcript data events)
    (enough : (textUnits events).length ≤ lines.length) :
    ((Placement.ofLines lines events).flatMap fun p => p.new.pieces rules).filterMap Piece.text? =
      (replacements data lines).map fun replaced => (replaced.1.isString, replaced.2) := by
  rw [replacements, (transcript_iff.mp transcript).1, ← filterMap_replaced?_placements 0 0 events
    (lines.map Line.replacement) (by simpa using enough), List.filterMap_flatMap,
    List.filterMap_eq_flatMap_toList, List.map_flatMap]
  apply List.flatMap_congr
  intro p member
  have kind : p.Kind data := kind_of_mem transcript.trace member
  exact kind.text?_pieces_new rules

/-- The dump of a new script is the text stream of the old pieces at their new addresses, with the
texts that the lines put back. -/
theorem dump_of_injection (rules : TagRules) (transcript : Transcript data events)
    (enough : (textUnits events).length ≤ lines.length)
    (accepted : ∀ unit new, (unit, new) ∈ replacements data lines → unit.Accepts new) :
    ∃ second, dump rules (Injection.ofEvents data lines events).script = .ok second ∧
      second.text =
        stream
          ((events.flatMap (Event.pieces rules)).map
            (Piece.moved (Ledger.ofPlacements (Placement.ofLines lines events)).newAddress))
          ((replacements data lines).map fun replaced =>
            .ofText (replaced.1.isString, replaced.2)) := by
  have new := transcript_of_injection transcript enough accepted
  refine ⟨_, by rw [dump, new.decode], ?_⟩
  show ((Builder.assemble _).flatMap (Command.pieces rules)).flatMap Piece.bytes = _
  rw [← flatMap_pieces_events, Builder.flatMap_events_assemble new.trace, List.flatMap_map]
  simp only [Placement.pieces_rebuilt, ← List.map_flatMap]
  -- The new texts are known, and of the new pieces everything else.
  rw [flatMap_bytes_eq_stream, Piece.filterMap_text?_map_moved,
    text?_pieces_ofLines rules transcript enough, List.map_map, ← stream_map_blank,
    Piece.map_blank_map_moved, blank_pieces_ofLines rules transcript, ← Piece.map_blank_map_moved,
    stream_map_blank]
  rfl

/-- The address of a unit moves by the texts that start before it. -/
theorem newAddress_address {commands : List Command} (decoded : decode data = .ok commands)
    (lines : List Bytes) {command : Command} (member : command ∈ commands) :
    ((Ledger.ofPlacements (Placement.ofLines lines
        (commands.flatMap Command.events))).newAddress command.address : Int) =
      command.address + (Ledger.ofPlacements (Placement.ofLines lines
        (commands.flatMap Command.events))).deltaBefore command.address := by
  have transcript := transcript_of_decode decoded
  obtain ⟨before, after, hsplit⟩ := List.append_of_mem member
  obtain ⟨first, more, hfirst, starts, haddress⟩ := command.exists_events_eq_cons
  have split : commands.flatMap Command.events =
      before.flatMap Command.events ++ first :: (more ++ after.flatMap Command.events) := by
    rw [hsplit, List.flatMap_append, List.flatMap_cons, hfirst, List.cons_append]
  rw [newAddress_eq lines transcript, ← haddress, shiftPast_address transcript split starts]
  rfl

end Dumps

/-! ## Typed dumps -/

/-- The dump of some units, with other texts typed in its lines. -/
def typedDump (rules : TagRules) (commands : List Command) (typed : List TypedLine) : Bytes :=
  stream (commands.flatMap (Command.pieces rules)) typed

/-- A line that ends with a line feed alone. -/
def TypedLine.withFeed (line : TypedLine) : TypedLine :=
  { line with ending := .lf }

section Typed

variable {rules : TagRules} {data : Bytes} {commands : List Command} {typed : List TypedLine}

/-- A typed line puts back what is taken from its text. -/
theorem map_replacement_split_typedDump (rules : TagRules)
    (editable : List.Forall₂ (fun unit line => unit.Editable line.text)
      (commands.flatMap Command.textUnits) typed) :
    ∃ extra, (Line.split (typedDump rules commands typed)).map Line.replacement =
      List.zipWith (fun unit line => Line.taken unit.isString line.text)
        (commands.flatMap Command.textUnits) typed ++ extra := by
  have count : typed.length =
      ((commands.flatMap (Command.pieces rules)).filterMap Piece.text?).length := by
    rw [filterMap_text?_pieces, List.length_map]
    exact editable.length_eq.symm
  have noBreaks : ∀ line ∈ typed, Bytes.cr ∉ line.text ∧ Bytes.lf ∉ line.text := by
    intro line member
    rw [← List.map_snd_zip (Nat.le_of_eq editable.length_eq.symm)] at member
    obtain ⟨⟨unit, line⟩, pair, rfl⟩ := List.mem_map.mp member
    exact (List.forall₂_zip editable pair).noBreaks
  have nothing : ∀ b ∈ ([] : Bytes), isFront b = true := by simp
  obtain ⟨extra, hextra⟩ := map_replacement_split_stream count noBreaks nothing
  refine ⟨extra, ?_⟩
  rw [List.nil_append, filterMap_text?_pieces, List.zipWith_map_left] at hextra
  exact hextra

/-- A typed stream has a line for each text unit. -/
theorem length_split_typedDump (rules : TagRules)
    (editable : List.Forall₂ (fun unit line => unit.Editable line.text)
      (commands.flatMap Command.textUnits) typed) :
    (textUnits (commands.flatMap Command.events)).length ≤
      (Line.split (typedDump rules commands typed)).length := by
  obtain ⟨extra, hlines⟩ := map_replacement_split_typedDump rules editable
  have lengths := congrArg List.length hlines
  rw [List.length_map, List.length_append, List.length_zipWith, editable.length_eq,
    Nat.min_self] at lengths
  rw [textUnits_flatMap_events, editable.length_eq]
  omega

/-- Injecting a typed stream replaces each text by what is taken from its own line. -/
theorem replacements_typedDump (rules : TagRules) (decoded : decode data = .ok commands)
    (editable : List.Forall₂ (fun unit line => unit.Editable line.text)
      (commands.flatMap Command.textUnits) typed) :
    replacements data (Line.split (typedDump rules commands typed)) =
      ((commands.flatMap Command.textUnits).zip typed).map fun pair =>
        (pair.1, Line.taken pair.1.isString pair.2.text) := by
  obtain ⟨extra, hlines⟩ := map_replacement_split_typedDump rules editable
  have hevents := (transcript_iff.mp (transcript_of_decode decoded)).1
  rw [replacements, hlines, hevents, textUnits_flatMap_events]
  clear hlines
  generalize commands.flatMap Command.textUnits = units at editable
  induction editable with
  | nil => rfl
  | cons fits _ ih => simp [ih]

/-- A dump has a line for every text of the script. With other texts typed in its lines it can be
injected unless a jump leaves the range, and the dump of the new script then shows what was typed:
the same pieces in the same order, each line filed under its old address moved by the texts that
start before it, and ended by a line feed. -/
theorem dump_inject_typed (rules : TagRules) (decoded : decode data = .ok commands)
    (editable : List.Forall₂ (fun unit line => unit.Editable line.text)
      (commands.flatMap Command.textUnits) typed) :
    ∃ first, dump rules data = .ok first ∧ first.lines = typed.length ∧
      first.text = typedDump rules commands
        ((commands.flatMap Command.textUnits).map fun unit => .ofText unit.pieceText) ∧
      ((∃ site value, inject data (Line.split (typedDump rules commands typed)) =
          .error (.jumpOutOfRange site value)) ∨
        ∃ out second moved,
          inject data (Line.split (typedDump rules commands typed)) = .ok out ∧
          dump rules out.script = .ok second ∧
          (∀ piece ∈ commands.flatMap (Command.pieces rules), ∀ address ∈ piece.address?,
            (moved address : Int) = address + out.ledger.deltaBefore address) ∧
          second.text =
            stream ((commands.flatMap (Command.pieces rules)).map (Piece.moved moved))
              (typed.map TypedLine.withFeed)) := by
  have transcript := transcript_of_decode decoded
  have enough := length_split_typedDump rules editable
  have replaced := replacements_typedDump rules decoded editable
  have count : (commands.flatMap (Command.pieces rules)).countP Piece.isLine = typed.length := by
    rw [Piece.countP_isLine, filterMap_text?_pieces, List.length_map, editable.length_eq]
  refine ⟨_, by rw [dump, decoded], count, text_ofCommands rules data commands, ?_⟩
  -- From here on a line matters only by what it puts back.
  generalize Line.split (typedDump rules commands typed) = lines at enough replaced ⊢
  by_cases reachable : Reachable data lines (commands.flatMap Command.events)
  · right
    have accepted : ∀ unit new, (unit, new) ∈ replacements data lines → unit.Accepts new := by
      intro unit new member
      rw [replaced] at member
      obtain ⟨⟨unit, line⟩, pair, same⟩ := List.mem_map.mp member
      rw [Prod.mk.injEq] at same
      obtain ⟨rfl, rfl⟩ := same
      exact (List.forall₂_zip editable pair).accepts
    obtain ⟨second, dumped, shown⟩ := dump_of_injection rules transcript enough accepted
    have injected := inject_of_reachable transcript enough reachable
    refine ⟨_, second, Ledger.newAddress (.ofPlacements (Placement.ofLines lines
      (commands.flatMap Command.events))), injected, dumped, ?_, ?_⟩
    · intro piece member address filed
      obtain ⟨command, hcommand, line⟩ := List.mem_flatMap.mp member
      rw [Command.address_of_mem_pieces line filed]
      exact newAddress_address decoded lines hcommand
    · rw [shown, flatMap_pieces_events, replaced, List.map_map]
      congr 1
      conv => rhs; rw [← List.map_snd_zip (Nat.le_of_eq editable.length_eq.symm), List.map_map]
      apply List.map_congr_left
      intro pair member
      have again := (List.forall₂_zip editable member).written_taken
      simp only [Function.comp, TypedLine.ofText, TypedLine.withFeed, again]
  · left
    exact inject_of_not_reachable transcript enough reachable

/-- A run of raw text, a string in an instruction that marks unfinished text, and a mark that no
line follows: the second line is found under an address that has moved, and both marks stay. -/
theorem dump_inject_typed_between_marks :
    ∃ out second,
      inject
          [0x61, 0x1B, 0xF8, 1, 1, 4, 1, 0, 0, 0, 0x62, 0xFF, 0xFF, 0x1B, 0xF8, 1, 0xFF]
          (Line.split (Bytes.ascii
            "0:::::xyz\n[pre_unfinish]1:::::[Spec2][n]q\r\n[pre_unfinish]")) = .ok out ∧
        dump .standard out.script = .ok second ∧
        second.text =
          Bytes.ascii "0:::::xyz\n[pre_unfinish]3:::::[Spec2][n]q\n[pre_unfinish]" := by
  have decoded :
      decode [0x61, 0x1B, 0xF8, 1, 1, 4, 1, 0, 0, 0, 0x62, 0xFF, 0xFF, 0x1B, 0xF8, 1, 0xFF] =
        .ok [.text ⟨0, [0x61]⟩,
          .instruction ⟨⟨1, 0x1F8⟩, [⟨⟨4, 1, 1⟩, [⟨4, 5, .string [0x62]⟩]⟩], 13⟩,
          .instruction ⟨⟨13, 0x1F8⟩, [], 17⟩] := by
    decide +kernel
  have editable : List.Forall₂ (fun (unit : TextUnit) (line : TypedLine) => unit.Editable line.text)
      [.run ⟨0, [0x61]⟩, .string ⟨4, 5, .string [0x62]⟩ [0x62]]
      [⟨Bytes.ascii "xyz", .lf⟩, ⟨Bytes.ascii "[n]q", .crlf⟩] := by
    unfold TextUnit.Editable
    exact .cons (by decide +kernel) (.cons (by decide +kernel) .nil)
  have injected :
      inject
          [0x61, 0x1B, 0xF8, 1, 1, 4, 1, 0, 0, 0, 0x62, 0xFF, 0xFF, 0x1B, 0xF8, 1, 0xFF]
          (Line.split (Bytes.ascii
            "0:::::xyz\n[pre_unfinish]1:::::[Spec2][n]q\r\n[pre_unfinish]")) =
        .ok
          { script := [0x78, 0x79, 0x7A, 0x1B, 0xF8, 1, 1, 4, 2, 0, 0, 0, 0x0A, 0x71, 0xFF, 0xFF,
              0x1B, 0xF8, 1, 0xFF]
            ledger := ⟨[⟨0, 1, 3⟩, ⟨10, 1, 2⟩]⟩
            sites := []
            warnings := [.surplusLines 1] } := by
    decide +kernel
  have edited :
      typedDump .standard
          [.text ⟨0, [0x61]⟩,
            .instruction ⟨⟨1, 0x1F8⟩, [⟨⟨4, 1, 1⟩, [⟨4, 5, .string [0x62]⟩]⟩], 13⟩,
            .instruction ⟨⟨13, 0x1F8⟩, [], 17⟩]
          [⟨Bytes.ascii "xyz", .lf⟩, ⟨Bytes.ascii "[n]q", .crlf⟩] =
        Bytes.ascii "0:::::xyz\n[pre_unfinish]1:::::[Spec2][n]q\r\n[pre_unfinish]" := by
    decide +kernel
  obtain ⟨-, -, -, -, ⟨site, value, failed⟩ | ⟨out, second, moved, again, dumped, moves, shown⟩⟩ :=
    dump_inject_typed .standard decoded editable
  · rw [edited, injected] at failed
    simp at failed
  · rw [edited] at again
    have same := again.symm.trans injected
    rw [Except.ok.injEq] at same
    subst same
    have stays : moved 0 = 0 := by
      apply Int.ofNat_inj.mp
      exact (moves (.run 0 [0x61]) (by decide +kernel) 0 rfl).trans (by decide +kernel)
    have shifts : moved 1 = 3 := by
      apply Int.ofNat_inj.mp
      exact (moves (.string 1 .spec2 [0x62]) (by decide +kernel) 1 rfl).trans (by decide +kernel)
    refine ⟨_, second, again, dumped, ?_⟩
    rw [shown]
    show stream [.run (moved 0) [0x61], .unfinished, .string (moved 1) .spec2 [0x62], .unfinished]
      _ = _
    rw [stays, shifts]
    decide +kernel

end Typed

end NovelScript
