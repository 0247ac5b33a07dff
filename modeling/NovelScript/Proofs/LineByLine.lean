import Mathlib.Data.List.DropRight
import NovelScript.Proofs.Redump
import NovelScript.Proofs.WellFormed

/-!
# The text stream of a script, line by line

A mark of unfinished text is written where its instruction starts, and it has no line of its own: it
is glued to whichever line comes next. So the text stream that some events have been written to is a
number of whole lines, one for each of their texts, and behind these the marks that no line has
followed yet (`StreamLines`). An event without a text leaves the lines alone and may add a mark; an
event with a text turns the marks that are waiting and its own front into one more line.

Splitting the stream finds these lines again, since nothing that is written in them breaks a line,
and finds a last line more exactly when marks are left over (`split_streamLines`). The main statement
is `dump_lines_of_texts`.
-/

set_option autoImplicit false

namespace NovelScript

/-! ## What the lines should be -/

/-- What an event with a text is filed under, and what stands behind the separator of its line. -/
def Event.filed? (rules : TagRules) : Event → Option (Nat × Bytes)
  | operand instruction argument o => o.value.payload?.map fun payload =>
      (instruction.address,
        Bytes.ascii (rules.category instruction.executor argument).mark ++ Line.escape payload)
  | text run => some (run.address, run.bytes)
  | _ => none

/-- Whether an event starts an instruction that marks unfinished text. -/
def Event.isMark (rules : TagRules) : Event → Bool
  | instructionStart instruction => rules.marksUnfinished instruction.executor
  | _ => false

/-- The number of marks that wait for a line: those that were set behind the last text. -/
def waitingMarks (rules : TagRules) (events : List Event) : Nat :=
  (events.rtakeWhile fun event => event.textUnit?.isNone).countP (Event.isMark rules)

/-- Some marks of unfinished text, glued together. -/
def gluedMarks (count : Nat) : Bytes :=
  (List.replicate count Line.unfinishedMark).flatten

section Streams

variable {rules : TagRules} {events : List Event} {event : Event}

/-- An event files a line exactly when it has a text unit. -/
theorem Event.isSome_filed? (rules : TagRules) (event : Event) :
    (event.filed? rules).isSome = event.textUnit?.isSome := by
  cases event with
  | operand instruction argument o => simp [filed?, textUnit?, Operand.textUnit?]
  | _ => rfl

/-! ## Marks that wait -/

/-- No mark is waiting behind a text. -/
theorem waitingMarks_concat_of_text (has : event.textUnit?.isSome = true) :
    waitingMarks rules (events ++ [event]) = 0 := by
  unfold waitingMarks
  rw [List.rtakeWhile_concat_neg, List.countP_nil]
  simpa using Option.isSome_iff_ne_none.mp has

/-- Behind an event without text one more mark is waiting if the event writes one. -/
theorem waitingMarks_concat_of_none (none : event.textUnit? = none) :
    waitingMarks rules (events ++ [event]) =
      waitingMarks rules events + if event.isMark rules then 1 else 0 := by
  unfold waitingMarks
  rw [List.rtakeWhile_concat_pos _ _ _ (by simp [none]), List.countP_append, List.countP_singleton]

/-- One more mark is glued on at the end. -/
theorem gluedMarks_succ (count : Nat) :
    gluedMarks (count + 1) = gluedMarks count ++ Line.unfinishedMark := by
  rw [gluedMarks, List.replicate_succ', List.flatten_concat]
  rfl

/-- Marks can stand in front of a line. -/
theorem isFront_gluedMarks (count : Nat) : ∀ b ∈ gluedMarks count, isFront b = true := by
  intro b member
  obtain ⟨mark, hmark, member⟩ := List.mem_flatten.mp member
  rw [List.eq_of_mem_replicate hmark] at member
  exact isFront_unfinishedMark b member

/-- Marks that are waiting are written. -/
theorem gluedMarks_ne_nil {count : Nat} (waiting : count ≠ 0) : gluedMarks count ≠ [] := by
  obtain ⟨fewer, rfl⟩ := Nat.exists_eq_succ_of_ne_zero waiting
  rw [gluedMarks_succ]
  apply List.append_ne_nil_of_right_ne_nil
  decide +kernel

/-! ## What an event writes -/

/-- What an event adds to the text stream. -/
def Event.written (rules : TagRules) (event : Event) : Bytes :=
  (event.pieces rules).flatMap Piece.bytes

/-- An event that files a line writes its opening, its body and a line feed. -/
theorem Event.written_of_filed {address : Nat} {body : Bytes}
    (filed : event.filed? rules = some (address, body)) :
    event.written rules = Piece.opening address ++ body ++ [Bytes.lf] := by
  cases event with
  | operand instruction argument o =>
    obtain ⟨payload, has, same⟩ := Option.map_eq_some_iff.mp filed
    rw [Prod.mk.injEq] at same
    obtain ⟨rfl, rfl⟩ := same
    simp [written, pieces, has, Piece.bytes]
  | text run =>
    simp only [filed?, Option.some.injEq, Prod.mk.injEq] at filed
    obtain ⟨rfl, rfl⟩ := filed
    simp [written, pieces, Piece.bytes]
  | _ => simp [filed?] at filed

/-- An event without text writes a mark or nothing. -/
theorem Event.written_of_none (none : event.textUnit? = none) :
    event.written rules = if event.isMark rules then Line.unfinishedMark else [] := by
  cases event with
  | instructionStart instruction =>
    rw [written, pieces, isMark]
    split <;> simp [Piece.bytes]
  | operand instruction argument o =>
    have textless : o.value.payload? = Option.none := by
      simpa [textUnit?, Operand.textUnit?] using none
    simp [written, pieces, textless, isMark]
  | text => simp [textUnit?] at none
  | _ => rfl

/-- The text stream is what the events of the script write, one after the other. -/
theorem text_eq_flatMap_written (rules : TagRules) (data : Bytes) (commands : List Command) :
    (Dump.ofCommands rules data commands).text =
      (commands.flatMap Command.events).flatMap (Event.written rules) := by
  show (commands.flatMap (Command.pieces rules)).flatMap Piece.bytes = _
  rw [← flatMap_pieces_events, List.flatMap_assoc]
  rfl

/-! ## The stream behind some events -/

/-- Whether the text stream of some events is made of the given lines and the marks that wait. -/
structure StreamLines (rules : TagRules) (events : List Event) (lines : List Bytes) : Prop where
  /-- The stream is the lines, each with a line feed, and the marks. -/
  written : events.flatMap (Event.written rules) =
    (lines.flatMap fun line => line ++ [Bytes.lf]) ++ gluedMarks (waitingMarks rules events)
  /-- There is a line for each text. -/
  count : lines.length = (textUnits events).length
  /-- The line of a text takes the marks that waited when its event came. -/
  line : ∀ front event address body, front ++ [event] <+: events →
    event.filed? rules = some (address, body) →
      lines[(textUnits front).length]? =
        some (gluedMarks (waitingMarks rules front) ++ (Piece.opening address ++ body))
  /-- Every line is that of a text. -/
  origin : ∀ line ∈ lines, ∃ count, ∃ event ∈ events, ∃ address body,
    event.filed? rules = some (address, body) ∧
      line = gluedMarks count ++ (Piece.opening address ++ body)

namespace StreamLines

variable {lines : List Bytes}

/-- Without events there are no lines. -/
theorem nil (rules : TagRules) : StreamLines rules [] [] where
  written := rfl
  count := rfl
  line := by
    intro front event address body reached
    simp at reached
  origin := by simp

/-- An event without a text keeps the lines, and the next line gets its mark if it sets one. -/
theorem concat_of_none (stream : StreamLines rules events lines) (none : event.textUnit? = none) :
    StreamLines rules (events ++ [event]) lines where
  written := by
    rw [List.flatMap_append, List.flatMap_singleton, stream.written, Event.written_of_none none,
      waitingMarks_concat_of_none none, List.append_assoc]
    congr 1
    split
    · exact (gluedMarks_succ _).symm
    · exact List.append_nil _
  count := by
    rw [stream.count, textUnits_append, List.length_append]
    simp [textUnits, none]
  line := by
    intro front member address body reached filed
    rcases List.prefix_concat_iff.mp reached with all | earlier
    · obtain ⟨-, last⟩ := List.append_inj' all rfl
      have texts := member.isSome_filed? rules
      rw [filed, List.singleton_inj.mp last, none] at texts
      simp at texts
    · exact stream.line front member address body earlier filed
  origin := by
    intro line member
    obtain ⟨count, event, hevent, rest⟩ := stream.origin line member
    exact ⟨count, event, List.mem_append_left _ hevent, rest⟩

/-- An event with a text closes a line, and no mark waits behind it. -/
theorem concat_of_filed (stream : StreamLines rules events lines) {address : Nat} {body : Bytes}
    (filed : event.filed? rules = some (address, body)) :
    StreamLines rules (events ++ [event])
      (lines ++ [gluedMarks (waitingMarks rules events) ++ (Piece.opening address ++ body)]) := by
  have has : event.textUnit?.isSome = true := by
    rw [← event.isSome_filed? rules, filed]
    rfl
  constructor
  case written =>
    rw [List.flatMap_append, List.flatMap_singleton, stream.written, Event.written_of_filed filed,
      waitingMarks_concat_of_text has, List.flatMap_append, List.flatMap_singleton]
    simp [gluedMarks]
  case count =>
    obtain ⟨unit, hunit⟩ := Option.isSome_iff_exists.mp has
    rw [List.length_append, stream.count, textUnits_append, List.length_append]
    simp [textUnits, hunit]
  case line =>
    intro front member other text reached found
    rcases List.prefix_concat_iff.mp reached with all | earlier
    · obtain ⟨rfl, last⟩ := List.append_inj' all rfl
      rw [List.singleton_inj.mp last, filed, Option.some.injEq, Prod.mk.injEq] at found
      obtain ⟨rfl, rfl⟩ := found
      rw [← stream.count, List.getElem?_concat_length]
    · have present := stream.line front member other text earlier found
      have inside := (List.getElem?_eq_some_iff.mp present).1
      rw [List.getElem?_append_left inside, present]
  case origin =>
    intro line member
    rcases List.mem_append.mp member with member | member
    · obtain ⟨count, event, hevent, rest⟩ := stream.origin line member
      exact ⟨count, event, List.mem_append_left _ hevent, rest⟩
    · exact ⟨_, event, by simp, address, body, filed, List.mem_singleton.mp member⟩

end StreamLines

/-- The text stream of any events is made of one line for each text, and the marks that wait. -/
theorem exists_streamLines (rules : TagRules) (events : List Event) :
    ∃ lines, StreamLines rules events lines := by
  -- A mark waits for what comes behind it, so events are taken from the end of the walk.
  induction events using List.reverseRecOn with
  | nil => exact ⟨[], .nil rules⟩
  | append_singleton events event ih =>
    obtain ⟨lines, stream⟩ := ih
    cases filed : event.filed? rules with
    | some pair => exact ⟨_, stream.concat_of_filed filed⟩
    | none =>
      have textless := event.isSome_filed? rules
      rw [filed] at textless
      refine ⟨lines, stream.concat_of_none ?_⟩
      rw [← Option.not_isSome_iff_eq_none, ← textless]
      simp

/-! ## Splitting the stream -/

/-- Lines that no break stands in are split off one after the other, and what follows them is split
on its own. -/
theorem Line.split_lines {lines : List Bytes}
    (noBreaks : ∀ line ∈ lines, Bytes.cr ∉ line ∧ Bytes.lf ∉ line) (rest : Bytes) :
    Line.split ((lines.flatMap fun line => line ++ [Bytes.lf]) ++ rest) =
      lines ++ Line.split rest := by
  have areLines : ∀ line ∈ lines.map fun line => (line, Line.Ending.lf), Line.IsLine line.1 := by
    rw [List.forall_mem_map]
    exact fun line member => Line.isLine_of_noBreaks (noBreaks line member)
  simpa [Line.join, Line.Ending.bytes, List.flatMap_map, Function.comp_def] using
    Line.split_join_append areLines rest

/-- What stands in front of a line has no byte that breaks lines. -/
theorem not_mem_of_isFront {front : Bytes} (hfront : ∀ b ∈ front, isFront b = true) :
    Bytes.cr ∉ front ∧ Bytes.lf ∉ front := by
  constructor
  · intro member
    exact absurd (hfront _ member) (by decide)
  · intro member
    exact absurd (hfront _ member) (by decide)

/-- The opening of a line has no byte that breaks lines. -/
theorem not_mem_opening (address : Nat) :
    Bytes.cr ∉ Piece.opening address ∧ Bytes.lf ∉ Piece.opening address := by
  obtain ⟨noReturn, noFeed⟩ := not_mem_of_isFront (isFront_decimal address)
  have separator : Bytes.cr ∉ Line.separator ∧ Bytes.lf ∉ Line.separator := by decide +kernel
  unfold Piece.opening
  rw [List.mem_append, List.mem_append, not_or, not_or]
  exact ⟨⟨noReturn, separator.1⟩, noFeed, separator.2⟩

/-- A text stream splits into the lines of its events, and one more of the marks that are left
waiting at its end. -/
theorem split_streamLines {lines : List Bytes} (stream : StreamLines rules events lines)
    (noBreaks : ∀ event ∈ events, ∀ address body, event.filed? rules = some (address, body) →
      Bytes.cr ∉ body ∧ Bytes.lf ∉ body) :
    Line.split (events.flatMap (Event.written rules)) =
      lines ++ if waitingMarks rules events = 0 then []
        else [gluedMarks (waitingMarks rules events)] := by
  have whole : ∀ line ∈ lines, Bytes.cr ∉ line ∧ Bytes.lf ∉ line := by
    intro line member
    obtain ⟨count, event, hevent, address, body, filed, rfl⟩ := stream.origin line member
    have marks := not_mem_of_isFront (isFront_gluedMarks count)
    have opening := not_mem_opening address
    have text := noBreaks event hevent address body filed
    simp only [List.mem_append, not_or]
    exact ⟨⟨marks.1, opening.1, text.1⟩, marks.2, opening.2, text.2⟩
  rw [stream.written, Line.split_lines whole]
  congr 1
  split
  case isTrue none =>
    rw [none]
    exact Line.split_nil
  case isFalse waiting =>
    exact Line.split_of_isLine (gluedMarks_ne_nil waiting)
      (Line.isLine_of_noBreaks (not_mem_of_isFront (isFront_gluedMarks _)))

/-! ## The lines of a dump -/

section Dumps

variable {data : Bytes} {commands : List Command}

/-- The body of a line has no byte that breaks lines: raw text cannot hold one, and strings are
escaped. -/
theorem not_mem_body (decoded : decode data = .ok commands) {address : Nat} {body : Bytes}
    (member : event ∈ commands.flatMap Command.events)
    (filed : event.filed? rules = some (address, body)) : Bytes.cr ∉ body ∧ Bytes.lf ∉ body := by
  cases event with
  | operand instruction argument o =>
    obtain ⟨payload, has, same⟩ := Option.map_eq_some_iff.mp filed
    rw [Prod.mk.injEq] at same
    obtain ⟨rfl, rfl⟩ := same
    have mark : ∀ category : Category,
        Bytes.cr ∉ Bytes.ascii category.mark ∧ Bytes.lf ∉ Bytes.ascii category.mark := by
      intro category
      cases category <;> decide +kernel
    obtain ⟨noReturn, noFeed⟩ := mark (rules.category instruction.executor argument)
    have escaped := Line.not_mem_escape payload
    rw [List.mem_append, List.mem_append, not_or, not_or]
    exact ⟨⟨noReturn, escaped.1⟩, noFeed, escaped.2⟩
  | text run =>
    simp only [Event.filed?, Option.some.injEq, Prod.mk.injEq] at filed
    obtain ⟨rfl, rfl⟩ := filed
    have unit : TextUnit.run run ∈ commands.flatMap Command.textUnits := by
      rw [← textUnits_flatMap_events]
      exact List.mem_filterMap.mpr ⟨.text run, member, rfl⟩
    exact not_mem_written_of_mem decoded unit
  | _ => simp [Event.filed?] at filed

/-- The address of a line is that of one of the pieces that its event writes. -/
theorem Event.exists_piece_of_filed {address : Nat} {body : Bytes}
    (filed : event.filed? rules = some (address, body)) :
    ∃ piece ∈ event.pieces rules, piece.address? = some address := by
  cases event with
  | operand instruction argument o =>
    obtain ⟨payload, has, same⟩ := Option.map_eq_some_iff.mp filed
    rw [Prod.mk.injEq] at same
    obtain ⟨rfl, -⟩ := same
    refine ⟨.string instruction.address (rules.category instruction.executor argument) payload,
      ?_, rfl⟩
    simp [pieces, has]
  | text run =>
    simp only [filed?, Option.some.injEq, Prod.mk.injEq] at filed
    obtain ⟨rfl, -⟩ := filed
    exact ⟨.run run.address run.bytes, by simp [pieces], rfl⟩
  | _ => simp [filed?] at filed

/-- The lines of a unit carry its address. -/
theorem Command.address_of_filed {command : Command} {filed : Nat × Bytes}
    (member : filed ∈ command.events.filterMap (Event.filed? rules)) :
    filed.1 = command.address := by
  obtain ⟨event, hevent, found⟩ := List.mem_filterMap.mp member
  obtain ⟨piece, hpiece, address⟩ := Event.exists_piece_of_filed found
  have ofUnit : piece ∈ command.pieces rules := by
    rw [← command.flatMap_pieces_events]
    exact List.mem_flatMap.mpr ⟨event, hevent, hpiece⟩
  exact Command.address_of_mem_pieces ofUnit address

/-- Texts are filed under the addresses of their units, which lie one behind the other. -/
theorem pairwise_filed (rules : TagRules) (decoded : decode data = .ok commands) :
    ((commands.flatMap Command.events).filterMap (Event.filed? rules)).Pairwise
      fun earlier later => earlier.1 ≤ later.1 := by
  obtain ⟨formed, -⟩ := transcript_iff_wellFormed.mp (transcript_of_decode decoded)
  rw [List.filterMap_flatMap, List.pairwise_flatMap]
  constructor
  · intro command _
    apply List.pairwise_of_forall_mem_list
    intro earlier hearlier later hlater
    rw [Command.address_of_filed hearlier, Command.address_of_filed hlater]
  · refine formed.layout.pairwise.imp ?_
    intro command next behind earlier hearlier later hlater
    rw [Command.address_of_filed hearlier, Command.address_of_filed hlater]
    omega

/-- An injection that succeeds warns of the lines beyond the text units, and of nothing else. -/
theorem warnings_of_inject {lines : List Bytes} {out : Injection}
    (transcript : Transcript data events) (injected : inject data lines = .ok out) :
    out.warnings = surplusWarnings (lines.length - (textUnits events).length) := by
  obtain ⟨others, again, -, -, rfl⟩ := inject_eq_ok_iff.mp injected
  rw [transcript.unique again]
  rfl

end Dumps

end Streams

/-- A dump has a line for every text of a script, in the order of the walk: the marks of all marking
instructions that have started since the text before it, the address of the instruction or of the
run in decimal, the separator, and the category with the escaped string or the run as it is. Marks
behind the last text make one line more, and then an injection of the untouched dump warns of one
line left over. The addresses of the lines never decrease. -/
theorem dump_lines_of_texts {data : Bytes} {commands : List Command} (rules : TagRules)
    (decoded : decode data = .ok commands) :
    events data = commands.flatMap Command.events ∧
      ∃ dumped lines, dump rules data = .ok dumped ∧
        dumped.lines = (textUnits (events data)).length ∧ lines.length = dumped.lines ∧
        Line.split dumped.text =
          (lines ++ if waitingMarks rules (events data) = 0 then []
            else [gluedMarks (waitingMarks rules (events data))]) ∧
        (∀ front event address body, front ++ [event] <+: events data →
          event.filed? rules = some (address, body) →
            lines[(textUnits front).length]? =
              some (gluedMarks (waitingMarks rules front) ++
                (Bytes.ascii (Numeral.decimal address) ++ Line.separator ++ body))) ∧
        (∀ out, inject data (Line.split dumped.text) = .ok out →
          out.warnings =
            if waitingMarks rules (events data) = 0 then [] else [.surplusLines 1]) ∧
        ((events data).filterMap (Event.filed? rules)).Pairwise
          fun earlier later => earlier.1 ≤ later.1 := by
  have transcript := transcript_of_decode decoded
  have walked := (transcript_iff.mp transcript).1
  obtain ⟨lines, stream⟩ := exists_streamLines rules (commands.flatMap Command.events)
  have parsed := split_streamLines stream fun event member _ _ filed =>
    not_mem_body decoded member filed
  rw [← text_eq_flatMap_written rules data] at parsed
  have count : (Dump.ofCommands rules data commands).lines =
      (textUnits (commands.flatMap Command.events)).length := by
    rw [lines_ofCommands, textUnits_flatMap_events]
  rw [walked]
  refine ⟨rfl, _, lines, dump_of_decode rules decoded, count, stream.count.trans count.symm,
    parsed, stream.line, ?_, pairwise_filed rules decoded⟩
  intro out injected
  rw [warnings_of_inject transcript injected, parsed, List.length_append, stream.count,
    Nat.add_sub_cancel_left]
  split
  · rfl
  · rfl

/-- Two marks in front of a run of raw text, one in front of a string, and one behind it that no line
follows. -/
theorem dump_lines_of_texts_marked :
    let data : Bytes := [0x1B, 0xF8, 1, 0xFF, 0x1B, 0xF8, 1, 0xFF, 0x61,
      0x1B, 0xF8, 1, 1, 4, 1, 0, 0, 0, 0x0A, 0xFF, 0xFF, 0x1B, 0xF8, 1, 0xFF]
    ∃ dumped out, dump .standard data = .ok dumped ∧
      Line.split dumped.text =
        [Bytes.ascii "[pre_unfinish][pre_unfinish]8:::::a",
          Bytes.ascii "[pre_unfinish]9:::::[Spec2][n]", Bytes.ascii "[pre_unfinish]"] ∧
      inject data (Line.split dumped.text) = .ok out ∧ out.warnings = [.surplusLines 1] := by
  intro data
  let first : InstructionHead := ⟨0, 0x1F8⟩
  let second : InstructionHead := ⟨4, 0x1F8⟩
  let third : InstructionHead := ⟨9, 0x1F8⟩
  let argument : ArgumentHead := ⟨12, 1, 1⟩
  let operand : Operand := ⟨4, 13, .string [0x0A]⟩
  have decoded : decode data = .ok [.instruction ⟨first, [], 4⟩, .instruction ⟨second, [], 8⟩,
      .text ⟨8, [0x61]⟩, .instruction ⟨third, [⟨argument, [operand]⟩], 21⟩,
      .instruction ⟨⟨21, 0x1F8⟩, [], 25⟩] := by
    decide +kernel
  obtain ⟨walked, dumped, lines, hdump, hcount, hlength, hsplit, hline, hwarnings, -⟩ :=
    dump_lines_of_texts .standard decoded
  have texts : (textUnits (events data)).length = 2 := by decide +kernel
  have left : waitingMarks .standard (events data) = 1 := by decide +kernel
  let front : List Event := [.instructionStart first, .instructionEnd first 4,
    .instructionStart second, .instructionEnd second 8]
  have run := hline front (.text ⟨8, [0x61]⟩) 8 [0x61] (by decide +kernel) rfl
  have string := hline
    (front ++ [.text ⟨8, [0x61]⟩, .instructionStart third, .argumentStart argument])
    (.operand third argument operand) 9 (Bytes.ascii "[Spec2][n]") (by decide +kernel)
    (by decide +kernel)
  have both : lines = [Bytes.ascii "[pre_unfinish][pre_unfinish]8:::::a",
      Bytes.ascii "[pre_unfinish]9:::::[Spec2][n]"] := by
    apply List.ext_getElem?
    intro index
    match index with
    | 0 => exact run.trans (by decide +kernel)
    | 1 => exact string.trans (by decide +kernel)
    | index + 2 => simp [hlength, hcount, texts]
  rw [left, both] at hsplit
  have injected : inject data (Line.split dumped.text) =
      .ok ⟨data, ⟨[⟨8, 1, 1⟩, ⟨18, 1, 1⟩]⟩, [], [.surplusLines 1]⟩ := by
    rw [hsplit]
    decide +kernel
  have warned := hwarnings _ injected
  rw [left] at warned
  exact ⟨dumped, _, hdump, hsplit.trans (by decide +kernel), injected, warned⟩

end NovelScript
