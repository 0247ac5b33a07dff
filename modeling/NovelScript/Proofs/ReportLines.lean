import NovelScript.Proofs.Counts
import NovelScript.Proofs.LineByLine

/-!
# The debug report, line by line

The report copies texts of the script, so nothing about its lines goes without saying. Everything
that the report writes on its own is printable (`Printable`): numbers in every form, names and
punctuation. What it copies is raw text, which has no control bytes, and string payloads, which are
escaped. So no line of the report is broken (`unbroken_of_mem_lines`), and splitting it gives the
lines that were written.

In front of the header stands a line for each plausible reading of a jump-shaped operand, and these
are as many as the summary of the script counts, which goes through the operands on its own
(`reportShape_of_decode`).
-/

set_option autoImplicit false

namespace NovelScript

/-! ## Printable texts -/

/-- Whether a character is printable ASCII. -/
def isPrintable (c : Char) : Bool :=
  0x20 ≤ c.toNat && c.toNat < 0x7F

/-- Whether a text has printable characters only. -/
def Printable (text : String) : Prop :=
  ∀ c ∈ text.toList, isPrintable c = true

/-- Whether a text is printable is checked character by character. -/
instance (text : String) : Decidable (Printable text) :=
  List.decidableBAll _ text.toList

/-- Whether no line break stands in some bytes. -/
def Unbroken (bytes : Bytes) : Prop :=
  Bytes.cr ∉ bytes ∧ Bytes.lf ∉ bytes

/-- Two texts are printable together exactly when both are. -/
@[simp]
theorem printable_append_iff {left right : String} :
    Printable (left ++ right) ↔ Printable left ∧ Printable right := by
  unfold Printable
  rw [String.toList_append]
  exact List.forall_mem_append

/-- A text is printable exactly when its characters are. -/
theorem printable_ofList_iff {chars : List Char} :
    Printable (String.ofList chars) ↔ ∀ c ∈ chars, isPrintable c = true := by
  rw [Printable, String.toList_ofList]

/-- Two byte strings have no line break together exactly when neither has one. -/
@[simp]
theorem unbroken_append_iff {left right : Bytes} :
    Unbroken (left ++ right) ↔ Unbroken left ∧ Unbroken right := by
  unfold Unbroken
  rw [List.mem_append, List.mem_append]
  tauto

/-- What is written item by item has no line break if none of the items has one. -/
theorem unbroken_flatMap {α : Type} {items : List α} {write : α → Bytes}
    (each : ∀ item ∈ items, Unbroken (write item)) : Unbroken (items.flatMap write) := by
  constructor
  · intro member
    obtain ⟨item, inside, written⟩ := List.mem_flatMap.mp member
    exact (each item inside).1 written
  · intro member
    obtain ⟨item, inside, written⟩ := List.mem_flatMap.mp member
    exact (each item inside).2 written

/-- No control byte is in text, and so no line break. -/
theorem unbroken_of_isText {bytes : Bytes} (text : ∀ b ∈ bytes, isText b = true) :
    Unbroken bytes := by
  constructor
  · intro member
    exact absurd (text _ member) (by decide)
  · intro member
    exact absurd (text _ member) (by decide)

/-- A printable text has no line break. -/
theorem Printable.unbroken {text : String} (printable : Printable text) :
    Unbroken (Bytes.ascii text) := by
  apply unbroken_of_isText
  intro b member
  obtain ⟨c, inside, rfl⟩ := List.mem_map.mp member
  have range := printable c inside
  rw [isPrintable, Bool.and_eq_true, decide_eq_true_eq, decide_eq_true_eq] at range
  have same : (UInt8.ofNat c.toNat).toNat = c.toNat := by
    rw [UInt8.toNat_ofNat']
    omega
  rw [isText, decide_eq_true_eq, UInt8.le_iff_toNat_le, same]
  exact range.1

/-- Digits up to base sixteen are printable. -/
theorem isPrintable_digitChar : ∀ digit < 16, isPrintable (Nat.digitChar digit) = true := by
  decide

/-- The digits of a number are printable, in any base up to sixteen. -/
theorem isPrintable_of_mem_toDigits {base : Nat} (low : 1 < base) (high : base ≤ 16) (n : Nat) :
    ∀ c ∈ Nat.toDigits base n, isPrintable c = true := by
  induction n using Nat.strongRecOn with
  | ind n ih =>
    rw [Nat.toDigits_eq_if low]
    split
    case isTrue small =>
      intro c member
      rw [List.mem_singleton.mp member]
      exact isPrintable_digitChar n (by omega)
    case isFalse large =>
      have fewer : n / base < n := Nat.div_lt_self (by omega) low
      have digit : n % base < base := Nat.mod_lt n (by omega)
      intro c member
      rcases List.mem_append.mp member with early | last
      · exact ih (n / base) fewer c early
      · rw [List.mem_singleton.mp last]
        exact isPrintable_digitChar (n % base) (by omega)

/-- Zeros in front of a number are printable. -/
theorem isPrintable_of_mem_zeros (count : Nat) :
    ∀ c ∈ List.replicate count '0', isPrintable c = true := by
  intro c member
  rw [List.eq_of_mem_replicate member]
  rfl

namespace Numeral

/-- A decimal numeral is printable. -/
@[simp]
theorem printable_decimal (n : Nat) : Printable (decimal n) :=
  printable_ofList_iff.mpr (isPrintable_of_mem_toDigits (by decide) (by decide) n)

/-- A hexadecimal numeral is printable. -/
@[simp]
theorem printable_hex (n : Nat) : Printable (hex n) :=
  printable_append_iff.mpr
    ⟨by decide, printable_ofList_iff.mpr (isPrintable_of_mem_toDigits (by decide) (by decide) n)⟩

/-- A hexadecimal numeral with zeros in front is printable. -/
@[simp]
theorem printable_paddedHex (width n : Nat) : Printable (paddedHex width n) := by
  refine printable_append_iff.mpr ⟨by decide, printable_ofList_iff.mpr ?_⟩
  rw [List.forall_mem_append]
  exact ⟨isPrintable_of_mem_zeros _, isPrintable_of_mem_toDigits (by decide) (by decide) n⟩

end Numeral

/-- A decimal fraction is printable in positional form. -/
theorem Decimal.printable_positional (decimal : Decimal) : Printable decimal.positional := by
  have digits : ∀ c ∈ (Numeral.decimal decimal.coefficient).toList, isPrintable c = true :=
    Numeral.printable_decimal decimal.coefficient
  unfold positional
  dsimp only
  split
  · rw [printable_ofList_iff, List.forall_mem_append]
    exact ⟨digits, isPrintable_of_mem_zeros _⟩
  · split
    · rw [printable_ofList_iff, List.forall_mem_append, List.forall_mem_cons]
      exact ⟨fun c member => digits c (List.mem_of_mem_take member), by decide,
        fun c member => digits c (List.mem_of_mem_drop member)⟩
    · rw [printable_ofList_iff, List.forall_mem_append, List.forall_mem_cons, List.forall_mem_cons]
      exact ⟨⟨by decide, by decide, isPrintable_of_mem_zeros _⟩, digits⟩

/-- Floating point numbers are printable, those included that are not finite. -/
@[simp]
theorem Binary64.printable_text (bits : BitVec 64) : Printable (Binary64.text bits) := by
  have sign : ∀ negative : Bool, Printable (if negative then "-" else "") := by decide
  unfold Binary64.text
  dsimp only
  split
  · decide
  · exact printable_append_iff.mpr ⟨sign _, by decide⟩
  · exact printable_append_iff.mpr ⟨sign _, by decide⟩
  · exact printable_append_iff.mpr ⟨sign _, Decimal.printable_positional _⟩

/-! ## Lines on jumps -/

namespace Report

open Numeral (hex)

/-- A line on a jump: what it may be, where its value stands and where it would go. -/
def diagnostic (name : String) (operand : Operand) (target : Nat) (remark : String) : Bytes :=
  Bytes.ascii
    (name ++ " at " ++ hex operand.valueAddress ++ ", target: " ++ hex target ++ remark)

/-- By which name a relative jump goes, and what is added to its line: the 32-bit variants have a
number, and show their distance. -/
def relativeForm (operand : Operand) : String × String :=
  match operand.value with
  | .int32Variant kind word =>
    ("MaybeRelativeJump" ++ variantNumber kind, ", rel: " ++ hex word.toNat)
  | _ => ("MaybeRelativeJump", "")

/-- The lines on an operand: its reading as an address, and then its reading as a distance. -/
def diagnostics (data : Bytes) (operand : Operand) : List Bytes :=
  (operand.absoluteTarget? data).toList.map
      (fun target => diagnostic "MaybeAbsoluteJump" operand target "") ++
    (operand.relativeTarget? data).toList.map fun target =>
      diagnostic (relativeForm operand).1 operand target (relativeForm operand).2

/-- The line for an absolute jump names the place of the value and the target. -/
theorem hintLine_absolute (operand : Operand) (target : Nat) :
    Bytes.ascii (hintLine operand (.absolute target)) =
      diagnostic "MaybeAbsoluteJump" operand target "" := by
  unfold hintLine diagnostic
  simp only [toString, String.append_empty]
  rfl

/-- The line for a relative jump names the place of the value and the target, in the form of its
variant. -/
theorem hintLine_relative (operand : Operand) (target : Nat) :
    Bytes.ascii (hintLine operand (.relative target)) =
      diagnostic (relativeForm operand).1 operand target (relativeForm operand).2 := by
  have joined : ", " ++ "target: " = ", target: " := by decide
  unfold hintLine diagnostic relativeForm
  cases operand.value with
  | int32Variant kind word => simp only [toString, String.append_assoc, ← joined]
  | _ =>
    simp only [toString, String.append_empty]
    rfl

/-- The lines for an operand are its diagnostics, absolute before relative. -/
theorem hintLines_eq (data : Bytes) (operand : Operand) :
    hintLines data operand = diagnostics data operand := by
  unfold hintLines diagnostics Operand.jumpHints Operand.absoluteTarget? Operand.relativeTarget?
  cases operand.value.jumpWord? with
  | none => rfl
  | some word =>
    simp only [NovelScript.jumpHints, Option.bind_some, List.map_append, Option.toList_map,
      List.map_map, Function.comp_def, hintLine_absolute, hintLine_relative]

/-- Only jump-shaped operands have lines. -/
theorem flatMap_diagnostics_filter (data : Bytes) (operands : List Operand) :
    (operands.filter fun operand => operand.shape.isJumpShaped).flatMap (diagnostics data) =
      operands.flatMap (diagnostics data) := by
  induction operands with
  | nil => rfl
  | cons operand operands ih =>
    rw [List.filter_cons, List.flatMap_cons, ← ih]
    split
    case isTrue => rw [List.flatMap_cons]
    case isFalse other =>
      have none : operand.value.jumpWord? = none := by
        rw [← Option.not_isSome_iff_eq_none, Value.isSome_jumpWord?]
        exact other
      simp [diagnostics, Operand.absoluteTarget?, Operand.relativeTarget?, none]

/-- There are as many lines as plausible readings of either kind. -/
theorem length_flatMap_diagnostics (data : Bytes) (operands : List Operand) :
    (operands.flatMap (diagnostics data)).length =
      (operands.countP fun operand => (operand.absoluteTarget? data).isSome) +
        operands.countP fun operand => (operand.relativeTarget? data).isSome := by
  have count : ∀ target : Option Nat, target.toList.length = if target.isSome then 1 else 0 := by
    intro target
    cases target <;> rfl
  induction operands with
  | nil => rfl
  | cons operand operands ih =>
    rw [List.flatMap_cons, List.length_append, ih, List.countP_cons, List.countP_cons, diagnostics,
      List.length_append, List.length_map, List.length_map, count, count]
    omega

/-! ## No line is broken -/

/-- A diagnostic has no line break if its name and its remark are printable. -/
theorem unbroken_diagnostic {name remark : String} (hname : Printable name)
    (hremark : Printable remark) (operand : Operand) (target : Nat) :
    Unbroken (diagnostic name operand target remark) := by
  apply Printable.unbroken
  simp only [printable_append_iff, Numeral.printable_hex, hname, hremark, and_true, true_and]
  decide

/-- No diagnostic has a line break. -/
theorem unbroken_of_mem_diagnostics {data line : Bytes} {operand : Operand}
    (member : line ∈ diagnostics data operand) : Unbroken line := by
  have form : Printable (relativeForm operand).1 ∧ Printable (relativeForm operand).2 := by
    unfold relativeForm
    split
    case h_1 =>
      simp only [printable_append_iff, variantNumber, Numeral.printable_decimal,
        Numeral.printable_hex, and_true]
      decide
    case h_2 => decide
  rcases List.mem_append.mp member with absolute | relative
  · obtain ⟨target, -, rfl⟩ := List.mem_map.mp absolute
    exact unbroken_diagnostic (by decide) (by decide) operand target
  · obtain ⟨target, -, rfl⟩ := List.mem_map.mp relative
    exact unbroken_diagnostic form.1 form.2 operand target

/-- A value has no line break in the report, as its texts are escaped. -/
theorem unbroken_value (operand : Operand) : Unbroken (value operand) := by
  unfold value
  cases operand.value with
  | string payload =>
    rw [unbroken_append_iff, unbroken_append_iff]
    exact ⟨⟨Printable.unbroken (by decide), Line.not_mem_escape payload⟩,
      Printable.unbroken (by decide)⟩
  | _ =>
    apply Printable.unbroken
    simp only [toString, printable_append_iff, variantNumber, Numeral.printable_decimal,
      Numeral.printable_hex, Binary64.printable_text, and_true]
    decide

/-- A reading of a jump has no line break. -/
theorem unbroken_hint (reading : JumpHint) : Unbroken (hint reading) := by
  cases reading
  all_goals
    apply Printable.unbroken
    simp only [toString, printable_append_iff, Numeral.printable_hex, and_true]
    decide

/-- An operand has no line break in the report. -/
theorem unbroken_operand (data : Bytes) (operand : Operand) :
    Unbroken (Report.operand data operand) := by
  unfold Report.operand
  rw [unbroken_append_iff, unbroken_append_iff]
  exact ⟨⟨unbroken_value operand, unbroken_flatMap fun reading _ => unbroken_hint reading⟩,
    Printable.unbroken (by decide)⟩

/-- An argument has no line break in the report. -/
theorem unbroken_argument (data : Bytes) (argument : Argument) :
    Unbroken (Report.argument data argument) := by
  unfold Report.argument
  rw [unbroken_append_iff, unbroken_append_iff]
  refine ⟨⟨?_, unbroken_flatMap fun operand _ => unbroken_operand data operand⟩,
    Printable.unbroken (by decide)⟩
  apply Printable.unbroken
  simp only [toString, printable_append_iff, Numeral.printable_hex, and_true]
  decide

/-- What the report says of a unit has no line break: raw text cannot hold one. -/
theorem unbroken_contents (data : Bytes) {command : Command} (formed : command.WellFormed) :
    Unbroken (contents data command) := by
  cases command with
  | terminator address => exact Printable.unbroken (by decide)
  | text run =>
    have bytes : ∀ b ∈ run.bytes, isText b = true := formed.2
    exact unbroken_append_iff.mpr ⟨Printable.unbroken (by decide), unbroken_of_isText bytes⟩
  | instruction i =>
    rw [contents]
    split
    case isTrue => exact Printable.unbroken (by decide)
    case isFalse => exact unbroken_flatMap fun argument _ => unbroken_argument data argument

/-- The opening of a line has no line break. -/
theorem unbroken_opening (command : Command) : Unbroken (opening command) := by
  apply Printable.unbroken
  simp only [toString, printable_append_iff, Numeral.printable_paddedHex, and_true]
  decide

/-- No line of the report on a script is broken. -/
theorem unbroken_of_mem_lines {data line : Bytes} {commands : List Command}
    (decoded : decode data = .ok commands) (member : line ∈ lines data commands) :
    Unbroken line := by
  obtain ⟨formed, -⟩ := transcript_iff_wellFormed.mp (transcript_of_decode decoded)
  rcases List.mem_append.mp member with early | late
  · obtain ⟨operand, -, written⟩ := List.mem_flatMap.mp early
    rw [hintLines_eq] at written
    exact unbroken_of_mem_diagnostics written
  · rcases List.mem_cons.mp late with rfl | late
    · exact Printable.unbroken (by decide)
    · obtain ⟨command, inside, rfl⟩ := List.mem_map.mp late
      exact unbroken_append_iff.mpr
        ⟨unbroken_opening command, unbroken_contents data (formed.units command inside)⟩

end Report

/-! ## Closed lines -/

section Closed

variable {lines : List Bytes}

/-- Lines without line breaks bring no carriage return with them. -/
theorem cr_not_mem_lines (unbroken : ∀ line ∈ lines, Unbroken line) :
    Bytes.cr ∉ lines.flatMap fun line => line ++ [Bytes.lf] := by
  intro member
  obtain ⟨line, inside, written⟩ := List.mem_flatMap.mp member
  rcases List.mem_append.mp written with own | close
  · exact (unbroken line inside).1 own
  · exact absurd (List.mem_singleton.mp close) (by decide)

/-- Lines that are not broken have one line feed each. -/
theorem count_lf_lines (unbroken : ∀ line ∈ lines, Unbroken line) :
    (lines.flatMap fun line => line ++ [Bytes.lf]).count Bytes.lf = lines.length := by
  induction lines with
  | nil => rfl
  | cons line lines ih =>
    rw [List.forall_mem_cons] at unbroken
    rw [List.flatMap_cons, List.count_append, ih unbroken.2, List.count_append,
      List.count_eq_zero.mpr unbroken.1.2, List.count_singleton_self, List.length_cons]
    omega

/-- The last byte of some lines is a line feed. -/
theorem getLast?_lines (nonempty : lines ≠ []) :
    (lines.flatMap fun line => line ++ [Bytes.lf]).getLast? = some Bytes.lf := by
  obtain ⟨front, last, rfl⟩ := (List.eq_nil_or_concat' lines).resolve_left nonempty
  rw [List.flatMap_append, List.flatMap_singleton, ← List.append_assoc, List.getLast?_concat]

end Closed

/-- The lines of a debug report: `hints` in front of the header, and `units` behind it. -/
structure ReportShape (data : Bytes) (commands : List Command) (summary : Summary) (dumped : Dump)
    (hints units : List Bytes) : Prop where
  /-- No line ends with a carriage return, or has one in it. -/
  returns : Bytes.cr ∉ dumped.debug
  /-- There is a line for each jump that the summary counts, for each unit, and for the header. -/
  feeds : dumped.debug.count Bytes.lf =
    summary.absoluteCandidates + summary.relativeCandidates + 1 + dumped.units
  /-- The last line is closed. -/
  closed : dumped.debug.getLast? = some Bytes.lf
  /-- The header stands between the jumps and the units. -/
  split : Line.split dumped.debug = hints ++ Report.header :: units
  /-- As many lines stand in front of the header as the summary counts jumps. -/
  jumps : hints.length = summary.absoluteCandidates + summary.relativeCandidates
  /-- They are the lines on the jump-shaped operands that a walk meets, in this order. -/
  hints_eq : hints =
    (((events data).filterMap Event.operand?).filter fun operand =>
      operand.shape.isJumpShaped).flatMap (Report.diagnostics data)
  /-- There is one line for each unit. -/
  count : units.length = dumped.units ∧ dumped.units = commands.length
  /-- The line of a unit starts with its address and its executor. -/
  opened : ∀ (index : Nat) (command : Command), commands[index]? = some command →
    ∃ line, units[index]? = some line ∧
      Bytes.ascii (Numeral.paddedHex 8 command.address ++ ", " ++
        Numeral.paddedHex 4 command.executor.toNat ++ ", ") <+: line

/-- The debug report of a script has a line for each jump that the summary counts, in the order in
which a walk meets the operands, then the header, then a line for each unit, and no other lines. -/
theorem reportShape_of_decode {data : Bytes} {commands : List Command} (rules : TagRules)
    (decoded : decode data = .ok commands) :
    ∃ summary dumped hints units, summarize data = .ok summary ∧ dump rules data = .ok dumped ∧
      ReportShape data commands summary dumped hints units := by
  have unbroken : ∀ line ∈ Report.lines data commands, Unbroken line := fun line member =>
    Report.unbroken_of_mem_lines decoded member
  have written : (Dump.ofCommands rules data commands).debug =
      (Report.lines data commands).flatMap fun line => line ++ [Bytes.lf] := rfl
  have whole : Report.lines data commands =
      (commands.flatMap Command.operands).flatMap (Report.diagnostics data) ++
        Report.header :: commands.map (Report.unitLine data) := by
    rw [Report.lines, funext (Report.hintLines_eq data)]
  have jumps := Report.length_flatMap_diagnostics data (commands.flatMap Command.operands)
  refine ⟨Summary.ofCommands data commands, _,
    (commands.flatMap Command.operands).flatMap (Report.diagnostics data),
    commands.map (Report.unitLine data), by rw [summarize, decoded], dump_of_decode rules decoded,
    ?_⟩
  constructor
  case returns =>
    rw [written]
    exact cr_not_mem_lines unbroken
  case feeds =>
    rw [written, count_lf_lines unbroken, whole, List.length_append, jumps, List.length_cons,
      List.length_map]
    show _ = _ + _ + 1 + commands.length
    simp only [Summary.ofCommands]
    omega
  case closed =>
    rw [written]
    exact getLast?_lines (by simp [whole])
  case split =>
    have split := Line.split_lines unbroken []
    rw [List.append_nil, ← written, Line.split, List.append_nil] at split
    rw [split, whole]
  case jumps => exact jumps
  case hints_eq =>
    obtain ⟨hevents, -⟩ := transcript_iff.mp (transcript_of_decode decoded)
    rw [hevents, filterMap_operand?_events, Report.flatMap_diagnostics_filter]
  case count => exact ⟨List.length_map _, rfl⟩
  case opened =>
    intro index command found
    refine ⟨Report.unitLine data command, by rw [List.getElem?_map, found]; rfl, ?_⟩
    exact List.prefix_append _ _

/-- A run of raw text, an instruction with a line feed in its string and two jumps, and a
terminator. The second jump has two plausible readings, so there are three lines in front of the
header. -/
theorem reportShape_of_decode_two_readings :
    let data : Bytes := [0x61, 0x62, 0x1B, 0, 1, 0, 4, 2, 0, 0, 0, 0x0A, 0x79, 0xFF,
      1, 1, 27, 0, 0, 0, 0x11, 2, 0, 0, 0, 0xFF, 0xFF, 0x1A]
    ∃ dumped units, dump .standard data = .ok dumped ∧ dumped.debug.count Bytes.lf = 7 ∧
      Line.split dumped.debug =
        [Bytes.ascii "MaybeAbsoluteJump at 0x10, target: 0x1b",
          Bytes.ascii "MaybeAbsoluteJump at 0x15, target: 0x2",
          Bytes.ascii "MaybeRelativeJump2 at 0x15, target: 0x1b, rel: 0x2"] ++
        Report.header :: units := by
  intro data
  have decoded : decode data =
      .ok [.text ⟨0, [0x61, 0x62]⟩,
        .instruction ⟨⟨2, 0x100⟩, [⟨⟨5, 0, 1⟩, [⟨4, 6, .string [0x0A, 0x79]⟩]⟩,
          ⟨⟨14, 1, 2⟩, [⟨1, 15, .int32 27⟩, ⟨0x11, 20, .int32Variant 1 2⟩]⟩], 27⟩,
        .terminator 27] := by
    decide +kernel
  obtain ⟨summary, dumped, hints, units, -, hdump, shape⟩ :=
    reportShape_of_decode .standard decoded
  have jumps : hints =
      [Bytes.ascii "MaybeAbsoluteJump at 0x10, target: 0x1b",
        Bytes.ascii "MaybeAbsoluteJump at 0x15, target: 0x2",
        Bytes.ascii "MaybeRelativeJump2 at 0x15, target: 0x1b, rel: 0x2"] :=
    shape.hints_eq.trans (by decide +kernel)
  have three := shape.jumps
  rw [jumps] at three
  refine ⟨dumped, units, hdump, ?_, by rw [shape.split, jumps]⟩
  rw [shape.feeds, ← three, shape.count.2]
  rfl

end NovelScript
