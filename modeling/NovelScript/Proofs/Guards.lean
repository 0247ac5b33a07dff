import NovelScript.Proofs.Substitution

/-!
# Injecting with every check on

An injection cuts pieces out of the old script, subtracts addresses, counts the lines that are left
and overwrites words that it takes to be where it has noted them. Here are the same steps again,
each with the check that it relies on: a cut asks for a range inside the bytes, a difference for a
larger number to take from, and a relocation for the word that was noted. A step with a failed check
has no answer.

Where the checks hold the checked steps agree with the plain ones. `Event.handed?` is the address
that the checks of an event are about, and `visit?_eq` says that it is all that they need to know.
-/

set_option autoImplicit false

namespace NovelScript

/-! ## Checked steps -/

/-- The bytes from one address to another, if the bytes have such a range. -/
def slice? (bytes : Bytes) (start finish : Nat) : Option Bytes :=
  if start ≤ finish ∧ finish ≤ bytes.length then some ((bytes.drop start).take (finish - start))
  else none

/-- The difference of two numbers, if the second is not the larger one. -/
def difference? (large small : Nat) : Option Nat :=
  if small ≤ large then some (large - small) else none

/-- The address that an event has the old script copied up to, or looks up in the new script. -/
def Event.handed? (data : Bytes) : Event → Option Nat
  | operand _ _ o =>
    match o.value with
    | .string _ => some o.valueAddress
    | .int32 word => if (absoluteTarget? data word).isSome then some o.valueAddress else none
    | _ => none
  | text run => some run.address
  | _ => none

namespace Substitution

/-- Copies the source up to an address, if that is a part of the source that was not copied yet. -/
def copyThrough? (source : Bytes) (address : Nat) (s : Substitution) : Option Substitution :=
  (slice? source s.copied address).map fun piece =>
    { s with out := s.out ++ piece, copied := address }

/-- The address in the output of an address of the source, if that was not passed yet. -/
def outputAddress? (s : Substitution) (address : Nat) : Option Nat :=
  (difference? address s.copied).map fun waiting => s.out.length + waiting

/-- Replaces the text of a string and the length in front of it, if the source can be copied up to
there. -/
def replaceString? (source : Bytes) (operand : Operand) (old new : Bytes) (s : Substitution) :
    Option Substitution :=
  (s.copyThrough? source operand.valueAddress).map fun s =>
    s.replace operand.finish (LittleEndian.encode 4 new.length ++ new)
      { address := operand.payloadAddress, oldLength := old.length, newLength := new.length }

/-- Replaces a run of raw text, if the source can be copied up to there. -/
def replaceRun? (source : Bytes) (run : TextRun) (new : Bytes) (s : Substitution) :
    Option Substitution :=
  (s.copyThrough? source run.address).map fun s =>
    s.replace run.finish new
      { address := run.address, oldLength := run.bytes.length, newLength := new.length }

/-- Notes a jump for relocation, if its place in the output is known. -/
def enrol? (operand : Operand) (target : BitVec 32) (s : Substitution) : Option Substitution :=
  (s.outputAddress? operand.valueAddress).map fun outputAddress =>
    { s with
      sites := s.sites ++ [{ outputAddress, sourceAddress := operand.valueAddress, target }] }

/-- What a substitution does with an event, or nothing when a check fails. -/
def visit? (source : Bytes) (lines : List Bytes) (s : Substitution) (event : Event) :
    Option (Substitution × Option Shortage) :=
  match event with
  | .operand _ _ operand =>
    match operand.value with
    | .string payload =>
      match lines[s.consumed]? with
      | some line =>
        (s.replaceString? source operand payload (Line.replacement line)).map fun s => (s, none)
      | none => some (s, some { address := operand.address, consumed := s.consumed })
    | .int32 word =>
      if (absoluteTarget? source word).isSome then
        (s.enrol? operand word).map fun s => (s, none)
      else some (s, none)
    | _ => some (s, none)
  | .text run =>
    match lines[s.consumed]? with
    | some line => (s.replaceRun? source run (Line.replacement line)).map fun s => (s, none)
    | none => some (s, some { address := run.address, consumed := s.consumed })
  | _ => some (s, none)

/-- The checked substitution as a visitor. It refuses an event for want of a line, or for no reason
of its own when a check fails. -/
def visitor? (source : Bytes) (lines : List Bytes) : Visitor Substitution (Option Shortage) :=
  fun s event =>
    match visit? source lines s event with
    | some (next, shortage?) => (next, shortage?.map some)
    | none => (s, some none)

end Substitution

/-- Corrects jump sites in order, each of which has to hold its old target. -/
def relocate? (ledger : Ledger) : List JumpSite → Bytes → Option (Bytes × Option InjectError)
  | [], script => some (script, none)
  | site :: sites, script =>
    let value := site.corrected ledger
    if 0 ≤ value ∧ value < 0x100000000 then
      match slice? script site.outputAddress (site.outputAddress + 4) with
      | none => none
      | some slot =>
        if BitVec.ofNat 32 (LittleEndian.decode slot) = site.target then
          relocate? ledger sites
            (overwrite script site.outputAddress (LittleEndian.encode 4 value.toNat))
        else none
    else some (script, some (.jumpOutOfRange site.outputAddress value))

/-- Relocates the jumps of a finished substitution and counts the lines that are left. -/
def Substitution.relocated? (lines : List Bytes) (s : Substitution) :
    Option (Except InjectError Injection) :=
  match relocate? s.ledger s.sites s.out with
  | none => none
  | some (_, some problem) => some (.error problem)
  | some (script, none) =>
    (difference? lines.length s.consumed).map fun surplus =>
      .ok { script, ledger := s.ledger, sites := s.sites, warnings := surplusWarnings surplus }

/-- Puts lines in place of the texts of a script, or has no answer when a check fails. -/
def inject? (data : Bytes) (lines : List Bytes) : Option (Except InjectError Injection) :=
  let result := walk (Substitution.visitor? data lines) .start data
  match result.stop with
  | some (.fault fault) => some (.error (.fault fault))
  | some (.refused none) => none
  | some (.refused (some shortage)) =>
    some (.error (.linesExhausted shortage.address shortage.consumed))
  | none =>
    match result.state.copyThrough? data data.length with
    | none => none
    | some s => s.relocated? lines

/-! ## Checks that hold -/

/-- A slice whose bounds are in order and inside is there. -/
theorem slice?_of_le {bytes : Bytes} {start finish : Nat} (low : start ≤ finish)
    (high : finish ≤ bytes.length) :
    slice? bytes start finish = some ((bytes.drop start).take (finish - start)) :=
  if_pos ⟨low, high⟩

/-- A difference that is not negative is there. -/
theorem difference?_of_le {large small : Nat} (le : small ≤ large) :
    difference? large small = some (large - small) :=
  if_pos le

namespace Substitution

variable {data : Bytes} {lines : List Bytes} {s : Substitution}

/-- Copying forward inside the source passes its checks. -/
theorem copyThrough?_of_le {address : Nat} (low : s.copied ≤ address)
    (high : address ≤ data.length) :
    s.copyThrough? data address = some (s.copyThrough data address) := by
  unfold copyThrough?
  rw [slice?_of_le low high]
  rfl

/-- Enrolling a jump that was not passed yet passes its check. -/
theorem enrol?_of_le {operand : Operand} (low : s.copied ≤ operand.valueAddress)
    (target : BitVec 32) : s.enrol? operand target = some (s.enrol operand target) := by
  unfold enrol? outputAddress?
  rw [difference?_of_le low]
  rfl

/-- An event passes its checks if the address that it hands over is not copied yet and lies in the
old script. -/
theorem visit?_eq {event : Event}
    (guarded : ∀ address, event.handed? data = some address →
      s.copied ≤ address ∧ address ≤ data.length) :
    visit? data lines s event = some (visitor data lines s event) := by
  cases event with
  | operand head argument operand =>
    obtain ⟨tag, address, value⟩ := operand
    cases value with
    | string payload =>
      obtain ⟨low, high⟩ := guarded _ rfl
      cases line : lines[s.consumed]? with
      | none => simp only [visit?, visitor, line]
      | some line =>
        simp only [visit?, visitor, *, replaceString?, copyThrough?_of_le low high]
        rfl
    | int32 word =>
      by_cases found : (absoluteTarget? data word).isSome = true
      · have handed : Event.handed? data (.operand head argument ⟨tag, address, .int32 word⟩) =
            some (address + 1) := if_pos found
        obtain ⟨low, -⟩ := guarded _ handed
        have enrolled : s.enrol? ⟨tag, address, .int32 word⟩ word = _ := enrol?_of_le low word
        simp only [visit?, visitor, if_pos found, enrolled]
        rfl
      · simp only [visit?, visitor, if_neg found]
    | _ => rfl
  | text run =>
    obtain ⟨low, high⟩ := guarded _ rfl
    cases line : lines[s.consumed]? with
    | none => simp only [visit?, visitor, line]
    | some line =>
      simp only [visit?, visitor, *, replaceRun?, copyThrough?_of_le low high]
      rfl
  | _ => rfl

end Substitution

end NovelScript
