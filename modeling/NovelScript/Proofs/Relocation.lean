import NovelScript.Proofs.Placement

/-!
# Relocating placed events

Relocation overwrites the words of enrolled operands one after the other. On a script that is made
of placed events this comes down to one map over the events: each enrolled word becomes its target
moved by the ledger, and every other event stays as it is (`relocate_placements`). No length
changes, so the placements tile the relocated script as well.

On the way a word is found as it was noted, because the words lie apart from each other (`Seated`).
-/

set_option autoImplicit false

namespace NovelScript

/-- Whether a number can be stored as an unsigned 32-bit word. -/
def IsWord (value : Int) : Prop :=
  0 ≤ value ∧ value < 0x100000000

/-- Whether a number fits into a word is a matter of two bounds. -/
instance (value : Int) : Decidable (IsWord value) :=
  inferInstanceAs (Decidable (_ ∧ _))

/-- A number that fits into a word is kept by it. -/
theorem IsWord.toNat_ofInt {value : Int} (fits : IsWord value) :
    (BitVec.ofInt 32 value).toNat = value.toNat := by
  obtain ⟨low, high⟩ := fits
  rw [BitVec.toNat_ofInt]
  omega

/-- A word that is not negative is the same number with its sign and without. -/
theorem toInt_eq_toNat_of_nonneg {word : BitVec 32} (nonneg : 0 ≤ word.toInt) :
    word.toInt = word.toNat := by
  rw [BitVec.toInt_eq_toNat_cond] at nonneg ⊢
  split at nonneg
  case isTrue small => rw [if_pos small]
  case isFalse large =>
    have := word.isLt
    omega

/-- Where the ledger moves the target of a word. -/
def Ledger.corrected (ledger : Ledger) (word : BitVec 32) : Int :=
  word.toInt + ledger.deltaBefore word.toNat

/-- An operand whose word, if it is enrolled, follows its target. -/
def Operand.relocated (data : Bytes) (ledger : Ledger) (operand : Operand) : Operand :=
  match operand.enrolled? data with
  | some word => { operand with value := .int32 (BitVec.ofInt 32 (ledger.corrected word)) }
  | none => operand

/-- An event whose word, if it is enrolled, follows its target. -/
def Event.relocated (data : Bytes) (ledger : Ledger) : Event → Event
  | operand head argument o => .operand head argument (o.relocated data ledger)
  | event => event

variable {data : Bytes} {ledger : Ledger}

/-! ## Enrolled words -/

/-- A word is an absolute jump if it is positive and a plausible target. -/
theorem isSome_absoluteTarget?_iff {word : BitVec 32} :
    (NovelScript.absoluteTarget? data word).isSome = true ↔
      0 < word.toInt ∧ isPlausibleTarget data word.toNat = true := by
  rw [NovelScript.absoluteTarget?]
  split
  case isTrue found => simp [found]
  case isFalse lost => simpa using lost

/-- A word is enrolled when it is a positive plain 32-bit integer and its target is plausible. -/
theorem Operand.enrolled?_eq_some_iff {operand : Operand} {word : BitVec 32} :
    operand.enrolled? data = some word ↔
      operand.value = .int32 word ∧ 0 < word.toInt ∧
        isPlausibleTarget data word.toNat = true := by
  obtain ⟨tag, address, value⟩ := operand
  cases value with
  | int32 other =>
    rw [← isSome_absoluteTarget?_iff]
    simp only [Operand.enrolled?, Value.int32.injEq]
    by_cases found : (NovelScript.absoluteTarget? data other).isSome = true
    · rw [if_pos found, Option.some.injEq]
      exact ⟨fun same => ⟨same, same ▸ found⟩, fun h => h.1⟩
    · rw [if_neg found]
      constructor
      · simp
      · rintro ⟨rfl, h⟩
        exact absurd h found
  | _ => simp [Operand.enrolled?]

/-- Only operands are enrolled. -/
theorem Event.enrolled?_eq_some_iff {event : Event} {word : BitVec 32} :
    event.enrolled? data = some word ↔
      ∃ head argument operand, event = .operand head argument operand ∧
        operand.enrolled? data = some word := by
  cases event with
  | operand head argument operand =>
    constructor
    · exact fun h => ⟨head, argument, operand, rfl, h⟩
    · rintro ⟨_, _, _, h, enrolled⟩
      cases h
      exact enrolled
  | _ => simp [Event.enrolled?]

/-- Replacing texts enrols nothing and strikes nothing off. -/
theorem Event.enrolled?_retext (texts : List Bytes) (event : Event) :
    (event.retext texts).enrolled? data = event.enrolled? data := by
  cases texts with
  | nil => rfl
  | cons text texts =>
    cases event with
    | operand head argument operand =>
      obtain ⟨tag, address, value⟩ := operand
      cases value <;> rfl
    | _ => rfl

/-- What is enrolled is no text. -/
theorem Event.textUnit?_of_enrolled {event : Event} {word : BitVec 32}
    (enrolled : event.enrolled? data = some word) : event.textUnit? = none := by
  obtain ⟨head, argument, operand, rfl, henrolled⟩ := Event.enrolled?_eq_some_iff.mp enrolled
  obtain ⟨hvalue, -, -⟩ := Operand.enrolled?_eq_some_iff.mp henrolled
  simp [Event.textUnit?, Operand.textUnit?, hvalue, Value.payload?]

/-- A target that is not negative is an address as it stands. -/
theorem JumpSite.address_of_nonneg {site : JumpSite} (nonneg : 0 ≤ site.target.toInt) :
    site.address = site.target.toNat := by
  have msb : site.target.msb = false := by
    have unsigned := toInt_eq_toNat_of_nonneg nonneg
    have high : site.target.toInt < 0x80000000 := site.target.toInt_lt
    rw [BitVec.msb_eq_false_iff_two_mul_lt]
    omega
  have small := site.target.isLt
  rw [JumpSite.address, BitVec.signExtend_eq_setWidth_of_msb_false msb, BitVec.toNat_setWidth,
    Nat.mod_eq_of_lt (by omega)]

/-- The target of an enrolled word is the same address signed and unsigned. -/
theorem JumpSite.corrected_eq {site : JumpSite} (positive : 0 < site.target.toInt) :
    site.corrected ledger = ledger.corrected site.target := by
  rw [JumpSite.corrected, Ledger.corrected, JumpSite.address_of_nonneg (Int.le_of_lt positive)]

/-! ## Events without a change of length -/

/-- An enrolled operand gets its corrected target. -/
theorem Operand.relocated_of_some {operand : Operand} {word : BitVec 32}
    (h : operand.enrolled? data = some word) :
    operand.relocated data ledger =
      { operand with value := .int32 (BitVec.ofInt 32 (ledger.corrected word)) } := by
  rw [Operand.relocated, h]

/-- An operand that is not enrolled stays as it is. -/
theorem Operand.relocated_of_none {operand : Operand} (h : operand.enrolled? data = none) :
    operand.relocated data ledger = operand := by
  rw [Operand.relocated, h]

/-- Relocation changes no length. -/
theorem Event.length_bytes_relocated (event : Event) :
    (event.relocated data ledger).bytes.length = event.bytes.length := by
  cases event with
  | operand head argument operand =>
    rw [Event.relocated]
    cases h : operand.enrolled? data with
    | none => rw [Operand.relocated_of_none h]
    | some word =>
      obtain ⟨hvalue, -, -⟩ := Operand.enrolled?_eq_some_iff.mp h
      simp [Operand.relocated_of_some h, Event.bytes, hvalue, Value.size, Value.shape, Shape.width?]
  | _ => rfl

/-- An event that is not enrolled stays as it is. -/
theorem Event.relocated_of_none {event : Event} (h : event.enrolled? data = none) :
    event.relocated data ledger = event := by
  cases event with
  | operand head argument operand =>
    have hoperand : operand.enrolled? data = none := h
    rw [Event.relocated, Operand.relocated_of_none hoperand]
  | _ => rfl

/-! ## Relocating a script -/

/-- A corrected target that fits is written, and relocation goes on with the other sites. -/
theorem relocate_cons_of_isWord {site : JumpSite} (fits : IsWord (site.corrected ledger))
    (sites : List JumpSite) (script : Bytes) :
    relocate ledger (site :: sites) script =
      relocate ledger sites (overwrite script site.outputAddress
        (LittleEndian.encode 4 (site.corrected ledger).toNat)) := by
  rw [relocate]
  exact if_pos fits

/-- Relocation stops at a corrected target that does not fit, with what was written so far. -/
theorem relocate_cons_of_not_isWord {site : JumpSite} (overflow : ¬ IsWord (site.corrected ledger))
    (sites : List JumpSite) (script : Bytes) :
    relocate ledger (site :: sites) script =
      (script, some (.jumpOutOfRange site.outputAddress (site.corrected ledger))) := by
  rw [relocate]
  exact if_neg overflow

/-- Relocation stops at the first site whose corrected target cannot be stored. -/
theorem relocate_snd_eq (sites : List JumpSite) (script : Bytes) :
    (relocate ledger sites script).2 =
      (sites.find? fun site => ¬ IsWord (site.corrected ledger)).map fun site =>
        .jumpOutOfRange site.outputAddress (site.corrected ledger) := by
  induction sites generalizing script with
  | nil => rfl
  | cons site sites ih =>
    by_cases fits : IsWord (site.corrected ledger)
    · rw [relocate_cons_of_isWord fits, ih, List.find?_cons_of_neg (by simpa using fits)]
    · rw [relocate_cons_of_not_isWord fits, List.find?_cons_of_pos (by simpa using fits)]
      rfl

/-- Relocation succeeds exactly when every corrected target can be stored. -/
theorem relocate_snd_eq_none_iff {sites : List JumpSite} (script : Bytes) :
    (relocate ledger sites script).2 = none ↔ ∀ site ∈ sites, IsWord (site.corrected ledger) := by
  rw [relocate_snd_eq, Option.map_eq_none_iff, List.find?_eq_none]
  simp only [decide_not, Bool.not_eq_true', decide_eq_false_iff_not, not_not]

/-- Relocation fails exactly when some corrected target does not fit, and it names the first. -/
theorem relocate_snd_eq_some_iff {sites : List JumpSite} {script : Bytes} {problem : InjectError} :
    (relocate ledger sites script).2 = some problem ↔
      ∃ earlier site later, sites = earlier ++ site :: later ∧
        (∀ other ∈ earlier, IsWord (other.corrected ledger)) ∧
        ¬ IsWord (site.corrected ledger) ∧
        problem = .jumpOutOfRange site.outputAddress (site.corrected ledger) := by
  rw [relocate_snd_eq, Option.map_eq_some_iff]
  constructor
  · rintro ⟨site, found, rfl⟩
    obtain ⟨overflow, earlier, later, split, fits⟩ := List.find?_eq_some_iff_append.mp found
    refine ⟨earlier, site, later, split, ?_, by simpa using overflow, rfl⟩
    intro other before
    simpa using fits other before
  · rintro ⟨earlier, site, later, split, fits, overflow, rfl⟩
    refine ⟨site, List.find?_eq_some_iff_append.mpr ?_, rfl⟩
    refine ⟨by simpa using overflow, earlier, later, split, ?_⟩
    intro other before
    simpa using fits other before

/-- Overwriting bytes of the same length replaces exactly these. -/
theorem overwrite_append (front : Bytes) {old new : Bytes} (width : old.length = new.length)
    (rest : Bytes) :
    overwrite (front ++ (old ++ rest)) front.length new = front ++ (new ++ rest) := by
  rw [overwrite, List.take_left, ← width, List.drop_append, ← List.append_assoc]
  simp

/-- Overwriting inside a script keeps its length. -/
theorem length_overwrite {script bytes : Bytes} {address : Nat}
    (inside : address + bytes.length ≤ script.length) :
    (overwrite script address bytes).length = script.length := by
  unfold overwrite
  simp only [List.length_append, List.length_take, List.length_drop]
  omega

/-- Overwriting changes no byte outside its window. -/
theorem getElem?_overwrite_of_outside {script bytes : Bytes} {address index : Nat}
    (inside : address + bytes.length ≤ script.length)
    (outside : index < address ∨ address + bytes.length ≤ index) :
    (overwrite script address bytes)[index]? = script[index]? := by
  have front : (script.take address).length = address := by
    rw [List.length_take]
    omega
  unfold overwrite
  rw [List.append_assoc]
  rcases outside with before | behind
  · rw [List.getElem?_append_left (by omega), List.getElem?_take_of_lt before]
  · rw [List.getElem?_append_right (by omega), List.getElem?_append_right (by omega),
      List.getElem?_drop]
    congr 1
    omega

section Frame

variable {sites : List JumpSite} {script : Bytes}

/-- Relocation leaves every byte alone that is in none of the words. -/
theorem getElem?_relocate_of_outside {index : Nat}
    (inside : ∀ site ∈ sites, site.outputAddress + 4 ≤ script.length)
    (outside : ∀ site ∈ sites, index < site.outputAddress ∨ site.outputAddress + 4 ≤ index) :
    (relocate ledger sites script).1[index]? = script[index]? := by
  induction sites generalizing script with
  | nil => rfl
  | cons site sites ih =>
    by_cases fits : IsWord (site.corrected ledger)
    · have width := LittleEndian.length_encode 4 (site.corrected ledger).toNat
      have slot : site.outputAddress + (LittleEndian.encode 4 _).length ≤ script.length :=
        width ▸ inside site (by simp)
      rw [relocate_cons_of_isWord fits, ih]
      · exact getElem?_overwrite_of_outside slot (width ▸ outside site (by simp))
      · intro other member
        rw [length_overwrite slot]
        exact inside other (by simp [member])
      · intro other member
        exact outside other (by simp [member])
    · rw [relocate_cons_of_not_isWord fits]

/-- A word apart from all others is still there when they have been relocated. -/
theorem slot_relocate_of_apart {address : Nat}
    (inside : ∀ site ∈ sites, site.outputAddress + 4 ≤ script.length)
    (apart : ∀ site ∈ sites,
      address + 4 ≤ site.outputAddress ∨ site.outputAddress + 4 ≤ address) :
    ((relocate ledger sites script).1.drop address).take 4 = (script.drop address).take 4 := by
  apply List.ext_getElem?
  intro index
  rw [List.getElem?_take, List.getElem?_take]
  split
  case isFalse => rfl
  case isTrue early =>
    rw [List.getElem?_drop, List.getElem?_drop]
    apply getElem?_relocate_of_outside inside
    intro site member
    rcases apart site member with before | behind
    · exact .inl (by omega)
    · exact .inr (by omega)

end Frame

/-! ## Sites in their places -/

/-- Sites whose words can be relocated one after the other in any order. -/
structure Seated (script : Bytes) (sites : List JumpSite) : Prop where
  /-- Every word lies in the script. -/
  inside : ∀ site ∈ sites, site.outputAddress + 4 ≤ script.length
  /-- No two words share a byte. -/
  apart : sites.Pairwise fun site other =>
    site.outputAddress + 4 ≤ other.outputAddress ∨ other.outputAddress + 4 ≤ site.outputAddress
  /-- Every word holds the old target. -/
  holds : ∀ site ∈ sites,
    (script.drop site.outputAddress).take 4 = LittleEndian.encode 4 site.target.toNat

section Places

variable {script : Bytes} {sites : List JumpSite}

/-- What was written for the sites in front leaves the words behind them alone. -/
theorem Seated.holds_relocate {earlier later : List JumpSite}
    (seated : Seated script (earlier ++ later)) {site : JumpSite} (member : site ∈ later) :
    ((relocate ledger earlier script).1.drop site.outputAddress).take 4 =
      LittleEndian.encode 4 site.target.toNat := by
  obtain ⟨-, -, across⟩ := List.pairwise_append.mp seated.apart
  rw [slot_relocate_of_apart]
  · exact seated.holds site (List.mem_append_right _ member)
  · exact fun other before => seated.inside other (List.mem_append_left _ before)
  · exact fun other before => (across other before site member).symm

/-- Every word holds its old target until it is its turn. -/
theorem Seated.untouched {earlier later : List JumpSite} {site : JumpSite} {halfway : Bytes}
    (seated : Seated script sites) (split : sites = earlier ++ site :: later)
    (relocated : relocate ledger earlier script = (halfway, none)) :
    (halfway.drop site.outputAddress).take 4 = LittleEndian.encode 4 site.target.toNat := by
  subst split
  have held : ((relocate ledger earlier script).1.drop site.outputAddress).take 4 = _ :=
    seated.holds_relocate List.mem_cons_self
  rwa [relocated] at held

end Places

/-- The step of a relocation: an enrolled word behind other bytes is corrected where it stands. -/
theorem relocate_cons_of_enrolled {p : Placement} {word : BitVec 32} {front : Bytes}
    (htarget : p.target = front.length) (retexted : ∃ texts, p.new = p.old.retext texts)
    (enrolled : p.old.enrolled? data = some word) (fits : IsWord (ledger.corrected word))
    (sites : List JumpSite) (rest : Bytes) :
    relocate ledger (⟨p.target + 1, p.source + 1, word⟩ :: sites)
        (front ++ (p.new.bytes ++ rest)) =
      relocate ledger sites (front ++ ((p.new.relocated data ledger).bytes ++ rest)) := by
  obtain ⟨texts, hnew⟩ := retexted
  rw [Event.retext_of_none (Event.textUnit?_of_enrolled enrolled)] at hnew
  obtain ⟨head, argument, operand, hold, henrolled⟩ := Event.enrolled?_eq_some_iff.mp enrolled
  obtain ⟨hvalue, positive, -⟩ := Operand.enrolled?_eq_some_iff.mp henrolled
  have hcorrected : JumpSite.corrected ledger ⟨p.target + 1, p.source + 1, word⟩ =
      ledger.corrected word := JumpSite.corrected_eq positive
  have before : p.new.bytes = [operand.tag] ++ LittleEndian.encode 4 word.toNat := by
    simp [hnew, hold, Event.bytes, Operand.bytes, hvalue, Value.bytes]
  have behind : (p.new.relocated data ledger).bytes =
      [operand.tag] ++ LittleEndian.encode 4 (ledger.corrected word).toNat := by
    rw [hnew, hold, Event.relocated, Operand.relocated_of_some henrolled, Event.bytes,
      Operand.bytes, Value.bytes, fits.toNat_ofInt]
    rfl
  -- The word stands behind the tag, so the tag counts to the bytes in front of it.
  have slot : p.target + 1 = (front ++ [operand.tag]).length := by
    simp [htarget]
  have width : (LittleEndian.encode 4 word.toNat).length =
      (LittleEndian.encode 4 (ledger.corrected word).toNat).length := by simp
  have patched := overwrite_append (front ++ [operand.tag]) width rest
  rw [relocate_cons_of_isWord (hcorrected ▸ fits), hcorrected, before, behind, slot]
  simp only [List.append_assoc] at patched ⊢
  rw [patched]

/-- Relocating placed events behind other bytes relocates each of them. -/
theorem relocate_placements {placed : List Placement} (front : Bytes)
    (tiles : Tiles Placement.target (fun p => p.new.bytes) front.length placed)
    (retexted : ∀ p ∈ placed, ∃ texts, p.new = p.old.retext texts)
    (fits : ∀ p ∈ placed, ∀ word, p.old.enrolled? data = some word →
      IsWord (ledger.corrected word)) :
    relocate ledger (placed.filterMap (Placement.site? data))
        (front ++ placed.flatMap fun p => p.new.bytes) =
      (front ++ placed.flatMap fun p => (p.new.relocated data ledger).bytes, none) := by
  induction placed generalizing front with
  | nil => simp [relocate]
  | cons p placed ih =>
    obtain ⟨htarget, tiles⟩ := tiles
    have hretexted := retexted p (by simp)
    -- The relocated event is as long as the new one, and goes to the bytes in front.
    have tail : relocate ledger (placed.filterMap (Placement.site? data))
        (front ++ ((p.new.relocated data ledger).bytes ++ placed.flatMap fun q => q.new.bytes)) =
        (front ++ (p :: placed).flatMap fun q => (q.new.relocated data ledger).bytes, none) := by
      rw [List.flatMap_cons, ← List.append_assoc, ← List.append_assoc]
      apply ih
      · rwa [List.length_append, Event.length_bytes_relocated]
      · intro q hq
        exact retexted q (by simp [hq])
      · intro q hq
        exact fits q (by simp [hq])
    rw [← tail, List.filterMap_cons, Placement.site?, List.flatMap_cons]
    cases h : p.old.enrolled? data with
    | none =>
      obtain ⟨texts, hnew⟩ := hretexted
      have same : p.new.enrolled? data = none := by
        rw [hnew, Event.enrolled?_retext, h]
      rw [Event.relocated_of_none same]
      rfl
    | some word =>
      exact relocate_cons_of_enrolled htarget hretexted h (fits p (by simp) word h) _ _

/-! ## The kinds of placements -/

/-- What a placement can be: a text with another one in its place, a word that follows its target,
or an event that stays as it is. -/
inductive Placement.Kind (data : Bytes) : Placement → Prop
  | string (source target : Nat) (head : InstructionHead) (argument : ArgumentHead) (tag : UInt8)
    (old new : Bytes) :
    Kind data ⟨source, target, .operand head argument ⟨tag, source, .string old⟩,
      .operand head argument ⟨tag, source, .string new⟩⟩
  | run (source target : Nat) (old new : Bytes) :
    Kind data ⟨source, target, .text ⟨source, old⟩, .text ⟨source, new⟩⟩
  | word (source target : Nat) (head : InstructionHead) (argument : ArgumentHead) (tag : UInt8)
    (word : BitVec 32)
    (enrolled : Operand.enrolled? data ⟨tag, source, .int32 word⟩ = some word) :
    Kind data ⟨source, target, .operand head argument ⟨tag, source, .int32 word⟩,
      .operand head argument ⟨tag, source, .int32 word⟩⟩
  | plain (source target : Nat) (event : Event) (textless : event.textUnit? = none)
    (unenrolled : event.enrolled? data = none) : Kind data ⟨source, target, event, event⟩

/-- Every placement of events that were read is of one of the three kinds. -/
theorem kind_of_mem {level after : Level} {source target finish : Nat} {events : List Event}
    {texts : List Bytes} {p : Placement} (trace : Trace level source events after finish)
    (member : p ∈ placements source target events texts) : p.Kind data := by
  obtain ⟨_, _, step⟩ := exists_step_of_mem trace member
  obtain ⟨rest, hnew⟩ := exists_retext_of_mem _ _ _ _ member
  obtain ⟨pSource, pTarget, old, new⟩ := p
  simp only at step hnew
  subst hnew
  by_cases enrolled : ∃ word, old.enrolled? data = some word
  · obtain ⟨word, enrolled⟩ := enrolled
    rw [Event.retext_of_none (Event.textUnit?_of_enrolled enrolled)]
    obtain ⟨head, argument, operand, rfl, henrolled⟩ := Event.enrolled?_eq_some_iff.mp enrolled
    obtain ⟨hvalue, -, -⟩ := Operand.enrolled?_eq_some_iff.mp henrolled
    cases step
    obtain ⟨tag, address, value⟩ := operand
    simp only at hvalue
    subst hvalue
    exact .word _ _ head argument tag word henrolled
  · have unenrolled : old.enrolled? data = none := by
      simpa [Option.eq_none_iff_forall_ne_some] using enrolled
    cases has : old.textUnit? with
    | none =>
      rw [Event.retext_of_none has]
      exact .plain _ _ old has unenrolled
    | some unit =>
      cases step with
      | text run nonempty bytes =>
        cases rest with
        | nil => exact .run _ _ run.bytes run.bytes
        | cons text rest => exact .run _ _ run.bytes text
      | operand head argument operand known fits =>
        obtain ⟨tag, address, value⟩ := operand
        cases value with
        | string payload =>
          cases rest with
          | nil => exact .string _ _ head argument tag payload payload
          | cons text rest => exact .string _ _ head argument tag payload text
        | _ => simp [Event.textUnit?, Operand.textUnit?, Value.payload?] at has
      | _ => simp [Event.textUnit?] at has

end NovelScript
