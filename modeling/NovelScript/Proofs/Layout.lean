import NovelScript.Proofs.Substitution

/-!
# Where every byte of a new script comes from

A byte of a new script is copied from the old one, or it belongs to a new text, to the length in
front of one, or to a corrected jump. An `Origin` names such a byte without looking at the new
script, and the ledger alone says where it ends up: `Ledger.shift` moves an address by the texts
that start before it, `Ledger.shiftPast` by the texts that have ended there.

`Layout` collects what follows for the new script as a whole: its length, its texts and their
lengths, its jumps and its copied bytes, and that the origins share it out without gap or overlap.
Every injection has it (`layout_of_inject`).
-/

set_option autoImplicit false

namespace NovelScript

/-- Where an address goes when the texts that start before it count. -/
def Ledger.shift (ledger : Ledger) (address : Nat) : Int :=
  address + ledger.deltaBefore address

/-- Where an address goes when the texts that have ended there count. -/
def Ledger.shiftPast (ledger : Ledger) (address : Nat) : Int :=
  address + ledger.deltaPast address

/-- The texts of a script, each with the one that a line puts in its place. -/
def replacements (data : Bytes) (lines : List Bytes) : List (TextUnit × Bytes) :=
  (textUnits (events data)).zip (lines.map Line.replacement)

/-- Whether a byte of the old script is copied: it is in no text, in no length in front of a text
and in no jump that follows its target. -/
structure IsCopied (data : Bytes) (sites : List JumpSite) (address : Nat) : Prop where
  /-- The script has a byte there. -/
  inside : address < data.length
  /-- The byte is in no text. -/
  text : ∀ unit ∈ textUnits (events data),
    ¬ (unit.textAddress ≤ address ∧ address < unit.textAddress + unit.text.length)
  /-- The byte is in no length. -/
  length : ∀ unit ∈ textUnits (events data), unit.isString = true →
    ¬ (unit.textAddress ≤ address + 4 ∧ address < unit.textAddress)
  /-- The byte is in no jump. -/
  jump : ∀ site ∈ sites, ¬ (site.sourceAddress ≤ address ∧ address < site.sourceAddress + 4)

/-- What a byte of a new script is. -/
inductive Origin
  /-- The byte of the old script at an address. -/
  | copied (address : Nat)
  /-- A byte of a new text. -/
  | text (unit : TextUnit) (new : Bytes) (index : Nat)
  /-- A byte of the length in front of a new text. -/
  | length (unit : TextUnit) (new : Bytes) (index : Nat)
  /-- A byte of a corrected jump. -/
  | jump (site : JumpSite) (index : Nat)

namespace Origin

/-- Whether there is such a byte. -/
def Occurs (data : Bytes) (lines : List Bytes) (sites : List JumpSite) : Origin → Prop
  | copied address => IsCopied data sites address
  | text unit new index => (unit, new) ∈ replacements data lines ∧ index < new.length
  | length unit new index =>
    (unit, new) ∈ replacements data lines ∧ unit.isString = true ∧ index < 4
  | jump site index => site ∈ sites ∧ index < 4

/-- Where such a byte stands in the new script. -/
def position (ledger : Ledger) : Origin → Int
  | copied address => ledger.shiftPast address
  | text unit _ index => ledger.shift unit.textAddress + index
  | length unit _ index => ledger.shift unit.textAddress - 4 + index
  | jump site index => ledger.shift site.sourceAddress + index

end Origin

/-- What is known of every byte of a new script. -/
structure Layout (data : Bytes) (lines : List Bytes) (out : Injection) : Prop where
  /-- The script grows by what its texts grow. -/
  size : (out.script.length : Int) = data.length + out.ledger.totalDelta
  /-- There is a line for every text. -/
  enough : (textUnits (events data)).length ≤ lines.length
  /-- Every text is recorded, in order, with its new length. -/
  sentences : out.ledger.sentences = (replacements data lines).map fun (unit, new) =>
    { address := unit.textAddress, oldLength := unit.text.length, newLength := new.length }
  /-- Every new text stands where its address went, and its length in front of it if it had one. -/
  texts : ∀ unit new, (unit, new) ∈ replacements data lines →
    ∃ start : Nat, start = out.ledger.shift unit.textAddress ∧
      (out.script.drop start).take new.length = new ∧
      (unit.isString = true → 4 ≤ start ∧
        LittleEndian.decode ((out.script.drop (start - 4)).take 4) = new.length)
  /-- Every jump stands where its address went, and goes where its target went. -/
  jumps : ∀ site ∈ out.sites,
    site.outputAddress = out.ledger.shift site.sourceAddress ∧
      IsWord (out.ledger.corrected site.target) ∧
      (out.script.drop site.outputAddress).take 4 =
        LittleEndian.encode 4 (out.ledger.corrected site.target).toNat
  /-- Every other byte is copied. -/
  copied : ∀ address, IsCopied data out.sites address →
    ∃ position : Nat, position = out.ledger.shiftPast address ∧
      out.script[position]? = data[address]?
  /-- Every byte has exactly one origin. -/
  covered : ∀ position : Nat, position < out.script.length →
    ∃! origin : Origin, origin.Occurs data lines out.sites ∧
      origin.position out.ledger = position
  /-- No origin lies outside. -/
  within : ∀ origin : Origin, origin.Occurs data lines out.sites →
    0 ≤ origin.position out.ledger ∧ origin.position out.ledger < out.script.length
  /-- A copied byte moves by the texts that start before it, unless an empty text stood there. -/
  agrees : ∀ address, IsCopied data out.sites address →
    (∀ sentence ∈ out.ledger.sentences, sentence.isEmptyAt address = false) →
      out.ledger.shiftPast address = out.ledger.shift address
  /-- A copied byte behind an empty text moves by the new text as well. -/
  differs : ∀ address, IsCopied data out.sites address →
    ∀ sentence ∈ out.ledger.sentences, sentence.isEmptyAt address = true →
      out.ledger.shiftPast address = out.ledger.shift address + sentence.newLength

/-! ## What a placement holds -/

/-- What the byte of a placement at some index is. -/
def Placement.originAt (data : Bytes) (p : Placement) (index : Nat) : Origin :=
  match p.replaced?, p.site? data with
  | some (unit, new), _ =>
    if unit.isString then
      if index = 0 then .copied p.source
      else if index < 5 then .length unit new (index - 1)
      else .text unit new (index - 5)
    else .text unit new index
  | none, some site => if index = 0 then .copied p.source else .jump site (index - 1)
  | none, none => .copied (p.source + index)

/-- How many bytes of an event stand in front of its text. -/
def TextUnit.margin (unit : TextUnit) : Nat :=
  if unit.isString then 5 else 0

section Kinds

variable {data : Bytes} {p : Placement} {unit : TextUnit} {new : Bytes}

/-- The text of a placement stands behind its margin and ends it, in the old script and in the
new one. -/
theorem Placement.Kind.text_bounds (kind : p.Kind data)
    (replaced : p.replaced? = some (unit, new)) :
    unit.textAddress = p.source + unit.margin ∧
      unit.textAddress + unit.text.length = p.finish ∧
      p.new.bytes.length = unit.margin + new.length := by
  cases kind with
  | string source target head argument tag old new =>
    simp only [Placement.replaced?, Event.textUnit?, Operand.textUnit?, Value.payload?,
      Option.map_some, Option.some.injEq, Prod.mk.injEq] at replaced
    obtain ⟨rfl, rfl⟩ := replaced
    simp [TextUnit.textAddress, TextUnit.margin, TextUnit.isString, TextUnit.text,
      Operand.payloadAddress, Operand.valueAddress, Placement.finish, Event.bytes, Value.size,
      Event.text?, Event.textUnit?, Operand.textUnit?, Value.payload?]
    omega
  | run source target old new =>
    simp only [Placement.replaced?, Event.textUnit?, Option.map_some, Option.some.injEq,
      Prod.mk.injEq] at replaced
    obtain ⟨rfl, rfl⟩ := replaced
    simp [TextUnit.textAddress, TextUnit.margin, TextUnit.isString, TextUnit.text,
      Placement.finish, Event.bytes, Event.text?, Event.textUnit?]
  | word =>
    simp [Placement.replaced?, Event.textUnit?, Operand.textUnit?, Value.payload?] at replaced
  | plain source target event textless => simp [Placement.replaced?, textless] at replaced

/-- The word of a jump takes up the four bytes behind the tag, in the old script and in the new one.
-/
theorem Placement.Kind.jump_bounds {site : JumpSite} (kind : p.Kind data)
    (found : p.site? data = some site) :
    site.sourceAddress = p.source + 1 ∧ site.outputAddress = p.target + 1 ∧
      p.finish = p.source + 5 ∧ p.new.bytes.length = 5 := by
  obtain ⟨word, enrolled, rfl⟩ := Option.map_eq_some_iff.mp found
  refine ⟨rfl, rfl, ?_⟩
  cases kind with
  | word => exact ⟨rfl, rfl⟩
  | plain source target event textless unenrolled => simp [unenrolled] at enrolled
  | string => simp [Event.enrolled?, Operand.enrolled?] at enrolled
  | run => simp [Event.enrolled?] at enrolled

/-- A jump has no text to be replaced. -/
theorem Placement.replaced?_of_site {site : JumpSite} (found : p.site? data = some site) :
    p.replaced? = none := by
  obtain ⟨word, enrolled, -⟩ := Option.map_eq_some_iff.mp found
  rw [Placement.replaced?, Event.textUnit?_of_enrolled enrolled]
  rfl

/-- What has no text to be replaced is placed as it was. -/
theorem Placement.Kind.new_eq (kind : p.Kind data) (textless : p.replaced? = none) :
    p.new = p.old := by
  cases kind with
  | string =>
    simp [Placement.replaced?, Event.textUnit?, Operand.textUnit?, Value.payload?] at textless
  | run => simp [Placement.replaced?, Event.textUnit?] at textless
  | word => rfl
  | plain => rfl

/-- Of an event with a text or a jump only the tag is copied. -/
theorem Placement.originAt_eq_copied_iff {address : Nat} (low : p.source ≤ address) :
    p.originAt data (address - p.source) = .copied address ↔
      (∀ unit new, p.replaced? = some (unit, new) → unit.isString = true ∧ address = p.source) ∧
        ∀ site, p.site? data = some site → address = p.source := by
  have first : address - p.source = 0 ↔ address = p.source := by omega
  cases has : p.replaced? with
  | some replaced =>
    obtain ⟨unit, new⟩ := replaced
    cases string : unit.isString with
    | true =>
      by_cases start : address = p.source
      · simp [originAt, has, string, start]
      · by_cases short : address - p.source < 5
        · simp [originAt, has, string, start, first, short]
        · simp [originAt, has, string, start, first, short]
    | false => simp [originAt, has, string]
  | none =>
    cases found : p.site? data with
    | some site =>
      by_cases start : address = p.source
      · simp [originAt, has, found, start]
      · simp [originAt, has, found, start, first]
    | none =>
      have same : p.source + (address - p.source) = address := by omega
      simp [originAt, has, found, same]

end Kinds

/-! ## Origins and placements -/

section Origins

variable {data : Bytes} {lines : List Bytes} {events : List Event} {p : Placement}
  {unit : TextUnit} {new : Bytes} {address : Nat}

/-- What replaces a text is read off the placement of its event. -/
theorem mem_replacements_iff (transcript : Transcript data events)
    (enough : (textUnits events).length ≤ lines.length) :
    (unit, new) ∈ replacements data lines ↔
      ∃ p ∈ Placement.ofLines lines events, p.replaced? = some (unit, new) := by
  rw [replacements, (transcript_iff.mp transcript).1,
    ← filterMap_replaced?_placements 0 0 events (lines.map Line.replacement)
      (by simpa using enough)]
  exact List.mem_filterMap

/-- The text units of a script are those whose placements have a text to be replaced. -/
theorem mem_textUnits_iff (transcript : Transcript data events) (lines : List Bytes) :
    unit ∈ textUnits (NovelScript.events data) ↔
      ∃ p ∈ Placement.ofLines lines events, ∃ new, p.replaced? = some (unit, new) := by
  rw [(transcript_iff.mp transcript).1, textUnits]
  conv => lhs; rw [← map_old_placements 0 0 events (lines.map Line.replacement)]
  simp only [List.mem_filterMap, List.mem_map]
  constructor
  · rintro ⟨event, ⟨p, member, rfl⟩, has⟩
    exact ⟨p, member, _, by rw [Placement.replaced?, has]; rfl⟩
  · rintro ⟨p, member, new, replaced⟩
    obtain ⟨found, has, same⟩ := Option.map_eq_some_iff.mp replaced
    simp only [Prod.mk.injEq] at same
    exact ⟨p.old, ⟨p, member, rfl⟩, same.1 ▸ has⟩

/-- Whether a byte of the old script is copied depends on its own event only. -/
theorem isCopied_iff (transcript : Transcript data events)
    (member : p ∈ Placement.ofLines lines events) (low : p.source ≤ address)
    (high : address < p.finish) :
    IsCopied data ((Placement.ofLines lines events).filterMap (Placement.site? data)) address ↔
      p.originAt data (address - p.source) = .copied address := by
  have tiles := tiles_source 0 0 events (lines.map Line.replacement)
  have kinds : ∀ q ∈ Placement.ofLines lines events, q.Kind data := fun q hq =>
    kind_of_mem transcript.trace hq
  rw [Placement.originAt_eq_copied_iff low]
  constructor
  · intro copied
    constructor
    · intro unit new replaced
      have hunit := (mem_textUnits_iff transcript lines).mpr ⟨p, member, new, replaced⟩
      obtain ⟨start, finish, -⟩ := (kinds p member).text_bounds replaced
      have text := copied.text unit hunit
      have length := copied.length unit hunit
      cases string : unit.isString with
      | true =>
        rw [TextUnit.margin, string, if_pos rfl] at start
        have := length string
        exact ⟨rfl, by omega⟩
      | false =>
        simp only [TextUnit.margin, string, Bool.false_eq_true, if_false] at start
        omega
    · intro site found
      have jump := copied.jump site (List.mem_filterMap.mpr ⟨p, member, found⟩)
      obtain ⟨start, -, finish, -⟩ := (kinds p member).jump_bounds found
      omega
  · rintro ⟨ownText, ownJump⟩
    have inside : address < data.length := by
      have bound := (tiles.bounds member).2
      rw [flatMap_old_placements, transcript.bytes] at bound
      unfold Placement.finish at high
      omega
    -- What another event holds lies in that event, and so not at this address.
    refine ⟨inside, ?_, ?_, ?_⟩
    · intro unit hunit
      obtain ⟨q, hq, new, replaced⟩ := (mem_textUnits_iff transcript lines).mp hunit
      obtain ⟨start, finish, -⟩ := (kinds q hq).text_bounds replaced
      rcases tiles.trichotomy hq member with rfl | before | behind
      · obtain ⟨string, tag⟩ := ownText unit new replaced
        rw [TextUnit.margin, string, if_pos rfl] at start
        omega
      · unfold Placement.finish at finish
        omega
      · unfold Placement.finish at high
        omega
    · intro unit hunit string
      obtain ⟨q, hq, new, replaced⟩ := (mem_textUnits_iff transcript lines).mp hunit
      obtain ⟨start, finish, -⟩ := (kinds q hq).text_bounds replaced
      rw [TextUnit.margin, string, if_pos rfl] at start
      rcases tiles.trichotomy hq member with rfl | before | behind
      · have := (ownText unit new replaced).2
        omega
      · unfold Placement.finish at finish
        omega
      · unfold Placement.finish at high
        omega
    · intro site hsite
      obtain ⟨q, hq, found⟩ := List.mem_filterMap.mp hsite
      obtain ⟨start, -, finish, -⟩ := (kinds q hq).jump_bounds found
      rcases tiles.trichotomy hq member with rfl | before | behind
      · have := ownJump site found
        omega
      · unfold Placement.finish at finish
        omega
      · unfold Placement.finish at high
        omega

/-- A byte that is copied belongs to a placement, outside of what is replaced there. -/
theorem exists_placement_of_isCopied (transcript : Transcript data events)
    (copied : IsCopied data ((Placement.ofLines lines events).filterMap (Placement.site? data))
      address) :
    ∃ p ∈ Placement.ofLines lines events, p.source ≤ address ∧ address < p.finish ∧
      p.originAt data (address - p.source) = .copied address := by
  have inside := copied.inside
  rw [← transcript.bytes, ← flatMap_old_placements 0 0 events (lines.map Line.replacement)]
    at inside
  obtain ⟨p, member, low, high⟩ := (tiles_source 0 0 events (lines.map Line.replacement)).exists_mem
    (Nat.zero_le address) (by omega)
  exact ⟨p, member, low, high, (isCopied_iff transcript member low high).mp copied⟩

/-- An address of an old event goes where the event was placed. -/
theorem shiftPast_of_mem (transcript : Transcript data events)
    (member : p ∈ Placement.ofLines lines events) (low : p.source ≤ address)
    (high : address < p.finish) :
    (Ledger.ofPlacements (Placement.ofLines lines events)).shiftPast address =
      p.target + ((address - p.source : Nat) : Int) := by
  have moved := deltaPast_eq_of_mem transcript.trace member low high
  rw [Ledger.shiftPast, Placement.ofLines, moved]
  omega

/-- The ledger takes the place of an old text to the place of the new one. -/
theorem shift_of_replaced (transcript : Transcript data events)
    (member : p ∈ Placement.ofLines lines events) (replaced : p.replaced? = some (unit, new)) :
    (Ledger.ofPlacements (Placement.ofLines lines events)).shift unit.textAddress =
      p.target + (unit.margin : Int) := by
  have kind : p.Kind data := kind_of_mem transcript.trace member
  obtain ⟨start, -, -⟩ := kind.text_bounds replaced
  have recorded : p.sentence? = some
      { address := unit.textAddress, oldLength := unit.text.length, newLength := new.length } := by
    rw [Placement.sentence?_eq, replaced]
    rfl
  have moved := deltaBefore_textAddress transcript.trace member recorded
  rw [Ledger.shift, Placement.ofLines, moved]
  omega

/-- The ledger takes the place of an enrolled word to the place where it is written. -/
theorem shift_of_site {site : JumpSite} (transcript : Transcript data events)
    (member : p ∈ Placement.ofLines lines events) (found : p.site? data = some site) :
    (Ledger.ofPlacements (Placement.ofLines lines events)).shift site.sourceAddress =
      p.target + (1 : Int) := by
  have kind : p.Kind data := kind_of_mem transcript.trace member
  obtain ⟨start, -, finish, -⟩ := kind.jump_bounds found
  have textless : p.old.textUnit? = none := by
    obtain ⟨word, enrolled, -⟩ := Option.map_eq_some_iff.mp found
    exact Event.textUnit?_of_enrolled enrolled
  have low : p.source < site.sourceAddress := by omega
  have high : site.sourceAddress ≤ p.finish := by omega
  have moved := deltaBefore_of_textless transcript.trace member textless low high
  rw [Ledger.shift, Placement.ofLines, moved]
  omega

/-- The bytes of a placement occur, and stand one after the other where it was placed. -/
theorem originAt_occurs (transcript : Transcript data events)
    (enough : (textUnits events).length ≤ lines.length)
    (member : p ∈ Placement.ofLines lines events) {index : Nat}
    (high : index < p.new.bytes.length) :
    (p.originAt data index).Occurs data lines
        ((Placement.ofLines lines events).filterMap (Placement.site? data)) ∧
      (p.originAt data index).position (.ofPlacements (Placement.ofLines lines events)) =
        p.target + index := by
  have kind : p.Kind data := kind_of_mem transcript.trace member
  obtain ⟨_, _, step⟩ := exists_step_of_mem transcript.trace member
  have nonempty := step.length_bytes_pos
  -- A copied byte goes with its event, whatever else the event holds.
  have copied : p.originAt data index = .copied (p.source + index) → index < p.old.bytes.length →
      (p.originAt data index).Occurs data lines
          ((Placement.ofLines lines events).filterMap (Placement.site? data)) ∧
        (p.originAt data index).position
          (.ofPlacements (Placement.ofLines lines events)) = p.target + index := by
    intro own inside
    have hfinish : p.source + index < p.finish := by
      rw [Placement.finish]
      omega
    rw [own]
    refine ⟨(isCopied_iff transcript member (by omega) hfinish).mpr ?_, ?_⟩
    · rwa [Nat.add_sub_cancel_left]
    · rw [Origin.position, shiftPast_of_mem transcript member (by omega) hfinish,
        Nat.add_sub_cancel_left]
  cases has : p.replaced? with
  | some replaced =>
    obtain ⟨unit, new⟩ := replaced
    have hmem := (mem_replacements_iff transcript enough).mpr ⟨p, member, has⟩
    have hshift := shift_of_replaced transcript member has
    obtain ⟨-, -, width⟩ := kind.text_bounds has
    cases string : unit.isString with
    | true =>
      rw [TextUnit.margin, string, if_pos rfl] at hshift width
      by_cases first : index = 0
      · exact copied (by simp [Placement.originAt, has, string, first]) (by omega)
      · by_cases short : index < 5
        · have own : p.originAt data index = .length unit new (index - 1) := by
            simp [Placement.originAt, has, string, first, short]
          rw [own]
          refine ⟨⟨hmem, string, by omega⟩, ?_⟩
          rw [Origin.position, hshift]
          omega
        · have own : p.originAt data index = .text unit new (index - 5) := by
            simp [Placement.originAt, has, string, first, short]
          rw [own]
          refine ⟨⟨hmem, by omega⟩, ?_⟩
          rw [Origin.position, hshift]
          omega
    | false =>
      simp only [TextUnit.margin, string, Bool.false_eq_true, if_false] at hshift width
      have own : p.originAt data index = .text unit new index := by
        simp [Placement.originAt, has, string]
      rw [own]
      refine ⟨⟨hmem, by omega⟩, ?_⟩
      rw [Origin.position, hshift]
      omega
  | none =>
    rw [kind.new_eq has] at high
    cases found : p.site? data with
    | some site =>
      obtain ⟨-, -, finish, -⟩ := kind.jump_bounds found
      rw [Placement.finish] at finish
      by_cases first : index = 0
      · exact copied (by simp [Placement.originAt, has, found, first]) high
      · have own : p.originAt data index = .jump site (index - 1) := by
          simp [Placement.originAt, has, found, first]
        rw [own]
        refine ⟨⟨List.mem_filterMap.mpr ⟨p, member, found⟩, by omega⟩, ?_⟩
        rw [Origin.position, shift_of_site transcript member found]
        omega
    | none => exact copied (by simp [Placement.originAt, has, found]) high

/-- Every byte that occurs belongs to a placement. -/
theorem exists_originAt (transcript : Transcript data events)
    (enough : (textUnits events).length ≤ lines.length) {origin : Origin}
    (occurs : origin.Occurs data lines
      ((Placement.ofLines lines events).filterMap (Placement.site? data))) :
    ∃ p ∈ Placement.ofLines lines events, ∃ index < p.new.bytes.length,
      p.originAt data index = origin := by
  have kinds : ∀ q ∈ Placement.ofLines lines events, q.Kind data := fun q hq =>
    kind_of_mem transcript.trace hq
  cases origin with
  | copied address =>
    obtain ⟨p, member, low, high, own⟩ := exists_placement_of_isCopied transcript occurs
    rw [Placement.finish] at high
    refine ⟨p, member, address - p.source, ?_, own⟩
    cases has : p.replaced? with
    | some replaced =>
      obtain ⟨string, first⟩ := ((Placement.originAt_eq_copied_iff low).mp own).1 _ _ has
      obtain ⟨-, -, width⟩ := (kinds p member).text_bounds has
      rw [TextUnit.margin, string, if_pos rfl] at width
      omega
    | none =>
      rw [(kinds p member).new_eq has]
      omega
  | text unit new index =>
    obtain ⟨hmem, inside⟩ := occurs
    obtain ⟨p, member, has⟩ := (mem_replacements_iff transcript enough).mp hmem
    obtain ⟨-, -, width⟩ := (kinds p member).text_bounds has
    refine ⟨p, member, unit.margin + index, by omega, ?_⟩
    cases string : unit.isString <;> simp [Placement.originAt, has, string, TextUnit.margin]
  | length unit new index =>
    obtain ⟨hmem, string, inside⟩ := occurs
    obtain ⟨p, member, has⟩ := (mem_replacements_iff transcript enough).mp hmem
    obtain ⟨-, -, width⟩ := (kinds p member).text_bounds has
    rw [TextUnit.margin, string, if_pos rfl] at width
    refine ⟨p, member, index + 1, by omega, ?_⟩
    simp [Placement.originAt, has, string]
    omega
  | jump site index =>
    obtain ⟨hsite, inside⟩ := occurs
    obtain ⟨p, member, found⟩ := List.mem_filterMap.mp hsite
    obtain ⟨-, -, -, width⟩ := (kinds p member).jump_bounds found
    refine ⟨p, member, index + 1, by omega, ?_⟩
    simp [Placement.originAt, Placement.replaced?_of_site found, found]

/-- Every byte of the new script has exactly one origin. -/
theorem existsUnique_origin (transcript : Transcript data events)
    (enough : (textUnits events).length ≤ lines.length) {position : Nat}
    (inside : position < (Injection.ofEvents data lines events).script.length) :
    ∃! origin : Origin,
      origin.Occurs data lines
          ((Placement.ofLines lines events).filterMap (Placement.site? data)) ∧
        origin.position (.ofPlacements (Placement.ofLines lines events)) = position := by
  have tiles := tiles_target 0 0 events (lines.map Line.replacement)
  obtain ⟨p, member, low, high⟩ := (tiles_script data lines events).exists_mem
    (Nat.zero_le position) (by rw [Nat.zero_add]; exact inside)
  rw [Event.length_bytes_relocated] at high
  have bound : position - p.target < p.new.bytes.length := by omega
  obtain ⟨occurs, hposition⟩ := originAt_occurs transcript enough member bound
  refine ⟨p.originAt data (position - p.target), ⟨occurs, by omega⟩, ?_⟩
  rintro other ⟨otherOccurs, otherPosition⟩
  obtain ⟨q, qMember, index, bound, rfl⟩ := exists_originAt transcript enough otherOccurs
  have hindex := (originAt_occurs transcript enough qMember bound).2
  -- Two placements that share a byte are the same one.
  rcases tiles.trichotomy qMember member with rfl | before | behind
  · have same : index = position - q.target := by omega
    rw [same]
  · omega
  · omega

/-- Everything that has a place in the new script has it inside. -/
theorem position_within (transcript : Transcript data events)
    (enough : (textUnits events).length ≤ lines.length) {origin : Origin}
    (occurs : origin.Occurs data lines
      ((Placement.ofLines lines events).filterMap (Placement.site? data))) :
    0 ≤ origin.position (.ofPlacements (Placement.ofLines lines events)) ∧
      origin.position (.ofPlacements (Placement.ofLines lines events)) <
        (Injection.ofEvents data lines events).script.length := by
  obtain ⟨p, member, index, bound, rfl⟩ := exists_originAt transcript enough occurs
  have hindex := (originAt_occurs transcript enough member bound).2
  have hend := ((tiles_script data lines events).bounds member).2
  rw [Event.length_bytes_relocated] at hend
  rw [hindex]
  constructor
  · omega
  · simp only [Injection.ofEvents]
    omega

/-! ## The new script as a whole -/

/-- A new script is as long as what was emitted, and longer than the old one by what its texts
grew. -/
theorem length_script (lines : List Bytes) (transcript : Transcript data events) :
    ((Injection.ofEvents data lines events).script.length : Int) =
      data.length + (Ledger.ofPlacements (Placement.ofLines lines events)).totalDelta := by
  have same : (Injection.ofEvents data lines events).script.length =
      (emitted lines events).length := by
    simp only [Injection.ofEvents, emitted, List.length_flatMap, Event.length_bytes_relocated]
  rw [same, totalDelta_ofLines, transcript.bytes]
  omega

/-- The ledger has one record for each text that was replaced, in order. -/
theorem sentences_eq (transcript : Transcript data events)
    (enough : (textUnits events).length ≤ lines.length) :
    (Ledger.ofPlacements (Placement.ofLines lines events)).sentences =
      (replacements data lines).map fun (unit, new) =>
        { address := unit.textAddress
          oldLength := unit.text.length
          newLength := new.length } := by
  rw [replacements, (transcript_iff.mp transcript).1,
    ← filterMap_replaced?_placements 0 0 events (lines.map Line.replacement)
      (by simpa using enough),
    List.map_filterMap, Ledger.ofPlacements, funext Placement.sentence?_eq, Placement.ofLines]

/-- A byte that is copied is not inside a text that was replaced. -/
theorem isInside_of_isCopied (transcript : Transcript data events)
    (enough : (textUnits events).length ≤ lines.length) {sites : List JumpSite}
    (copied : IsCopied data sites address) :
    ∀ sentence ∈ (Ledger.ofPlacements (Placement.ofLines lines events)).sentences,
      sentence.isInside address = false := by
  rw [sentences_eq transcript enough]
  intro sentence recorded
  obtain ⟨⟨unit, new⟩, hmem, rfl⟩ := List.mem_map.mp recorded
  have outside := copied.text unit (List.of_mem_zip hmem).1
  rw [Bool.eq_false_iff, ne_eq, Sentence.isInside_eq_true_iff]
  simp only [Sentence.finish]
  omega

/-- A new text stands behind the margin of its event, with its length in front if it has one. -/
theorem script_at_text (member : p ∈ Placement.ofLines lines events) (kind : p.Kind data)
    (replaced : p.replaced? = some (unit, new)) :
    ∃ rest, (Injection.ofEvents data lines events).script.drop (p.target + unit.margin) =
        new ++ rest ∧
      (unit.isString = true →
        (Injection.ofEvents data lines events).script.drop (p.target + 1) =
          LittleEndian.encode 4 new.length ++ (new ++ rest)) := by
  obtain ⟨rest, hscript⟩ := drop_script_of_mem data member
  refine ⟨rest, ?_⟩
  cases kind with
  | string source target head argument tag old new =>
    simp only [Placement.replaced?, Event.textUnit?, Operand.textUnit?, Value.payload?,
      Event.text?, Option.map_some, Option.getD_some, TextUnit.text, Option.some.injEq,
      Prod.mk.injEq] at replaced
    obtain ⟨rfl, rfl⟩ := replaced
    simp only [Event.relocated, Operand.relocated, Operand.enrolled?, Event.bytes, Operand.bytes,
      Value.bytes, List.cons_append, List.append_assoc] at hscript
    have behindTag := congrArg (List.drop 1) hscript
    rw [List.drop_drop, List.drop_one, List.tail_cons] at behindTag
    have behindLength := congrArg (List.drop 4) behindTag
    rw [List.drop_drop, List.drop_left' (LittleEndian.length_encode 4 _)] at behindLength
    exact ⟨behindLength, fun _ => behindTag⟩
  | run source target old new =>
    simp only [Placement.replaced?, Event.textUnit?, Event.text?, Option.map_some,
      Option.getD_some, TextUnit.text, Option.some.injEq, Prod.mk.injEq] at replaced
    obtain ⟨rfl, rfl⟩ := replaced
    exact ⟨hscript, by simp [TextUnit.isString]⟩
  | word =>
    simp [Placement.replaced?, Event.textUnit?, Operand.textUnit?, Value.payload?] at replaced
  | plain source target event textless => simp [Placement.replaced?, textless] at replaced

/-- In the new script a corrected target stands at the place of its jump. -/
theorem script_at_jump {site : JumpSite} (member : p ∈ Placement.ofLines lines events)
    (kind : p.Kind data) (found : p.site? data = some site)
    (fits : IsWord ((Ledger.ofPlacements (Placement.ofLines lines events)).corrected site.target)) :
    ((Injection.ofEvents data lines events).script.drop (p.target + 1)).take 4 =
      LittleEndian.encode 4
        ((Ledger.ofPlacements (Placement.ofLines lines events)).corrected site.target).toNat := by
  obtain ⟨rest, hscript⟩ := drop_script_of_mem data member
  obtain ⟨word, enrolled, rfl⟩ := Option.map_eq_some_iff.mp found
  have hnew := kind.new_eq (Placement.replaced?_of_site found)
  obtain ⟨head, argument, operand, hold, henrolled⟩ := Event.enrolled?_eq_some_iff.mp enrolled
  rw [hnew, hold, Event.relocated, Operand.relocated_of_some henrolled] at hscript
  simp only [Event.bytes, Operand.bytes, Value.bytes, List.cons_append, fits.toNat_ofInt] at hscript
  have behindTag := congrArg (List.drop 1) hscript
  rw [List.drop_drop, List.drop_one, List.tail_cons] at behindTag
  rw [behindTag, List.take_left' (LittleEndian.length_encode 4 _)]

/-- In the new script a byte that is copied stands as far behind the start of its placement as in
the old one. -/
theorem script_at_copied (transcript : Transcript data events)
    (member : p ∈ Placement.ofLines lines events) (low : p.source ≤ address)
    (high : address < p.finish) (own : p.originAt data (address - p.source) = .copied address) :
    (Injection.ofEvents data lines events).script[p.target + (address - p.source)]? =
      data[address]? := by
  obtain ⟨rest, hscript⟩ := drop_script_of_mem data member
  obtain ⟨back, hdata⟩ := (tiles_source 0 0 events (lines.map Line.replacement)).drop_eq member
  rw [flatMap_old_placements, transcript.bytes, Nat.sub_zero] at hdata
  have hsplit : data[address]? = (data.drop p.source)[address - p.source]? := by
    rw [List.getElem?_drop, Nat.add_sub_cancel' low]
  rw [hsplit, ← List.getElem?_drop, hscript, hdata]
  obtain ⟨ownText, ownJump⟩ := (Placement.originAt_eq_copied_iff low).mp own
  have kind : p.Kind data := kind_of_mem transcript.trace member
  cases kind with
  | string source target head argument tag old new =>
    have first := (ownText _ _ rfl).2
    simp only at first
    simp [first, Event.relocated, Operand.relocated, Operand.enrolled?, Event.bytes, Operand.bytes]
  | run source target old new =>
    have string := (ownText _ _ rfl).1
    simp [TextUnit.isString] at string
  | word source target head argument tag word enrolled =>
    have first := ownJump ⟨target + 1, source + 1, word⟩ (by
      simp [Placement.site?, Event.enrolled?, enrolled])
    simp only at first
    simp [first, Event.relocated, Operand.relocated_of_some enrolled, Event.bytes, Operand.bytes]
  | plain source target event textless unenrolled =>
    simp only [Placement.finish] at low high
    simp only [Event.relocated_of_none unenrolled]
    rw [List.getElem?_append_left (by omega), List.getElem?_append_left (by omega)]

/-- Every injection has the layout of its texts, jumps and copied bytes. -/
theorem layout_of_inject {out : Injection} (injected : inject data lines = .ok out)
    (short : ∀ line ∈ lines, (Line.replacement line).length < 0x100000000) :
    Layout data lines out := by
  obtain ⟨events, transcript, enough, reachable, rfl⟩ := inject_eq_ok_iff.mp injected
  have kinds : ∀ p ∈ Placement.ofLines lines events, p.Kind data := fun p member =>
    kind_of_mem transcript.trace member
  have hevents : NovelScript.events data = events := (transcript_iff.mp transcript).1
  have sorted : (Ledger.ofPlacements (Placement.ofLines lines events)).Sorted :=
    sorted_ofPlacements transcript.trace
  constructor
  case size => exact length_script lines transcript
  case enough => rwa [hevents]
  case sentences => exact sentences_eq transcript enough
  case texts =>
    intro unit new hmem
    obtain ⟨p, member, replaced⟩ := (mem_replacements_iff transcript enough).mp hmem
    obtain ⟨rest, htext, hlength⟩ := script_at_text member (kinds p member) replaced
    refine ⟨p.target + unit.margin, ?_, ?_, ?_⟩
    · exact (shift_of_replaced transcript member replaced).symm
    · rw [htext, List.take_left]
    · intro string
      have margin : unit.margin = 5 := by rw [TextUnit.margin, string, if_pos rfl]
      obtain ⟨line, hline, rfl⟩ := List.mem_map.mp (List.of_mem_zip hmem).2
      have width : p.target + unit.margin - 4 = p.target + 1 := by omega
      refine ⟨by omega, ?_⟩
      rw [width, hlength string, List.take_left' (LittleEndian.length_encode 4 _)]
      exact LittleEndian.decode_encode_of_lt (short line hline)
  case jumps =>
    intro site hsite
    obtain ⟨p, member, found⟩ := List.mem_filterMap.mp hsite
    obtain ⟨-, houtput, -⟩ := (kinds p member).jump_bounds found
    have fits := reachable_iff.mp reachable site hsite
    rw [(Placement.corrected_of_site found).2] at fits
    refine ⟨?_, fits, ?_⟩
    · rw [houtput]
      exact (shift_of_site transcript member found).symm
    · rw [houtput]
      exact script_at_jump member (kinds p member) found fits
  case copied =>
    intro address copied
    obtain ⟨p, member, low, high, own⟩ := exists_placement_of_isCopied transcript copied
    refine ⟨p.target + (address - p.source), ?_, ?_⟩
    · exact (shiftPast_of_mem transcript member low high).symm
    · exact script_at_copied transcript member low high own
  case covered =>
    intro position inside
    exact existsUnique_origin transcript enough inside
  case within =>
    intro origin occurs
    exact position_within transcript enough occurs
  case agrees =>
    intro address copied nonempty
    have outside := isInside_of_isCopied transcript enough copied
    rw [Ledger.shiftPast, Ledger.shift]
    exact congrArg _ (Ledger.deltaPast_eq_deltaBefore sorted outside nonempty)
  case differs =>
    intro address copied sentence recorded empty
    have outside := isInside_of_isCopied transcript enough copied
    have moved := Ledger.deltaPast_of_isEmptyAt sorted outside recorded empty
    simp only [Injection.ofEvents, Ledger.shiftPast, Ledger.shift, moved]
    omega

/-- A jump over an empty string that gets two bytes: the byte behind the string has moved further
than the ledger says for its own address. -/
theorem layout_of_inject_empty_string :
    ∃ out,
      inject [0x1B, 0, 0, 1, 1, 16, 0, 0, 0, 4, 0, 0, 0, 0, 0xFF, 0xFF, 0x1A] [[0x61, 0x62]] =
          .ok out ∧
        out.script =
          [0x1B, 0, 0, 1, 1, 18, 0, 0, 0, 4, 2, 0, 0, 0, 0x61, 0x62, 0xFF, 0xFF, 0x1A] ∧
        out.sites = [⟨5, 5, 16⟩] ∧
        Layout [0x1B, 0, 0, 1, 1, 16, 0, 0, 0, 4, 0, 0, 0, 0, 0xFF, 0xFF, 0x1A] [[0x61, 0x62]]
          out ∧
        out.ledger.shift 14 = 14 ∧ out.ledger.shiftPast 14 = 16 := by
  have injected :
      inject [0x1B, 0, 0, 1, 1, 16, 0, 0, 0, 4, 0, 0, 0, 0, 0xFF, 0xFF, 0x1A] [[0x61, 0x62]] =
        .ok
          { script := [0x1B, 0, 0, 1, 1, 18, 0, 0, 0, 4, 2, 0, 0, 0, 0x61, 0x62, 0xFF, 0xFF, 0x1A]
            ledger := ⟨[⟨14, 0, 2⟩]⟩
            sites := [⟨5, 5, 16⟩]
            warnings := [] } := by
    decide +kernel
  have short : ∀ line ∈ [[0x61, 0x62]], (Line.replacement line).length < 0x100000000 := by
    decide +kernel
  exact ⟨_, injected, rfl, rfl, layout_of_inject injected short, by decide, by decide⟩

end Origins

end NovelScript
