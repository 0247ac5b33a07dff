import NovelScript.Proofs.Counts
import NovelScript.Proofs.TextPlausibility
import NovelScript.Proofs.Undo

/-!
# When a jump leaves the range

A jump is enrolled on a guess, so its target can be any address of the old script. Outside all texts
an address goes to a place in the new script, or to its end (`exists_position`). An address inside a
text is counted from the end of that text: it stands as far in front of the end of the new one as it
stood in front of the end of the old one (`shift_of_isInside`). So no jump ever goes behind the new
script, and one that goes in front of it went into the middle of a text.

Relocation corrects the jumps in the order of their addresses and stops at the first that it cannot
store. As long as the new script itself is small enough to be addressed, that is the first jump with
a negative target (`jumpRange_of_decode`).
-/

set_option autoImplicit false

namespace NovelScript

/-! ## Where the addresses of a script go -/

section Addresses

variable {data : Bytes} {lines : List Bytes} {events : List Event} {p : Placement} {address : Nat}

/-- An address inside a text is counted from the end of the text. -/
theorem shift_of_isInside (transcript : Transcript data events)
    (member : p ∈ Placement.ofLines lines events) {s : Sentence}
    (recorded : p.sentence? = some s) (inside : s.isInside address = true) :
    (Ledger.ofPlacements (Placement.ofLines lines events)).shift address =
      (p.target + p.new.bytes.length : Int) - (p.finish - address) := by
  rw [Sentence.isInside_eq_true_iff] at inside
  obtain ⟨start, finish⟩ := sentence_bounds transcript.trace member recorded
  have sorted : (Ledger.ofPlacements (Placement.ofLines lines events)).Sorted :=
    sorted_ofPlacements transcript.trace
  -- The texts that start before the address are those that have ended with this one.
  have same : (Ledger.ofPlacements (Placement.ofLines lines events)).deltaBefore address =
      (Ledger.ofPlacements (Placement.ofLines lines events)).deltaPast p.finish := by
    rw [Ledger.deltaBefore_eq sorted, Ledger.deltaPast]
    congr 1
    apply List.filter_congr
    intro t ht
    obtain ⟨q, placed, hq⟩ := List.mem_filterMap.mp ht
    obtain ⟨low, ended⟩ := sentence_bounds transcript.trace placed hq
    obtain ⟨_, _, step⟩ := exists_step_of_mem transcript.trace placed
    have nonempty := step.length_bytes_pos
    rw [decide_eq_decide, ended]
    rcases (tiles_source 0 0 events (lines.map Line.replacement)).trichotomy placed member with
      rfl | before | behind
    · obtain rfl := Option.some.inj (hq.symm.trans recorded)
      omega
    · unfold Sentence.finish at ended
      unfold Placement.finish at ended ⊢
      omega
    · unfold Placement.finish at finish ⊢
      omega
  have moved := shiftPast_finish transcript member
  rw [Ledger.shiftPast] at moved
  rw [Ledger.shift, same]
  omega

/-- The text that replaces an empty one is put at the address of the empty one. -/
theorem exists_position_of_isEmptyAt (transcript : Transcript data events) {s : Sentence}
    (recorded : s ∈ (Ledger.ofPlacements (Placement.ofLines lines events)).sentences)
    (empty : s.isEmptyAt address = true) :
    ∃ position ≤ (emitted lines events).length,
      (Ledger.ofPlacements (Placement.ofLines lines events)).shift address = (position : Nat) := by
  obtain ⟨p, member, found⟩ := List.mem_filterMap.mp recorded
  rw [Placement.sentence?_eq] at found
  obtain ⟨⟨unit, new⟩, replaced, rfl⟩ := Option.map_eq_some_iff.mp found
  have kind : p.Kind data := kind_of_mem transcript.trace member
  obtain ⟨-, -, width⟩ := kind.text_bounds replaced
  have bounds := target_bounds member
  simp only [Sentence.isEmptyAt, Bool.and_eq_true, decide_eq_true_eq] at empty
  refine ⟨p.target + unit.margin, by omega, ?_⟩
  rw [← empty.1, shift_of_replaced transcript member replaced]
  rfl

/-- An address inside no text is in an event without a text or in front of the text, and so its
distance from the start of the event fits into the new event as well. -/
theorem le_length_new_of_outside (transcript : Transcript data events)
    (member : p ∈ Placement.ofLines lines events) (low : p.source ≤ address)
    (high : address < p.finish) (outside : ∀ s ∈ p.sentence?, s.isInside address = false) :
    address - p.source ≤ p.new.bytes.length := by
  have kind : p.Kind data := kind_of_mem transcript.trace member
  cases has : p.replaced? with
  | none =>
    unfold Placement.finish at high
    rw [kind.new_eq has]
    omega
  | some replaced =>
    obtain ⟨unit, new⟩ := replaced
    obtain ⟨start, finish, width⟩ := kind.text_bounds has
    have apart := outside ⟨unit.textAddress, unit.text.length, new.length⟩ (by
      rw [Placement.sentence?_eq, has]
      rfl)
    rw [Bool.eq_false_iff, ne_eq, Sentence.isInside_eq_true_iff] at apart
    simp only [Sentence.finish, finish] at apart
    omega

/-- An address inside no text goes to a place in the new script, or to its end. -/
theorem exists_position (lines : List Bytes) (transcript : Transcript data events)
    (inside : address < data.length)
    (outside : ∀ s ∈ (Ledger.ofPlacements (Placement.ofLines lines events)).sentences,
      s.isInside address = false) :
    ∃ position ≤ (emitted lines events).length,
      (Ledger.ofPlacements (Placement.ofLines lines events)).shift address = (position : Nat) := by
  by_cases empty : ∃ s ∈ (Ledger.ofPlacements (Placement.ofLines lines events)).sentences,
      s.isEmptyAt address = true
  · obtain ⟨s, recorded, here⟩ := empty
    exact exists_position_of_isEmptyAt transcript recorded here
  · have nonempty : ∀ s ∈ (Ledger.ofPlacements (Placement.ofLines lines events)).sentences,
        s.isEmptyAt address = false := by
      simpa using empty
    have sorted : (Ledger.ofPlacements (Placement.ofLines lines events)).Sorted :=
      sorted_ofPlacements transcript.trace
    rw [← transcript.bytes, ← flatMap_old_placements 0 0 events (lines.map Line.replacement)]
      at inside
    obtain ⟨p, member, low, high⟩ :=
      (tiles_source 0 0 events (lines.map Line.replacement)).exists_mem (Nat.zero_le address)
        (by omega)
    have moved := shiftPast_of_mem transcript member low high
    rw [Ledger.shiftPast, Ledger.deltaPast_eq_deltaBefore sorted outside nonempty] at moved
    refine ⟨p.target + (address - p.source), ?_, moved⟩
    have fits := le_length_new_of_outside transcript member low high fun s recorded =>
      outside s (List.mem_filterMap.mpr ⟨p, member, recorded⟩)
    have bounds := target_bounds member
    omega

/-- No address of the old script goes behind the end of the new one. -/
theorem shift_le (lines : List Bytes) (transcript : Transcript data events)
    (inside : address < data.length) :
    (Ledger.ofPlacements (Placement.ofLines lines events)).shift address ≤
      (emitted lines events).length := by
  by_cases within : ∃ s ∈ (Ledger.ofPlacements (Placement.ofLines lines events)).sentences,
      s.isInside address = true
  · obtain ⟨s, recorded, hs⟩ := within
    obtain ⟨p, member, found⟩ := List.mem_filterMap.mp recorded
    have ended := (sentence_bounds transcript.trace member found).2
    have bounds := target_bounds member
    rw [shift_of_isInside transcript member found hs]
    rw [Sentence.isInside_eq_true_iff, ended] at hs
    omega
  · obtain ⟨position, high, moved⟩ :=
      exists_position lines transcript inside (by simpa using within)
    rw [moved]
    exact Int.ofNat_le.mpr high

end Addresses

/-! ## Enrolled jumps -/

section Jumps

variable {data : Bytes} {lines : List Bytes} {events : List Event}

/-- An enrolled jump is corrected to where the ledger moves its target, which is an address of the
old script. -/
theorem corrected_of_mem_sites (ledger : Ledger) {site : JumpSite}
    (enrolled : site ∈ (Placement.ofLines lines events).filterMap (Placement.site? data)) :
    site.target.toInt = site.target.toNat ∧ site.target.toNat < data.length ∧
      site.corrected ledger = ledger.shift site.target.toNat := by
  obtain ⟨p, -, found⟩ := List.mem_filterMap.mp enrolled
  obtain ⟨hword, same⟩ : _ ∧ site.corrected ledger = ledger.corrected site.target :=
    Placement.corrected_of_site found
  obtain ⟨_, _, _, -, henrolled⟩ := Event.enrolled?_eq_some_iff.mp hword
  obtain ⟨-, positive, likely⟩ := Operand.enrolled?_eq_some_iff.mp henrolled
  have unsigned := toInt_eq_toNat_of_nonneg (Int.le_of_lt positive)
  refine ⟨unsigned, lt_length_of_isPlausibleTarget likely, ?_⟩
  rw [same, Ledger.corrected, unsigned, Ledger.shift]

/-- The jump sites of an injection stand in the order of the old script. -/
theorem pairwise_sourceAddress (lines : List Bytes) (transcript : Transcript data events) :
    ((Placement.ofLines lines events).filterMap (Placement.site? data)).Pairwise
      fun earlier later => earlier.sourceAddress < later.sourceAddress := by
  rw [List.pairwise_filterMap]
  refine (tiles_source 0 0 events (lines.map Line.replacement)).pairwise.imp_of_mem ?_
  intro q p member laterMember before earlier found later laterFound
  have kind : q.Kind data := kind_of_mem transcript.trace member
  have laterKind : p.Kind data := kind_of_mem transcript.trace laterMember
  obtain ⟨starts, -, width, -⟩ := kind.jump_bounds found
  obtain ⟨laterStarts, -⟩ := laterKind.jump_bounds laterFound
  unfold Placement.finish at width
  omega

variable {site : JumpSite}

/-- A corrected target is at most the length of the new script. -/
theorem corrected_le (transcript : Transcript data events)
    (enrolled : site ∈ (Placement.ofLines lines events).filterMap (Placement.site? data)) :
    site.corrected (.ofPlacements (Placement.ofLines lines events)) ≤
      (emitted lines events).length := by
  obtain ⟨-, inside, same⟩ := corrected_of_mem_sites
    (.ofPlacements (Placement.ofLines lines events)) enrolled
  rw [same]
  exact shift_le lines transcript inside

/-- Only a jump into the middle of a text goes in front of the new script. -/
theorem exists_sentence_of_corrected_neg (transcript : Transcript data events)
    (enrolled : site ∈ (Placement.ofLines lines events).filterMap (Placement.site? data))
    (negative : site.corrected (.ofPlacements (Placement.ofLines lines events)) < 0) :
    ∃ s ∈ (Ledger.ofPlacements (Placement.ofLines lines events)).sentences,
      (s.address : Int) < site.target.toInt ∧ site.target.toInt < s.address + s.oldLength := by
  obtain ⟨unsigned, inside, same⟩ := corrected_of_mem_sites
    (.ofPlacements (Placement.ofLines lines events)) enrolled
  by_contra outside
  obtain ⟨position, -, moved⟩ := exists_position lines transcript inside (by
    intro s recorded
    rw [Bool.eq_false_iff, ne_eq, Sentence.isInside_eq_true_iff, Sentence.finish]
    intro within
    exact outside ⟨s, recorded, by omega, by omega⟩)
  rw [same, moved] at negative
  omega

/-- As long as the new script is no longer than 32 bits can say, a corrected target fits unless it
is negative. -/
theorem isWord_corrected_iff (transcript : Transcript data events)
    (small : (emitted lines events).length ≤ 0xFFFFFFFF)
    (enrolled : site ∈ (Placement.ofLines lines events).filterMap (Placement.site? data)) :
    IsWord (site.corrected (.ofPlacements (Placement.ofLines lines events))) ↔
      0 ≤ site.corrected (.ofPlacements (Placement.ofLines lines events)) := by
  have high := corrected_le transcript enrolled
  refine ⟨And.left, fun low => ⟨low, ?_⟩⟩
  omega

/-- A jump to a unit is corrected to where the unit was placed. -/
theorem corrected_nonneg_of_aims {commands : List Command} {command : Command}
    (transcript : Transcript data (commands.flatMap Command.events)) (member : command ∈ commands)
    (enrolled : site ∈ (Placement.ofLines lines (commands.flatMap Command.events)).filterMap
      (Placement.site? data))
    (aims : site.target.toInt = command.address) :
    0 ≤ site.corrected
      (.ofPlacements (Placement.ofLines lines (commands.flatMap Command.events))) := by
  obtain ⟨p, -, found⟩ := List.mem_filterMap.mp enrolled
  obtain ⟨unit, placed, starts, source⟩ := exists_placement_of_command transcript lines member
  rw [(Placement.corrected_of_site found).2]
  have moved := corrected_of_startsUnit transcript.trace placed starts (by rw [aims, source])
  rw [Placement.ofLines, moved]
  exact Int.natCast_nonneg unit.target

/-- An injection succeeds if no corrected target is negative. -/
theorem inject_of_corrected_nonneg (transcript : Transcript data events)
    (enough : (textUnits events).length ≤ lines.length)
    (small : (emitted lines events).length ≤ 0xFFFFFFFF)
    (low : ∀ site ∈ (Placement.ofLines lines events).filterMap (Placement.site? data),
      0 ≤ site.corrected (.ofPlacements (Placement.ofLines lines events))) :
    ∃ out, inject data lines = .ok out := by
  refine ⟨_, inject_of_reachable transcript enough (reachable_iff.mpr ?_)⟩
  intro site enrolled
  exact (isWord_corrected_iff transcript small enrolled).mpr (low site enrolled)

/-- An injection names the first jump that goes in front of the new script. -/
theorem inject_eq_jumpOutOfRange_iff (transcript : Transcript data events)
    (enough : (textUnits events).length ≤ lines.length)
    (small : (emitted lines events).length ≤ 0xFFFFFFFF) {address : Nat} {value : Int} :
    inject data lines = .error (.jumpOutOfRange address value) ↔
      ∃ earlier site later,
        (Placement.ofLines lines events).filterMap (Placement.site? data) =
          earlier ++ site :: later ∧
        (∀ other ∈ earlier,
          0 ≤ other.corrected (.ofPlacements (Placement.ofLines lines events))) ∧
        site.corrected (.ofPlacements (Placement.ofLines lines events)) < 0 ∧
        address = site.outputAddress ∧
        value = site.corrected (.ofPlacements (Placement.ofLines lines events)) := by
  rw [inject_eq_of_transcript transcript enough, Substitution.relocated_eq_error_iff,
    relocate_snd_eq_some_iff]
  dsimp only
  refine exists₃_congr fun earlier site later => and_congr_right fun split => ?_
  have fits : ∀ other ∈ earlier ++ site :: later,
      (IsWord (other.corrected (.ofPlacements (Placement.ofLines lines events))) ↔
        0 ≤ other.corrected (.ofPlacements (Placement.ofLines lines events))) := by
    intro other member
    exact isWord_corrected_iff transcript small (split ▸ member)
  refine and_congr (forall₂_congr fun other before => fits other ?_) (and_congr ?_ ?_)
  · exact List.mem_append_left _ before
  · rw [fits site (by simp), Int.not_le]
  · rw [InjectError.jumpOutOfRange.injEq]

end Jumps

/-- What is known of the jumps of a substitution that has put lines in place of all texts of a
script. -/
structure JumpRange (data : Bytes) (lines : List Bytes) (commands : List Command)
    (s : Substitution) : Prop where
  /-- The sites are the enrolled jumps of the script. -/
  sites : (s.sites.map fun site => (site.sourceAddress, site.target)) =
    enrolledJumps data (commands.flatMap Command.operands)
  /-- They are in the order of their addresses. -/
  ordered : s.sites.Pairwise fun earlier later => earlier.sourceAddress < later.sourceAddress
  /-- No jump goes behind the end of the new script. -/
  high : ∀ site ∈ s.sites, site.corrected s.ledger ≤ s.out.length
  /-- A jump that goes in front of the new script went into the middle of a text. -/
  low : ∀ site ∈ s.sites, site.corrected s.ledger < 0 → ∃ sentence ∈ s.ledger.sentences,
    (sentence.address : Int) < site.target.toInt ∧
      site.target.toInt < sentence.address + sentence.oldLength
  /-- An injection fails on a jump exactly if some jump goes in front of the new script. -/
  fails : (∃ address value, inject data lines = .error (.jumpOutOfRange address value)) ↔
    ∃ site ∈ s.sites, site.corrected s.ledger < 0
  /-- It then names the first of them. -/
  first : ∀ address value, inject data lines = .error (.jumpOutOfRange address value) ↔
    ∃ earlier site later, s.sites = earlier ++ site :: later ∧
      (∀ other ∈ earlier, 0 ≤ other.corrected s.ledger) ∧ site.corrected s.ledger < 0 ∧
      address = site.outputAddress ∧ value = site.corrected s.ledger
  /-- Otherwise it succeeds. -/
  succeeds : (∀ site ∈ s.sites, 0 ≤ site.corrected s.ledger) → ∃ out, inject data lines = .ok out
  /-- Jumps to the starts of units never go in front of the new script. -/
  aimed : (∀ site ∈ s.sites, ∃ command ∈ commands, site.target.toInt = command.address) →
    ∃ out, inject data lines = .ok out

/-- With a line for each text of a script, and a new script that 32 bits can address, an injection
fails only on a jump into the middle of a text, and on the first such jump that is corrected to a
negative address. -/
theorem jumpRange_of_decode {data : Bytes} {lines : List Bytes} {commands : List Command}
    {s : Substitution} (decoded : decode data = .ok commands)
    (enough : (textUnits (events data)).length ≤ lines.length)
    (finished : s = (Substitution.run data lines).state.finish data)
    (small : s.out.length ≤ 0xFFFFFFFF) : JumpRange data lines commands s := by
  have transcript := transcript_of_decode decoded
  rw [(transcript_iff.mp transcript).1] at enough
  obtain ⟨last, walked, hlast⟩ := Substitution.run_of_transcript transcript enough
  rw [walked] at finished
  obtain rfl := finished.trans hlast
  have succeeds := inject_of_corrected_nonneg transcript enough small
  constructor
  case sites => exact jumps_of_sites decoded lines
  case ordered => exact pairwise_sourceAddress lines transcript
  case high => exact fun site enrolled => corrected_le transcript enrolled
  case low =>
    intro site enrolled negative
    exact exists_sentence_of_corrected_neg transcript enrolled negative
  case fails =>
    constructor
    · rintro ⟨address, value, failed⟩
      obtain ⟨_, site, _, split, -, negative, -⟩ :=
        (inject_eq_jumpOutOfRange_iff transcript enough small).mp failed
      exact ⟨site, by simp [split], negative⟩
    · rintro ⟨site, enrolled, negative⟩
      apply inject_of_not_reachable transcript enough
      intro reachable
      exact Int.not_le.mpr negative (reachable_iff.mp reachable site enrolled).1
  case first =>
    exact fun address value => inject_eq_jumpOutOfRange_iff transcript enough small
  case succeeds => exact succeeds
  case aimed =>
    intro aimed
    apply succeeds
    intro site enrolled
    obtain ⟨command, member, aims⟩ := aimed site enrolled
    exact corrected_nonneg_of_aims transcript member enrolled aims

/-- A string of twenty bytes is emptied. The jump to the terminator behind it follows; the one to
the second byte of the string would go to five in front of the script, and is the one that is
named. -/
theorem jumpRange_of_decode_into_string :
    let data : Bytes := [0x1B, 0, 0, 0, 1, 41, 0, 0, 0, 4, 20, 0, 0, 0, 0x61, 0x1A] ++
      List.replicate 18 0x61 ++ [1, 15, 0, 0, 0, 0xFF, 0xFF, 0x1A]
    ∃ s : Substitution, s = (Substitution.run data [[]]).state.finish data ∧
      s.sites = [⟨5, 5, 41⟩, ⟨15, 35, 15⟩] ∧ s.ledger = ⟨[⟨14, 20, 0⟩]⟩ ∧ s.out.length = 22 ∧
      inject data [[]] = .error (.jumpOutOfRange 15 (-5)) := by
  intro data
  have decoded : decode data =
      .ok [.instruction ⟨⟨0, 0⟩, [⟨⟨3, 0, 1⟩,
        [⟨1, 4, .int32 41⟩, ⟨4, 9, .string (0x61 :: 0x1A :: List.replicate 18 0x61)⟩,
          ⟨1, 34, .int32 15⟩]⟩], 41⟩, .terminator 41] := by
    decide +kernel
  have enough : (textUnits (events data)).length ≤ [([] : Bytes)].length := by decide +kernel
  have finished : (Substitution.run data [[]]).state.finish data =
      { consumed := 1
        copied := 42
        out := [0x1B, 0, 0, 0, 1, 41, 0, 0, 0, 4, 0, 0, 0, 0, 1, 15, 0, 0, 0, 0xFF, 0xFF, 0x1A]
        ledger := ⟨[⟨14, 20, 0⟩]⟩
        sites := [⟨5, 5, 41⟩, ⟨15, 35, 15⟩] } := by
    decide +kernel
  have range := jumpRange_of_decode decoded enough finished.symm (by decide)
  refine ⟨_, finished.symm, rfl, rfl, rfl, (range.first 15 (-5)).mpr ?_⟩
  exact ⟨[⟨5, 5, 41⟩], ⟨15, 35, 15⟩, [], rfl, by decide, by decide, rfl, by decide⟩

end NovelScript
