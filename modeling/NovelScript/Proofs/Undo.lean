import NovelScript.Proofs.JumpTarget
import NovelScript.Proofs.Structure

/-!
# Taking an injection back

Injecting the old texts into a new script places every new event where the old one stood. The
placements of the second injection are those of the first with source and target exchanged
(`placements_rebuilt`), so its ledger counts, at the start of a unit, exactly the texts that the
first one counted there, with their changes in length reversed. A jump to a unit therefore goes back
to the address that it came from (`corrected_of_startsUnit`, used once in each direction).

What the second injection enrols is judged by the new script, and the old one has no say in it.
Where it enrols the same words as the first, the old script comes back byte for byte
(`inject_undone`).
-/

set_option autoImplicit false

namespace NovelScript

/-- The placement that puts the old text of a placement back in place of its new one. -/
def Placement.reversed (data : Bytes) (ledger : Ledger) (f : Nat → Nat) (p : Placement) :
    Placement :=
  { source := p.target
    target := p.source
    old := p.rebuilt data ledger f
    new := (p.rebuilt data ledger f).withText (p.old.text?.getD []) }

section Kinds

variable {data : Bytes} {ledger : Ledger} {f : Nat → Nat} {p : Placement}

/-- An enrolled word is rebuilt into its corrected target at its new address. -/
theorem rebuilt_of_enrolled {source target : Nat} {head : InstructionHead}
    {argument : ArgumentHead} {tag : UInt8} {word : BitVec 32}
    (enrolled : Operand.enrolled? data ⟨tag, source, .int32 word⟩ = some word) :
    Placement.rebuilt data ledger f
        ⟨source, target, .operand head argument ⟨tag, source, .int32 word⟩,
          .operand head argument ⟨tag, source, .int32 word⟩⟩ =
      .operand (head.moved f) (argument.moved f)
        ⟨tag, f source, .int32 (BitVec.ofInt 32 (ledger.corrected word))⟩ := by
  unfold Placement.rebuilt
  rw [Event.relocated, Operand.relocated_of_some enrolled]
  rfl

/-- The placement of an enrolled word is that word, in its old and in its new event. -/
theorem Placement.Kind.eq_of_enrolled {word : BitVec 32} (kind : p.Kind data)
    (enrolled : p.old.enrolled? data = some word) :
    ∃ source target head argument tag,
      Operand.enrolled? data ⟨tag, source, .int32 word⟩ = some word ∧
        p = ⟨source, target, .operand head argument ⟨tag, source, .int32 word⟩,
          .operand head argument ⟨tag, source, .int32 word⟩⟩ := by
  cases kind with
  | word source target head argument tag own found =>
    have same : own = word := Option.some.inj (found.symm.trans enrolled)
    subst same
    exact ⟨source, target, head, argument, tag, found, rfl⟩
  | string => simp [Event.enrolled?, Operand.enrolled?] at enrolled
  | run => simp [Event.enrolled?] at enrolled
  | plain source target event textless unenrolled => simp [unenrolled] at enrolled

/-- A rebuilt event has a text unit exactly when the old one has one. -/
theorem Placement.Kind.length_textUnit?_rebuilt (kind : p.Kind data) :
    (p.rebuilt data ledger f).textUnit?.toList.length = p.old.textUnit?.toList.length := by
  have texts : (p.rebuilt data ledger f).text? = p.replaced?.map Prod.snd := kind.text?_rebuilt
  unfold Event.text? Placement.replaced? at texts
  cases has : p.old.textUnit? with
  | none =>
    rw [has, Option.map_none, Option.map_none, Option.map_eq_none_iff] at texts
    rw [texts]
  | some unit =>
    rw [has, Option.map_some, Option.map_some, Option.map_eq_some_iff] at texts
    obtain ⟨found, rebuilt, -⟩ := texts
    rw [rebuilt]
    rfl

/-- A rebuilt event starts a unit exactly when the old one does. -/
theorem Placement.Kind.startsUnit_rebuilt (kind : p.Kind data) :
    (p.rebuilt data ledger f).startsUnit = p.old.startsUnit := by
  cases kind with
  | plain source target event textless unenrolled =>
    unfold Placement.rebuilt
    rw [Event.relocated_of_none unenrolled]
    cases event <;> rfl
  | _ => rfl

/-- Apart from a word that follows its target, putting the old text back gives the old bytes. -/
theorem Placement.Kind.bytes_reversed (kind : p.Kind data)
    (unenrolled : p.old.enrolled? data = none) :
    (p.reversed data ledger f).new.bytes = p.old.bytes := by
  unfold Placement.reversed Placement.rebuilt
  cases kind with
  | string => rfl
  | run => rfl
  | word source target head argument tag word enrolled =>
    simp [Event.enrolled?, enrolled] at unenrolled
  | plain source target event textless =>
    have still : (event.moved f).textUnit? = none := by
      have moved := event.text?_moved f
      unfold Event.text? at moved
      rwa [textless, Option.map_none, Option.map_eq_none_iff] at moved
    simp only [Event.relocated_of_none unenrolled]
    rw [Event.withText_of_none still, Event.bytes_moved]

/-- Taking a placement back gives it the length that it had. -/
theorem Placement.Kind.length_bytes_reversed (kind : p.Kind data) :
    (p.reversed data ledger f).new.bytes.length = p.old.bytes.length := by
  cases found : p.old.enrolled? data with
  | none => rw [kind.bytes_reversed found]
  | some word =>
    obtain ⟨source, target, head, argument, tag, enrolled, rfl⟩ := kind.eq_of_enrolled found
    unfold Placement.reversed
    rw [rebuilt_of_enrolled enrolled]
    rfl

/-- A rebuilt event takes the old text when that is the first of some texts. -/
theorem Placement.Kind.retext_rebuilt (kind : p.Kind data) {originals : List Bytes}
    (first : p.old.text?.toList <+: originals) :
    (p.rebuilt data ledger f).retext originals = (p.reversed data ledger f).new := by
  unfold Placement.reversed
  cases has : p.old.text? with
  | none =>
    have textless : (p.rebuilt data ledger f).textUnit? = none := by
      have same : (p.rebuilt data ledger f).textUnit?.toList.length = _ :=
        kind.length_textUnit?_rebuilt
      unfold Event.text? at has
      rw [Option.map_eq_none_iff] at has
      simpa [has] using same
    rw [Event.retext_of_none textless, Event.withText_of_none textless]
  | some text =>
    rw [has] at first
    obtain ⟨rest, rfl⟩ := first
    rfl

/-- A word that the second injection enrols is the corrected word of the first one. -/
theorem Placement.Kind.moved_eq {script : Bytes} {word moved : BitVec 32} (kind : p.Kind data)
    (enrolled : p.old.enrolled? data = some word)
    (again : (p.rebuilt data ledger f).enrolled? script = some moved) :
    moved = BitVec.ofInt 32 (ledger.corrected word) ∧ 0 < moved.toInt := by
  obtain ⟨source, target, head, argument, tag, found, rfl⟩ := kind.eq_of_enrolled enrolled
  rw [rebuilt_of_enrolled found] at again
  have operand : Operand.enrolled? script
      ⟨tag, f source, .int32 (BitVec.ofInt 32 (ledger.corrected word))⟩ = some moved := again
  obtain ⟨value, positive, -⟩ := Operand.enrolled?_eq_some_iff.mp operand
  exact ⟨(Value.int32.inj value).symm, positive⟩

/-- An event with its old text and its old target stands for the old bytes. -/
theorem Placement.Kind.bytes_restored {script : Bytes} {back : Ledger} (kind : p.Kind data)
    (others : p.old.enrolled? data = none → (p.rebuilt data ledger f).enrolled? script = none)
    (jumps : ∀ word, p.old.enrolled? data = some word →
      ∃ moved, (p.rebuilt data ledger f).enrolled? script = some moved ∧
        back.corrected moved = word.toInt) :
    ((p.reversed data ledger f).new.relocated script back).bytes = p.old.bytes := by
  cases found : p.old.enrolled? data with
  | none =>
    have still : (p.reversed data ledger f).new.enrolled? script = none := by
      have unchanged : (p.reversed data ledger f).new.enrolled? script =
          (p.rebuilt data ledger f).enrolled? script :=
        Event.enrolled?_retext [p.old.text?.getD []] (p.rebuilt data ledger f)
      rw [unchanged, others found]
    rw [Event.relocated_of_none still, kind.bytes_reversed found]
  | some word =>
    obtain ⟨moved, again, goesBack⟩ := jumps word found
    obtain ⟨source, target, head, argument, tag, enrolled, rfl⟩ := kind.eq_of_enrolled found
    rw [rebuilt_of_enrolled enrolled] at again
    have patched : Operand.relocated script back
          ⟨tag, f source, .int32 (BitVec.ofInt 32 (ledger.corrected word))⟩ =
        ⟨tag, f source, .int32 (BitVec.ofInt 32 (back.corrected moved))⟩ :=
      Operand.relocated_of_some again
    rw [goesBack, BitVec.ofInt_toInt] at patched
    simp only [Placement.reversed, rebuilt_of_enrolled enrolled, Event.withText, Operand.withText,
      Event.relocated, patched]
    rfl

end Kinds

/-- Placing the rebuilt events with the old texts is taking back every placement. -/
theorem placements_rebuilt {data : Bytes} {source target : Nat} {events : List Event}
    {texts originals : List Bytes} (ledger : Ledger) (f : Nat → Nat)
    (kinds : ∀ p ∈ placements source target events texts, p.Kind data)
    (restored : (textUnits events).map TextUnit.text <+: originals) :
    placements target source
        ((placements source target events texts).map (Placement.rebuilt data ledger f))
        originals =
      (placements source target events texts).map (Placement.reversed data ledger f) := by
  induction events generalizing source target texts originals with
  | nil => rfl
  | cons event events ih =>
    rw [placements, List.forall_mem_cons] at kinds
    obtain ⟨kind, kinds⟩ := kinds
    rw [textUnits_cons, List.map_append] at restored
    have first : event.text?.toList <+: originals := by
      have own : event.text?.toList = event.textUnit?.toList.map TextUnit.text := by
        unfold Event.text?
        cases event.textUnit? <;> rfl
      rw [own]
      exact (List.prefix_append _ _).trans restored
    have others : (textUnits events).map TextUnit.text <+:
        originals.drop event.textUnit?.toList.length := by
      obtain ⟨rest, rfl⟩ := restored
      rw [List.append_assoc, List.drop_left' (List.length_map _)]
      exact List.prefix_append _ _
    simp only [placements, List.map_cons]
    rw [kind.retext_rebuilt first, kind.length_bytes_reversed, kind.length_textUnit?_rebuilt,
      Placement.bytes_rebuilt, Event.length_bytes_relocated]
    exact congrArg _ (ih kinds others)

/-! ## The second injection -/

section Twice

variable (data : Bytes) (lines : List Bytes) (events : List Event)

/-- The event of the new script that an event was placed as. -/
def Placement.rebuiltIn (p : Placement) : Event :=
  let ledger := Ledger.ofPlacements (Placement.ofLines lines events)
  p.rebuilt data ledger ledger.newAddress

/-- The placement that takes an event of the new script back. -/
def Placement.reversedIn (p : Placement) : Placement :=
  let ledger := Ledger.ofPlacements (Placement.ofLines lines events)
  p.reversed data ledger ledger.newAddress

/-- The events of the script that an injection makes. -/
def rebuiltEvents : List Event :=
  (Placement.ofLines lines events).map (Placement.rebuiltIn data lines events)

/-- What makes a second injection, of other lines into the new script, go back to the old one. -/
structure Reversal (originals : List Bytes) : Prop where
  /-- The events are those of the old script. -/
  transcript : Transcript data events
  /-- The first injection has a line for every text. -/
  enough : (textUnits events).length ≤ lines.length
  /-- The first injection can store every target. -/
  reachable : Reachable data lines events
  /-- The new script is read as the events that were placed. -/
  again : Transcript (Injection.ofEvents data lines events).script (rebuiltEvents data lines events)
  /-- The lines of the second injection hold the old texts. -/
  restored : (textUnits events).map TextUnit.text <+: originals.map Line.replacement
  /-- Every enrolled word holds the address of a unit. -/
  aimed : ∀ p ∈ Placement.ofLines lines events, ∀ word, p.old.enrolled? data = some word →
    ∃ unit ∈ Placement.ofLines lines events,
      unit.old.startsUnit = true ∧ word.toInt = unit.source
  /-- An event is enrolled in the new script exactly when it was in the old one. -/
  same : ∀ p ∈ Placement.ofLines lines events,
    (∃ moved, (p.rebuiltIn data lines events).enrolled?
        (Injection.ofEvents data lines events).script = some moved) ↔
      ∃ word, p.old.enrolled? data = some word

end Twice

/-- A word that holds the address of a unit is corrected to where the unit was placed. -/
theorem corrected_of_startsUnit {after : Level} {finish : Nat} {events : List Event}
    {texts : List Bytes} {unit : Placement} {word : BitVec 32}
    (trace : Trace .units 0 events after finish) (member : unit ∈ placements 0 0 events texts)
    (starts : unit.old.startsUnit = true) (aims : word.toInt = unit.source) :
    (Ledger.ofPlacements (placements 0 0 events texts)).corrected word = unit.target := by
  unfold Ledger.corrected
  rw [toNat_eq_of_toInt_eq aims, deltaBefore_of_startsUnit trace member starts, aims]
  omega

variable {data : Bytes} {lines originals : List Bytes} {events : List Event} {p : Placement}

/-- Injecting the old texts into the new script takes back every placement. -/
theorem ofLines_rebuiltEvents (transcript : Transcript data events)
    (restored : (textUnits events).map TextUnit.text <+: originals.map Line.replacement) :
    Placement.ofLines originals (rebuiltEvents data lines events) =
      (Placement.ofLines lines events).map (Placement.reversedIn data lines events) := by
  apply placements_rebuilt _ _ _ restored
  intro p member
  exact kind_of_mem transcript.trace member

/-- The old texts are enough lines for the new script. -/
theorem enough_of_restored (transcript : Transcript data events)
    (enough : (textUnits events).length ≤ lines.length)
    (restored : (textUnits events).map TextUnit.text <+: originals.map Line.replacement) :
    (textUnits (rebuiltEvents data lines events)).length ≤ originals.length := by
  have texts := congrArg List.length (texts_rebuilt transcript enough
    (Ledger.ofPlacements (Placement.ofLines lines events)).newAddress)
  have count := restored.length_le
  rw [List.length_map, List.length_take, List.length_map, Nat.min_eq_left enough] at texts
  rw [List.length_map, List.length_map, ← texts] at count
  exact count

namespace Reversal

variable (reversal : Reversal data lines events originals)

include reversal

/-- Every placement is of one of the three kinds. -/
theorem kind (member : p ∈ Placement.ofLines lines events) : p.Kind data :=
  kind_of_mem reversal.transcript.trace member

/-- The second injection corrects a word to the target that it had in the old script. -/
theorem exists_moved (member : p ∈ Placement.ofLines lines events) {word : BitVec 32}
    (enrolled : p.old.enrolled? data = some word) :
    ∃ moved, (p.rebuiltIn data lines events).enrolled?
        (Injection.ofEvents data lines events).script = some moved ∧
      (Ledger.ofPlacements
        (Placement.ofLines originals (rebuiltEvents data lines events))).corrected moved =
          word.toInt := by
  obtain ⟨moved, found⟩ := (reversal.same p member).mpr ⟨word, enrolled⟩
  obtain ⟨unit, placed, starts, aims⟩ := reversal.aimed p member word enrolled
  obtain ⟨follows, positive⟩ := (reversal.kind member).moved_eq enrolled found
  refine ⟨moved, found, ?_⟩
  have target : (Ledger.ofPlacements (Placement.ofLines lines events)).corrected word =
      unit.target := corrected_of_startsUnit reversal.transcript.trace placed starts aims
  have fits : IsWord ((Ledger.ofPlacements (Placement.ofLines lines events)).corrected word) := by
    apply reversal.reachable p.old _ word enrolled
    rw [← map_old_placements 0 0 events (lines.map Line.replacement)]
    exact List.mem_map_of_mem member
  have aimsAgain : moved.toInt = unit.target := by
    rw [toInt_eq_toNat_of_nonneg (Int.le_of_lt positive), follows, fits.toNat_ofInt, target]
    rfl
  -- The unit was placed at its new address, from which the second injection places it back.
  have back : unit.reversedIn data lines events ∈
      Placement.ofLines originals (rebuiltEvents data lines events) := by
    rw [ofLines_rebuiltEvents reversal.transcript reversal.restored]
    exact List.mem_map_of_mem placed
  rw [aims]
  exact corrected_of_startsUnit reversal.again.trace back
    ((reversal.kind placed).startsUnit_rebuilt.trans starts) aimsAgain

/-- All targets can be reached on the way back, since they were addresses of the old script. -/
theorem reachable_again :
    Reachable (Injection.ofEvents data lines events).script originals
      (rebuiltEvents data lines events) := by
  intro event rebuilt found again
  obtain ⟨p, member, rfl⟩ := List.mem_map.mp rebuilt
  obtain ⟨word, enrolled⟩ := (reversal.same p member).mp ⟨found, again⟩
  obtain ⟨moved, foundMoved, target⟩ := reversal.exists_moved member enrolled
  rw [again, Option.some.injEq] at foundMoved
  rw [foundMoved, target]
  obtain ⟨_, _, _, -, operand⟩ := Event.enrolled?_eq_some_iff.mp enrolled
  have positive := (Operand.enrolled?_eq_some_iff.mp operand).2.1
  have small := word.isLt
  rw [toInt_eq_toNat_of_nonneg (Int.le_of_lt positive)]
  constructor
  · omega
  · omega

/-- What comes out of the second injection is the old script. -/
theorem script_eq :
    (Injection.ofEvents (Injection.ofEvents data lines events).script originals
      (rebuiltEvents data lines events)).script = data := by
  have bytes : ∀ p ∈ Placement.ofLines lines events,
      ((p.reversedIn data lines events).new.relocated (Injection.ofEvents data lines events).script
        (.ofPlacements (Placement.ofLines originals (rebuiltEvents data lines events)))).bytes =
          p.old.bytes := by
    intro p member
    apply (reversal.kind member).bytes_restored
    · intro unenrolled
      rw [Option.eq_none_iff_forall_ne_some]
      intro moved found
      obtain ⟨word, enrolled⟩ := (reversal.same p member).mp ⟨moved, found⟩
      simp [unenrolled] at enrolled
    · intro word enrolled
      exact reversal.exists_moved member enrolled
  unfold Injection.ofEvents at bytes ⊢
  simp only [ofLines_rebuiltEvents reversal.transcript reversal.restored, List.flatMap_map]
    at bytes ⊢
  rw [List.flatMap_congr bytes, Placement.ofLines, flatMap_old_placements,
    reversal.transcript.bytes]

end Reversal

/-! ## Enrolling the same words -/

/-- No two events of the new script stand at the same address. -/
theorem eq_of_target_eq {script : Bytes} {q : Placement}
    (again : Transcript script (rebuiltEvents data lines events))
    (member : p ∈ Placement.ofLines lines events) (other : q ∈ Placement.ofLines lines events)
    (same : p.target = q.target) : p = q := by
  have positive : ∀ u ∈ Placement.ofLines lines events, 0 < u.new.bytes.length := by
    intro u placed
    obtain ⟨_, _, _, step⟩ := again.trace.exists_step (List.mem_map_of_mem placed)
    have nonempty := step.length_bytes_pos
    rwa [Placement.rebuiltIn, Placement.bytes_rebuilt, Event.length_bytes_relocated] at nonempty
  have hp := positive p member
  have hq := positive q other
  rcases (tiles_target 0 0 events (lines.map Line.replacement)).trichotomy member other with
    equal | before | behind
  · exact equal
  · omega
  · omega

/-- The addresses of the jump sites are those of the enrolled words. -/
theorem mem_map_sites_iff {placed : List Placement} {g : JumpSite → Nat} {address : Nat} :
    address ∈ (placed.filterMap (Placement.site? data)).map g ↔
      ∃ p ∈ placed, ∃ word, p.old.enrolled? data = some word ∧
        g ⟨p.target + 1, p.source + 1, word⟩ = address := by
  simp only [List.mem_map, List.mem_filterMap]
  constructor
  · rintro ⟨site, ⟨p, member, found⟩, rfl⟩
    obtain ⟨word, enrolled, rfl⟩ := Option.map_eq_some_iff.mp found
    exact ⟨p, member, word, enrolled, rfl⟩
  · rintro ⟨p, member, word, enrolled, rfl⟩
    exact ⟨_, ⟨p, member, Option.map_eq_some_iff.mpr ⟨word, enrolled, rfl⟩⟩, rfl⟩

/-- If the enrolled words of the new script stand where those of the old one were put, an event is
enrolled in the one exactly when it was in the other. -/
theorem enrolled_rebuiltIn_iff {script : Bytes}
    (again : Transcript script (rebuiltEvents data lines events))
    (same : ∀ address,
      address ∈ (((Placement.ofLines lines events).map
          (Placement.reversedIn data lines events)).filterMap (Placement.site? script)).map
            JumpSite.sourceAddress ↔
        address ∈ ((Placement.ofLines lines events).filterMap (Placement.site? data)).map
          JumpSite.outputAddress)
    (member : p ∈ Placement.ofLines lines events) :
    (∃ moved, (p.rebuiltIn data lines events).enrolled? script = some moved) ↔
      ∃ word, p.old.enrolled? data = some word := by
  have there := same (p.target + 1)
  rw [mem_map_sites_iff, mem_map_sites_iff] at there
  constructor
  · rintro ⟨moved, enrolled⟩
    obtain ⟨q, placed, word, found, target⟩ :=
      there.mp ⟨_, List.mem_map_of_mem member, moved, enrolled, rfl⟩
    rw [eq_of_target_eq again member placed (Nat.succ.inj target).symm]
    exact ⟨word, found⟩
  · rintro ⟨word, enrolled⟩
    obtain ⟨r, reversed, moved, found, source⟩ := there.mpr ⟨p, member, word, enrolled, rfl⟩
    obtain ⟨q, placed, rfl⟩ := List.mem_map.mp reversed
    rw [eq_of_target_eq again member placed (Nat.succ.inj source).symm]
    exact ⟨moved, found⟩

/-- Every unit of a script has a placement that starts it. -/
theorem exists_placement_of_command {commands : List Command} {command : Command}
    (transcript : Transcript data (commands.flatMap Command.events)) (lines : List Bytes)
    (member : command ∈ commands) :
    ∃ unit ∈ Placement.ofLines lines (commands.flatMap Command.events),
      unit.old.startsUnit = true ∧ unit.source = command.address := by
  obtain ⟨before, after, rfl⟩ := List.append_of_mem member
  obtain ⟨first, more, hfirst, starts, haddress⟩ := command.exists_events_eq_cons
  have placed := placementAt_mem lines (before.flatMap Command.events) first
    (more ++ after.flatMap Command.events)
  have split : (before ++ command :: after).flatMap Command.events =
      before.flatMap Command.events ++ first :: (more ++ after.flatMap Command.events) := by
    rw [List.flatMap_append, List.flatMap_cons, hfirst, List.cons_append]
  rw [← split] at placed
  obtain ⟨_, _, step⟩ := exists_step_of_mem transcript.trace placed
  exact ⟨_, placed, starts, (step.address_eq starts).symm.trans haddress⟩

/-- An injection is taken back by injecting the old texts into the new script: if every jump that it
enrolled goes to a unit, and the second injection enrols the words that stand where the first one
has put those it enrolled, and no others, then the second one succeeds and gives the old script. -/
theorem inject_undone {commands : List Command} {out : Injection}
    (decoded : decode data = .ok commands) (injected : inject data lines = .ok out)
    (accepted : ∀ unit new, (unit, new) ∈ replacements data lines → unit.Accepts new)
    (restored : (textUnits (NovelScript.events data)).map TextUnit.text <+:
      originals.map Line.replacement)
    (aimed : ∀ site ∈ out.sites, ∃ command ∈ commands, site.target.toInt = command.address)
    (same : ∀ address,
      address ∈ (Substitution.run out.script originals).state.sites.map JumpSite.sourceAddress ↔
        address ∈ out.sites.map JumpSite.outputAddress) :
    ∃ back, inject out.script originals = .ok back ∧ back.script = data := by
  obtain ⟨events, transcript, enough, reachable, rfl⟩ := inject_eq_ok_iff.mp injected
  have hevents := transcript.unique (transcript_of_decode decoded)
  subst hevents
  rw [(transcript_iff.mp transcript).1] at restored
  have again : Transcript _ (rebuiltEvents data lines (commands.flatMap Command.events)) :=
    transcript_of_injection transcript enough accepted
  have enoughAgain : _ ≤ originals.length := enough_of_restored transcript enough restored
  rw [Substitution.sites_run again enoughAgain, ofLines_rebuiltEvents transcript restored] at same
  have reversal : Reversal data lines (commands.flatMap Command.events) originals := by
    refine ⟨transcript, enough, reachable, again, restored, ?_, ?_⟩
    · intro p member word enrolled
      obtain ⟨command, inside, aims⟩ := aimed ⟨p.target + 1, p.source + 1, word⟩
        (List.mem_filterMap.mpr ⟨p, member, Option.map_eq_some_iff.mpr ⟨word, enrolled, rfl⟩⟩)
      obtain ⟨unit, placed, starts, source⟩ := exists_placement_of_command transcript lines inside
      exact ⟨unit, placed, starts, by rw [aims, source]⟩
    · intro p member
      exact enrolled_rebuiltIn_iff again same member
  exact ⟨_, inject_of_reachable again enoughAgain reversal.reachable_again, reversal.script_eq⟩

/-- A run that gets shorter and an empty string that gets longer, in front of the terminator that a
jump goes to. -/
theorem inject_undone_over_texts :
    ∃ out back,
      inject [0x61, 0x62, 0x1B, 0, 0, 1, 1, 18, 0, 0, 0, 4, 0, 0, 0, 0, 0xFF, 0xFF, 0x1A]
          [[0x63], [0x64, 0x65]] = .ok out ∧
        out.script =
          [0x63, 0x1B, 0, 0, 1, 1, 19, 0, 0, 0, 4, 2, 0, 0, 0, 0x64, 0x65, 0xFF, 0xFF, 0x1A] ∧
        out.sites = [⟨6, 7, 18⟩] ∧
        inject out.script [[0x61, 0x62], []] = .ok back ∧
        back.script =
          [0x61, 0x62, 0x1B, 0, 0, 1, 1, 18, 0, 0, 0, 4, 0, 0, 0, 0, 0xFF, 0xFF, 0x1A] := by
  have decoded :
      decode [0x61, 0x62, 0x1B, 0, 0, 1, 1, 18, 0, 0, 0, 4, 0, 0, 0, 0, 0xFF, 0xFF, 0x1A] =
        .ok [.text ⟨0, [0x61, 0x62]⟩,
          .instruction ⟨⟨2, 0⟩, [⟨⟨5, 1, 1⟩, [⟨1, 6, .int32 18⟩, ⟨4, 11, .string []⟩]⟩], 18⟩,
          .terminator 18] := by
    decide +kernel
  have injected :
      inject [0x61, 0x62, 0x1B, 0, 0, 1, 1, 18, 0, 0, 0, 4, 0, 0, 0, 0, 0xFF, 0xFF, 0x1A]
          [[0x63], [0x64, 0x65]] =
        .ok
          { script :=
              [0x63, 0x1B, 0, 0, 1, 1, 19, 0, 0, 0, 4, 2, 0, 0, 0, 0x64, 0x65, 0xFF, 0xFF, 0x1A]
            ledger := ⟨[⟨0, 2, 1⟩, ⟨16, 0, 2⟩]⟩
            sites := [⟨6, 7, 18⟩]
            warnings := [] } := by
    decide +kernel
  have replaced :
      replacements
          [0x61, 0x62, 0x1B, 0, 0, 1, 1, 18, 0, 0, 0, 4, 0, 0, 0, 0, 0xFF, 0xFF, 0x1A]
          [[0x63], [0x64, 0x65]] =
        [(.run ⟨0, [0x61, 0x62]⟩, [0x63]), (.string ⟨4, 11, .string []⟩ [], [0x64, 0x65])] := by
    decide +kernel
  have accepted : ∀ unit new,
      (unit, new) ∈ replacements
          [0x61, 0x62, 0x1B, 0, 0, 1, 1, 18, 0, 0, 0, 4, 0, 0, 0, 0, 0xFF, 0xFF, 0x1A]
          [[0x63], [0x64, 0x65]] →
        unit.Accepts new := by
    intro unit new hmem
    rw [replaced] at hmem
    simp only [List.mem_cons, Prod.mk.injEq, List.not_mem_nil, or_false] at hmem
    rcases hmem with ⟨rfl, rfl⟩ | ⟨rfl, rfl⟩
    · exact ⟨by decide, by decide +kernel⟩
    · simp [TextUnit.Accepts]
  have enrolled :
      (Substitution.run
          [0x63, 0x1B, 0, 0, 1, 1, 19, 0, 0, 0, 4, 2, 0, 0, 0, 0x64, 0x65, 0xFF, 0xFF, 0x1A]
          [[0x61, 0x62], []]).state.sites.map JumpSite.sourceAddress = [6] := by
    decide +kernel
  have restored :
      (textUnits (events
          [0x61, 0x62, 0x1B, 0, 0, 1, 1, 18, 0, 0, 0, 4, 0, 0, 0, 0, 0xFF, 0xFF, 0x1A])).map
            TextUnit.text <+:
        [[0x61, 0x62], []].map Line.replacement := by
    decide +kernel
  have aimed : ∀ site ∈ [JumpSite.mk 6 7 18], ∃ command ∈
      [Command.text ⟨0, [0x61, 0x62]⟩,
        .instruction ⟨⟨2, 0⟩, [⟨⟨5, 1, 1⟩, [⟨1, 6, .int32 18⟩, ⟨4, 11, .string []⟩]⟩], 18⟩,
        .terminator 18], site.target.toInt = command.address := by
    decide
  obtain ⟨back, undone, same⟩ := inject_undone decoded injected accepted restored aimed (by
    intro address
    rw [enrolled]
    rfl)
  exact ⟨_, back, injected, rfl, rfl, undone, same⟩

end NovelScript
