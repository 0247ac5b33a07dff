import NovelScript.Proofs.Substitution

/-!
# How many lines an injection takes

An injection takes one line for each text that the walk of the bytes meets. Three things can go
wrong on the way, and the number of lines settles which of them is told: lines that run out are
noticed at the first text without one, even when the bytes turn out to be no script further on; a
fault of the bytes is told when every text before it has its line; and only a whole script with
enough lines gets as far as relocation.

Lines behind the last text change nothing but the warnings (`inject_of_line_count`).
-/

set_option autoImplicit false

namespace NovelScript

/-- What an injection leads to apart from its warnings: the script, the ledger and the sites. -/
def Injection.outcome (out : Injection) : Bytes × Ledger × List JumpSite :=
  (out.script, out.ledger, out.sites)

/-- Only as many texts are placed as there are text units. -/
theorem placements_take (source target : Nat) (events : List Event) (texts : List Bytes) :
    placements source target events (texts.take (textUnits events).length) =
      placements source target events texts := by
  induction events generalizing source target texts with
  | nil => rfl
  | cons event events ih =>
    rw [textUnits_cons, placements, placements]
    cases has : event.textUnit? with
    | none =>
      rw [Event.retext_of_none has, Event.retext_of_none has]
      simp [ih]
    | some unit =>
      cases texts with
      | nil => simp
      | cons text texts =>
        -- The event takes the first text, and leaves the others to those behind it.
        have first : (text :: texts).take ([unit] ++ textUnits events).length =
            text :: texts.take (textUnits events).length := by simp
        simp only [Option.toList_some, first, Event.retext, List.length_singleton, List.drop_one,
          List.tail_cons, ih]

/-- Lines beyond the text units have no part in an injection. -/
theorem ofLines_take (lines : List Bytes) (events : List Event) :
    Placement.ofLines (lines.take (textUnits events).length) events =
      Placement.ofLines lines events := by
  unfold Placement.ofLines
  rw [List.map_take]
  apply placements_take

section Relocation

variable {lines : List Bytes} {s : Substitution}

/-- What comes out of relocation does not depend on the lines, but for the warnings. -/
theorem Substitution.outcome_relocated (lines others : List Bytes) (s : Substitution) :
    (s.relocated lines).map Injection.outcome = (s.relocated others).map Injection.outcome := by
  unfold Substitution.relocated
  split <;> rfl

/-- Relocation fails at a jump that is out of range, or succeeds and warns of the lines that are
left. -/
theorem Substitution.relocated_cases (lines : List Bytes) (s : Substitution) :
    (∃ site value, s.relocated lines = .error (.jumpOutOfRange site value)) ∨
      ∃ out, s.relocated lines = .ok out ∧
        out.warnings = surplusWarnings (lines.length - s.consumed) := by
  unfold Substitution.relocated
  split
  case h_1 problem failed =>
    obtain ⟨_, site, _, -, -, -, rfl⟩ := relocate_snd_eq_some_iff.mp (congrArg Prod.snd failed)
    exact .inl ⟨_, _, rfl⟩
  case h_2 => exact .inr ⟨_, rfl, rfl⟩

end Relocation

/-- There is one warning if lines are left, and none if they are used up. -/
theorem surplusWarnings_sub {count length : Nat} (enough : count ≤ length) :
    surplusWarnings (length - count) =
      if length = count then [] else [.surplusLines (length - count)] := by
  unfold surplusWarnings
  have same : length - count = 0 ↔ length = count := by omega
  simp only [same]

/-- The outcome of an injection by the number of its lines. With fewer lines than texts it names the
first text that has none; with enough lines it names the fault of the bytes, if they have one; and
otherwise it succeeds or a jump leaves the range, with an outcome that the lines behind the last
text have no part in, except that a success warns of them. -/
theorem inject_of_line_count (data : Bytes) (lines : List Bytes) :
    let addresses := (textUnits (events data)).map TextUnit.address
    (∀ short : lines.length < addresses.length,
      inject data lines = .error (.linesExhausted addresses[lines.length] lines.length)) ∧
      (addresses.length ≤ lines.length →
        (∀ fault, fault? data = some fault → inject data lines = .error (.fault fault)) ∧
          (fault? data = none →
            (inject data lines).map Injection.outcome =
                (inject data (lines.take addresses.length)).map Injection.outcome ∧
              ((∃ site value, inject data lines = .error (.jumpOutOfRange site value)) ∨
                ∃ out, inject data lines = .ok out ∧
                  out.warnings =
                    if lines.length = addresses.length then []
                    else [.surplusLines (lines.length - addresses.length)]))) := by
  intro addresses
  have count : addresses.length = (textUnits (events data)).length := List.length_map _
  constructor
  · intro short
    have met := List.getElem?_eq_getElem (count ▸ short)
    obtain ⟨last, stopped⟩ := Substitution.run_of_shortage met
    simp [inject, stopped, Injection.ofWalk, addresses]
  · intro enough
    rw [count] at enough ⊢
    constructor
    · intro fault found
      obtain ⟨last, stopped⟩ := Substitution.run_of_fault found enough
      simp [inject, stopped, Injection.ofWalk]
    · intro sound
      have transcript : Transcript data (events data) := transcript_iff.mpr ⟨rfl, sound⟩
      have taken : (textUnits (events data)).length ≤
          (lines.take (textUnits (events data)).length).length := by
        rw [List.length_take]
        omega
      constructor
      · rw [inject_eq_of_transcript transcript enough, inject_eq_of_transcript transcript taken,
          emitted, emitted, ofLines_take]
        apply Substitution.outcome_relocated
      · rw [inject_eq_of_transcript transcript enough, ← surplusWarnings_sub enough]
        apply Substitution.relocated_cases

/-- A string operand in front of a byte that starts no unit: without a line the string is named,
with one the byte is. Without that byte, a second line changes nothing but the warnings. -/
theorem inject_of_line_count_before_fault :
    inject [0x1B, 0, 0, 1, 4, 0, 0, 0, 0, 0xFF, 0xFF, 0] [] = .error (.linesExhausted 4 0) ∧
      inject [0x1B, 0, 0, 1, 4, 0, 0, 0, 0, 0xFF, 0xFF, 0] [[0x61]] =
        .error (.fault (.unknownUnitTag 0 11)) ∧
      (inject [0x1B, 0, 0, 1, 4, 0, 0, 0, 0, 0xFF, 0xFF] [[0x61], [0x62]]).map Injection.outcome =
        (inject [0x1B, 0, 0, 1, 4, 0, 0, 0, 0, 0xFF, 0xFF] [[0x61]]).map Injection.outcome := by
  have faulty :
      (textUnits (events [0x1B, 0, 0, 1, 4, 0, 0, 0, 0, 0xFF, 0xFF, 0])).map TextUnit.address =
        [4] := by
    decide +kernel
  have whole :
      (textUnits (events [0x1B, 0, 0, 1, 4, 0, 0, 0, 0, 0xFF, 0xFF])).map TextUnit.address =
        [4] := by
    decide +kernel
  obtain ⟨exhausted, -⟩ := inject_of_line_count [0x1B, 0, 0, 1, 4, 0, 0, 0, 0, 0xFF, 0xFF, 0] []
  obtain ⟨-, enough⟩ :=
    inject_of_line_count [0x1B, 0, 0, 1, 4, 0, 0, 0, 0, 0xFF, 0xFF, 0] [[0x61]]
  obtain ⟨-, more⟩ :=
    inject_of_line_count [0x1B, 0, 0, 1, 4, 0, 0, 0, 0, 0xFF, 0xFF] [[0x61], [0x62]]
  simp only [faulty, whole] at exhausted enough more
  refine ⟨exhausted (by decide), (enough (by decide)).1 _ (by decide +kernel), ?_⟩
  exact ((more (by decide)).2 (by decide +kernel)).1

end NovelScript
