import NovelScript.Proofs.Counts
import NovelScript.Proofs.TextPlausibility
import NovelScript.Proofs.WellFormed

/-!
# Distances in 32 bits

A distance is added to the end of its operand in 32 bits, so a target is the exact sum up to a
multiple of 2³² (`toNat_add_ofNat`). A sum in front of the script comes out in the upper half of the
32-bit addresses. A script of at most 2 GiB has no bytes there, and no operand of it ends so far in
that a sum could pass 2³²: its own addresses come out of exact sums only
(`toNat_add_ofNat_eq_iff`). A longer script has bytes there, and a distance in front of it can reach
them (`relativeTarget?_of_neg`).

The operands of a decoded script end inside it (`Operand.finish_le_of_decode`), so the relative
jumps of any such script up to that size are those of exact sums.
-/

set_option autoImplicit false

namespace NovelScript

variable {data : Bytes} {word : BitVec 32} {finish target : Nat}

/-! ## Sums that wrap around -/

/-- In 32 bits the sum is the remainder of the exact one. -/
theorem toNat_add_ofNat (word : BitVec 32) (finish : Nat) :
    ((word + BitVec.ofNat 32 finish).toNat : Int) = (word.toInt + finish) % 0x100000000 := by
  have sum : word + BitVec.ofNat 32 finish = BitVec.ofInt 32 (word.toInt + finish) := by
    rw [BitVec.ofInt_add, BitVec.ofInt_toInt, BitVec.ofInt_natCast]
  rw [sum, BitVec.toNat_ofInt]
  exact Int.toNat_of_nonneg (Int.emod_nonneg _ (by decide))

/-- An address of a script of at most 2 GiB comes out only if it is the exact sum. -/
theorem toNat_add_ofNat_eq_iff (short : data.length ≤ 0x80000000) (inside : finish ≤ data.length)
    (real : target < data.length) :
    (word + BitVec.ofNat 32 finish).toNat = target ↔ word.toInt + finish = target := by
  have remainder := toNat_add_ofNat word finish
  have low : -0x80000000 ≤ word.toInt := word.le_toInt
  have high : word.toInt < 0x80000000 := word.toInt_lt
  -- The exact sum is below 2³², and a negative one is at least -2³¹, so its remainder is at least
  -- 2³¹ and no address of the script.
  omega

/-- Where no address of the script is the exact sum, none comes out. -/
theorem length_le_toNat_add_ofNat (short : data.length ≤ 0x80000000)
    (inside : finish ≤ data.length)
    (outside : word.toInt + finish < 0 ∨ data.length ≤ word.toInt + finish) :
    data.length ≤ (word + BitVec.ofNat 32 finish).toNat := by
  by_contra real
  have sum := (toNat_add_ofNat_eq_iff short inside (Nat.not_le.mp real)).mp rfl
  omega

/-! ## Relative targets -/

/-- A distance goes to the wrapped sum if that is a plausible target. -/
theorem relativeTarget?_eq_some_iff :
    relativeTarget? data word finish = some target ↔
      (word + BitVec.ofNat 32 finish).toNat = target ∧ isPlausibleTarget data target = true := by
  unfold relativeTarget?
  constructor
  · intro found
    obtain ⟨likely, sum⟩ := Option.ite_none_right_eq_some.mp found
    obtain rfl := Option.some.inj sum
    exact ⟨rfl, likely⟩
  · rintro ⟨rfl, likely⟩
    exact if_pos likely

/-- Whole turns of the 32-bit range in front of the end of an operand play no part. -/
theorem relativeTarget?_congr {other : Nat} (same : finish % 0x100000000 = other % 0x100000000) :
    relativeTarget? data word finish = relativeTarget? data word other := by
  have ends : BitVec.ofNat 32 finish = BitVec.ofNat 32 other := by
    apply BitVec.eq_of_toNat_eq
    rw [BitVec.toNat_ofNat, BitVec.toNat_ofNat, same]
  rw [relativeTarget?, ends, relativeTarget?]

/-- In a script of any size, a distance that leads in front of it is taken for one that is 2³²
larger. -/
theorem relativeTarget?_of_neg (negative : word.toInt + finish < 0) :
    relativeTarget? data word finish = some target ↔
      word.toInt + finish + 0x100000000 = target ∧ isPlausibleTarget data target = true := by
  have remainder := toNat_add_ofNat word finish
  have low : -0x80000000 ≤ word.toInt := word.le_toInt
  rw [relativeTarget?_eq_some_iff]
  refine and_congr_left fun _ => ?_
  omega

/-- In a script of at most 2 GiB a distance goes where the exact sum says, if that is a plausible
target. -/
theorem relativeTarget?_of_short (short : data.length ≤ 0x80000000)
    (inside : finish ≤ data.length) :
    relativeTarget? data word finish = some target ↔
      word.toInt + finish = target ∧ target < data.length ∧
        isPlausibleTarget data target = true := by
  rw [relativeTarget?_eq_some_iff]
  constructor
  · rintro ⟨wrapped, likely⟩
    have real := lt_length_of_isPlausibleTarget likely
    exact ⟨(toNat_add_ofNat_eq_iff short inside real).mp wrapped, real, likely⟩
  · rintro ⟨sum, real, likely⟩
    exact ⟨(toNat_add_ofNat_eq_iff short inside real).mpr sum, likely⟩

/-- In a script of at most 2 GiB a distance goes where the exact sum says, if that is a plausible
target, and nowhere if the sum is no address of the script. In a script of any size the end of the
operand counts modulo 2³² only. -/
theorem relativeTarget_of_short_script (data : Bytes) :
    (data.length ≤ 0x80000000 → ∀ (word : BitVec 32) (finish : Nat), finish ≤ data.length →
      (∀ target : Nat, relativeTarget? data word finish = some target ↔
        word.toInt + finish = target ∧ target < data.length ∧
          isPlausibleTarget data target = true) ∧
      (word.toInt + finish < 0 ∨ data.length ≤ word.toInt + finish →
        data.length ≤ (word + BitVec.ofNat 32 finish).toNat ∧
          relativeTarget? data word finish = none)) ∧
      ∀ (word : BitVec 32) (finish other : Nat), finish % 0x100000000 = other % 0x100000000 →
        relativeTarget? data word finish = relativeTarget? data word other := by
  refine ⟨?_, fun word finish other same => relativeTarget?_congr same⟩
  intro short word finish inside
  refine ⟨fun target => relativeTarget?_of_short short inside, fun outside => ?_⟩
  refine ⟨length_le_toNat_add_ofNat short inside outside, ?_⟩
  rw [Option.eq_none_iff_forall_ne_some]
  intro target found
  obtain ⟨sum, real, -⟩ := (relativeTarget?_of_short short inside).mp found
  omega

/-- The distance from the end of six bytes back to the first is found, also from an end that is 2³²
further on. One byte more, the least distance and the greatest all lead out of the script. -/
theorem relativeTarget_of_short_script_backwards :
    let data : Bytes := [0x1B, 0, 0, 0, 0, 0]
    data.length ≤ 0x80000000 ∧ relativeTarget? data (-6) 6 = some 0 ∧
      relativeTarget? data (-6) (0x100000000 + 6) = some 0 ∧ relativeTarget? data (-7) 6 = none ∧
      relativeTarget? data (BitVec.intMin 32) 6 = none ∧
      relativeTarget? data (BitVec.intMax 32) 6 = none := by
  intro data
  obtain ⟨sums, turns⟩ := relativeTarget_of_short_script data
  have back : relativeTarget? data (-6) 6 = some 0 :=
    ((sums (by decide) (-6) 6 (by decide)).1 0).mpr ⟨by decide, by decide, by decide⟩
  have out : ∀ word : BitVec 32, word.toInt + 6 < 0 ∨ 6 ≤ word.toInt + 6 →
      relativeTarget? data word 6 = none := by
    intro word outside
    exact ((sums (by decide) word 6 (by decide)).2 outside).2
  exact ⟨by decide, back, (turns (-6) (0x100000000 + 6) 6 (by decide)).trans back,
    out (-7) (by decide), out (BitVec.intMin 32) (by decide), out (BitVec.intMax 32) (by decide)⟩

/-! ## Operands of a script -/

namespace Operand

variable {commands : List Command} {operand : Operand}

/-- An operand ends inside its script: its tag stands there, and so does its value. -/
theorem finish_le_of_decode (decoded : decode data = .ok commands)
    (member : operand ∈ commands.flatMap Command.operands) : operand.finish ≤ data.length := by
  obtain ⟨formed, rfl⟩ := transcript_iff_wellFormed.mp (transcript_of_decode decoded)
  obtain ⟨tag, value⟩ := formed.operand_stands member
  have inside : operand.address < (serialize commands).length :=
    (List.getElem?_eq_some_iff.mp tag).1
  have width := congrArg List.length value
  rw [List.length_take, List.length_drop, Value.length_bytes] at width
  rw [finish, valueAddress] at width
  rw [finish]
  omega

/-- The relative jumps of a script of at most 2 GiB are the jump-shaped operands whose exact sum is
a plausible target. -/
theorem relativeTarget?_of_decode (decoded : decode data = .ok commands)
    (short : data.length ≤ 0x80000000) (member : operand ∈ commands.flatMap Command.operands) :
    operand.relativeTarget? data = some target ↔
      ∃ word, operand.value.jumpWord? = some word ∧ word.toInt + operand.finish = target ∧
        target < data.length ∧ isPlausibleTarget data target = true := by
  have inside := finish_le_of_decode decoded member
  rw [relativeTarget?, Option.bind_eq_some_iff]
  exact exists_congr fun word => and_congr_right fun _ => relativeTarget?_of_short short inside

end Operand

end NovelScript
