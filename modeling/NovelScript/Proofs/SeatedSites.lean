import NovelScript.Proofs.LedgerRecords
import NovelScript.Proofs.SubstitutionInvariant

/-!
# Relocating any sites

A relocation is a loop over sites that writes a word for each and may stop on the way. Here the
sites are any whose words lie in the script, apart from each other, and hold their old targets
(`Seated`); that they come from a substitution does not matter, and neither do the ledger and the
order of the sites.

What a relocation writes is described by the script that results (`Corrected`): corrected words at
the sites and the old bytes everywhere else. No other script fits that description
(`Corrected.unique`), and the order of the sites plays no part in it. A relocation that stops has
written what a relocation of the sites in front of the stop writes.
-/

set_option autoImplicit false

namespace NovelScript

/-- What the words at some sites are corrected to in a script, and what stays as it was. -/
structure Corrected (ledger : Ledger) (sites : List JumpSite) (script out : Bytes) : Prop where
  /-- The script is as long as before. -/
  length : out.length = script.length
  /-- Every word is the corrected target. -/
  words : ∀ site ∈ sites, (out.drop site.outputAddress).take 4 =
    LittleEndian.encode 4 (site.corrected ledger).toNat
  /-- Every byte outside the words is the old one. -/
  others : ∀ index, (∀ site ∈ sites,
    index < site.outputAddress ∨ site.outputAddress + 4 ≤ index) → out[index]? = script[index]?

variable {ledger : Ledger} {script : Bytes} {sites : List JumpSite}

/-! ## Targets as addresses -/

namespace JumpSite

variable {site : JumpSite}

/-- A negative target is the address that its sign extension to 64 bits spells. -/
theorem address_of_neg (negative : site.target.toInt < 0) :
    site.address = (0x10000000000000000 + site.target.toInt).toNat := by
  have extended : (site.target.signExtend 64).toInt = site.target.toInt :=
    BitVec.toInt_signExtend_of_le (by decide)
  have low := site.target.le_toInt
  rw [BitVec.toInt_eq_toNat_cond] at extended
  rw [address]
  split at extended <;> omega

/-- Extended to 64 bits, even the least target lies behind every address of a script. -/
theorem corrected_of_neg (negative : site.target.toInt < 0)
    (low : ∀ sentence ∈ ledger.sentences, sentence.address < 0xFFFFFFFF80000000) :
    site.corrected ledger = site.target.toInt + ledger.totalDelta := by
  have least := site.target.le_toInt
  rw [corrected, address_of_neg negative, Ledger.deltaBefore_eq_totalDelta]
  intro sentence recorded
  have := low sentence recorded
  omega

end JumpSite

/-! ## Bytes of a relocated script -/

/-- What was written into a window is found there. -/
theorem slot_overwrite (bytes : Bytes) {address : Nat} (inside : address ≤ script.length) :
    ((overwrite script address bytes).drop address).take bytes.length = bytes := by
  have front : (script.take address).length = address := by
    rw [List.length_take]
    omega
  rw [overwrite, List.append_assoc, List.drop_left' front, List.take_left]

/-- There is only one script with all slots corrected and all else as it was. -/
theorem Corrected.unique {out out' : Bytes} (corrected : Corrected ledger sites script out)
    (corrected' : Corrected ledger sites script out') : out = out' := by
  apply List.ext_getElem?
  intro index
  -- A byte of a word is settled by the word, and any other byte by the old script.
  by_cases covered : ∃ site ∈ sites,
      site.outputAddress ≤ index ∧ index < site.outputAddress + 4
  · obtain ⟨site, member, low, high⟩ := covered
    have same := (corrected.words site member).trans (corrected'.words site member).symm
    have byte := congrArg (·[index - site.outputAddress]?) same
    simp only [List.getElem?_take, List.getElem?_drop, Nat.add_sub_cancel' low] at byte
    rwa [if_pos (by omega), if_pos (by omega)] at byte
  · have outside : ∀ site ∈ sites,
        index < site.outputAddress ∨ site.outputAddress + 4 ≤ index := by
      intro site member
      by_contra within
      exact covered ⟨site, member, by omega, by omega⟩
    rw [corrected.others index outside, corrected'.others index outside]

/-- For a corrected script the order of the sites does not matter, nor how often one is named. -/
theorem Corrected.of_mem_iff {others : List JumpSite} {out : Bytes}
    (same : ∀ site, site ∈ others ↔ site ∈ sites) (corrected : Corrected ledger others script out) :
    Corrected ledger sites script out := by
  constructor
  case length => exact corrected.length
  case words => exact fun site member => corrected.words site ((same site).mpr member)
  case others =>
    intro index outside
    exact corrected.others index fun site member => outside site ((same site).mp member)

/-- Words that lie apart do not disturb each other, so each is what was written for its site. -/
theorem corrected_relocate
    (inside : ∀ site ∈ sites, site.outputAddress + 4 ≤ script.length)
    (apart : sites.Pairwise fun site other =>
      site.outputAddress + 4 ≤ other.outputAddress ∨ other.outputAddress + 4 ≤ site.outputAddress)
    (fits : ∀ site ∈ sites, IsWord (site.corrected ledger)) :
    Corrected ledger sites script (relocate ledger sites script).1 := by
  induction sites generalizing script with
  | nil => exact ⟨rfl, by simp, fun _ _ => rfl⟩
  | cons site sites ih =>
    rw [List.forall_mem_cons] at inside fits
    obtain ⟨here, apart⟩ := List.pairwise_cons.mp apart
    have width := LittleEndian.length_encode 4 (site.corrected ledger).toNat
    have slot : site.outputAddress +
        (LittleEndian.encode 4 (site.corrected ledger).toNat).length ≤ script.length :=
      width ▸ inside.1
    have insideNext : ∀ other ∈ sites, other.outputAddress + 4 ≤
        (overwrite script site.outputAddress
          (LittleEndian.encode 4 (site.corrected ledger).toNat)).length := by
      rw [length_overwrite slot]
      exact inside.2
    have rest := ih insideNext apart fits.2
    rw [relocate_cons_of_isWord fits.1]
    constructor
    case length => rw [rest.length, length_overwrite slot]
    case words =>
      refine List.forall_mem_cons.mpr ⟨?_, rest.words⟩
      have written := slot_overwrite (LittleEndian.encode 4 (site.corrected ledger).toNat)
        (Nat.le_of_add_right_le inside.1)
      rw [width] at written
      -- The sites that follow lie apart from this one, so what was written here is still there.
      rw [slot_relocate_of_apart insideNext here, written]
    case others =>
      intro index outside
      rw [List.forall_mem_cons] at outside
      rw [rest.others index outside.2,
        getElem?_overwrite_of_outside slot (width ▸ outside.1)]

/-! ## Stopping on the way -/

/-- Behind sites that fit, a relocation goes on from the script that they leave. -/
theorem relocate_append {earlier : List JumpSite}
    (fits : ∀ site ∈ earlier, IsWord (site.corrected ledger)) (later : List JumpSite) :
    relocate ledger (earlier ++ later) script =
      relocate ledger later (relocate ledger earlier script).1 := by
  induction earlier generalizing script with
  | nil => rfl
  | cons site earlier ih =>
    rw [List.forall_mem_cons] at fits
    rw [List.cons_append, relocate_cons_of_isWord fits.1, relocate_cons_of_isWord fits.1,
      ih fits.2]

/-- Whether sites are seated does not depend on their order. -/
theorem Seated.of_perm {others : List JumpSite} (seated : Seated script sites)
    (permuted : others.Perm sites) : Seated script others := by
  constructor
  case inside => exact fun site member => seated.inside site (permuted.mem_iff.mp member)
  case apart => exact (permuted.pairwise_iff Or.symm).mpr seated.apart
  case holds => exact fun site member => seated.holds site (permuted.mem_iff.mp member)

/-- What relocating some sites in a script by a ledger comes to. -/
structure RelocationOf (ledger : Ledger) (sites : List JumpSite) (script : Bytes) : Prop where
  /-- Every word is found in the script with its old target when its turn comes. -/
  checked : relocate? ledger sites script = some (relocate ledger sites script)
  /-- A target that is an address moves with the texts that start before it. -/
  nonnegative : ∀ site ∈ sites, 0 ≤ site.target.toInt →
    site.corrected ledger = site.target.toInt + ledger.deltaBefore site.target.toNat
  /-- A negative target is taken for the address that it is extended to in 64 bits. All texts of a
  script lie in front of that, so it moves with all of them. -/
  negative : ∀ site ∈ sites, site.target.toInt < 0 →
    site.corrected ledger = site.target.toInt +
        ledger.deltaBefore (0x10000000000000000 + site.target.toInt).toNat ∧
      ((∀ sentence ∈ ledger.sentences, sentence.address < 0xFFFFFFFF80000000) →
        site.corrected ledger = site.target.toInt + ledger.totalDelta)
  /-- It succeeds exactly if every corrected target fits into 32 bits. -/
  succeeds : (relocate ledger sites script).2 = none ↔
    ∀ site ∈ sites, 0 ≤ site.corrected ledger ∧ site.corrected ledger ≤ 0xFFFFFFFF
  /-- It has then corrected every word and nothing else. -/
  corrected : (relocate ledger sites script).2 = none →
    Corrected ledger sites script (relocate ledger sites script).1
  /-- The order of the sites makes no difference to that. -/
  anyOrder : (relocate ledger sites script).2 = none → ∀ others, others.Perm sites →
    relocate ledger others script = relocate ledger sites script
  /-- Otherwise it names the first site that does not fit, has corrected the words in front of it
  and nothing else, and the words from there on hold their old targets. -/
  stops : ∀ problem, (relocate ledger sites script).2 = some problem →
    ∃ earlier site later, sites = earlier ++ site :: later ∧
      (∀ other ∈ earlier, 0 ≤ other.corrected ledger ∧ other.corrected ledger ≤ 0xFFFFFFFF) ∧
      ¬ (0 ≤ site.corrected ledger ∧ site.corrected ledger ≤ 0xFFFFFFFF) ∧
      problem = .jumpOutOfRange site.outputAddress (site.corrected ledger) ∧
      Corrected ledger earlier script (relocate ledger sites script).1 ∧
      ∀ other ∈ site :: later,
        ((relocate ledger sites script).1.drop other.outputAddress).take 4 =
          LittleEndian.encode 4 other.target.toNat

/-- A number fits into a word if it is not negative and has at most 32 bits. -/
theorem isWord_iff {value : Int} : IsWord value ↔ 0 ≤ value ∧ value ≤ 0xFFFFFFFF := by
  unfold IsWord
  omega

/-- If every corrected target fits, relocation corrects all slots and changes nothing else. -/
theorem Seated.corrected (seated : Seated script sites)
    (fits : ∀ site ∈ sites, IsWord (site.corrected ledger)) :
    Corrected ledger sites script (relocate ledger sites script).1 :=
  corrected_relocate seated.inside seated.apart fits

/-- If every corrected target fits, the sites can be relocated in any order. -/
theorem Seated.relocate_perm (seated : Seated script sites)
    (fits : ∀ site ∈ sites, IsWord (site.corrected ledger)) {others : List JumpSite}
    (permuted : others.Perm sites) :
    relocate ledger others script = relocate ledger sites script := by
  have otherFits : ∀ site ∈ others, IsWord (site.corrected ledger) :=
    fun site member => fits site (permuted.mem_iff.mp member)
  have otherCorrected : Corrected ledger sites script (relocate ledger others script).1 :=
    ((seated.of_perm permuted).corrected otherFits).of_mem_iff fun _ => permuted.mem_iff
  apply Prod.ext
  · exact otherCorrected.unique (seated.corrected fits)
  · rw [(relocate_snd_eq_none_iff script).mpr fits, (relocate_snd_eq_none_iff script).mpr otherFits]

/-- Sites that are seated in a script are relocated one by one up to the first that does not fit,
and in any order if all fit. -/
theorem relocation_of_seated (seated : Seated script sites) (ledger : Ledger) :
    RelocationOf ledger sites script := by
  have fitting : (relocate ledger sites script).2 = none ↔
      ∀ site ∈ sites, IsWord (site.corrected ledger) := relocate_snd_eq_none_iff script
  constructor
  case checked =>
    apply Substitution.relocate?_eq seated.inside
    exact fun _ _ _ _ => seated.untouched
  case nonnegative =>
    intro site _ nonneg
    rw [JumpSite.corrected, JumpSite.address_of_nonneg nonneg]
  case negative =>
    intro site _ negative
    refine ⟨?_, JumpSite.corrected_of_neg negative⟩
    rw [JumpSite.corrected, JumpSite.address_of_neg negative]
  case succeeds =>
    simp only [← isWord_iff]
    exact fitting
  case corrected => exact fun ended => seated.corrected (fitting.mp ended)
  case anyOrder =>
    exact fun ended others permuted => seated.relocate_perm (fitting.mp ended) permuted
  case stops =>
    intro problem stopped
    obtain ⟨earlier, site, later, rfl, fits, overflow, named⟩ := relocate_snd_eq_some_iff.mp stopped
    simp only [← isWord_iff]
    rw [relocate_append fits, relocate_cons_of_not_isWord overflow]
    refine ⟨earlier, site, later, rfl, fits, overflow, named, ?_, ?_⟩
    · apply corrected_relocate _ (List.pairwise_append.mp seated.apart).1 fits
      exact fun other before => seated.inside other (List.mem_append_left _ before)
    · exact fun other member => seated.holds_relocate member

/-- A negative target moves with both texts, up to the second byte. The target inside the text that
shrinks goes in front of the script: the site before it in the list is corrected, and the one behind
it, which is at a lower address, is not. -/
theorem relocation_of_seated_to_both_sides :
    let script : Bytes := [0xFE, 0xFF, 0xFF, 0xFF, 20, 0, 0, 0, 3, 0, 0, 0, 0xAA]
    let ledger : Ledger := ⟨[⟨0, 5, 1⟩, ⟨10, 0, 7⟩]⟩
    (Seated script [⟨4, 4, 20⟩, ⟨0, 0, -2⟩] ∧
        relocate ledger [⟨4, 4, 20⟩, ⟨0, 0, -2⟩] script =
          ([1, 0, 0, 0, 23, 0, 0, 0, 3, 0, 0, 0, 0xAA], none) ∧
        relocate ledger [⟨0, 0, -2⟩, ⟨4, 4, 20⟩] script =
          relocate ledger [⟨4, 4, 20⟩, ⟨0, 0, -2⟩] script) ∧
      Seated script [⟨4, 4, 20⟩, ⟨8, 8, 3⟩, ⟨0, 0, -2⟩] ∧
        relocate ledger [⟨4, 4, 20⟩, ⟨8, 8, 3⟩, ⟨0, 0, -2⟩] script =
          ([0xFE, 0xFF, 0xFF, 0xFF, 23, 0, 0, 0, 3, 0, 0, 0, 0xAA],
            some (.jumpOutOfRange 8 (-1))) ∧
        relocate? ledger [⟨4, 4, 20⟩, ⟨8, 8, 3⟩, ⟨0, 0, -2⟩] script =
          some (relocate ledger [⟨4, 4, 20⟩, ⟨8, 8, 3⟩, ⟨0, 0, -2⟩] script) := by
  intro script ledger
  have two : Seated script [⟨4, 4, 20⟩, ⟨0, 0, -2⟩] := ⟨by decide, by decide, by decide⟩
  have three : Seated script [⟨4, 4, 20⟩, ⟨8, 8, 3⟩, ⟨0, 0, -2⟩] :=
    ⟨by decide, by decide, by decide⟩
  have relocated := relocation_of_seated two ledger
  have stopped := relocation_of_seated three ledger
  have ended := relocated.succeeds.mpr (by decide)
  exact ⟨⟨two, by decide, relocated.anyOrder ended _ (.swap _ _ _)⟩, three, by decide,
    stopped.checked⟩

end NovelScript
