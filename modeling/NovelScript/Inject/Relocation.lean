import NovelScript.Bytes.LittleEndian
import NovelScript.Inject.InjectError
import NovelScript.Ledger

/-!
# Relocating jumps

When texts have changed their lengths, a jump has to follow its target. Each jump site is corrected
to its old target moved by the changes in front of it. Sites are corrected in order; a target that
leaves the 32-bit range stops the pass, and the sites before it stay corrected.

A target is compared with addresses as an unsigned 64-bit number, so a negative one lies behind
every text.
-/

set_option autoImplicit false

namespace NovelScript

/-- A jump operand that has to follow its target. -/
structure JumpSite where
  /-- The address of the value in the new script. -/
  outputAddress : Nat
  /-- The address of the value in the old script. -/
  sourceAddress : Nat
  /-- The target in the old script. -/
  target : BitVec 32
  deriving DecidableEq

namespace JumpSite

/-- The target as an address, which is unsigned. -/
def address (site : JumpSite) : Nat :=
  (site.target.signExtend 64).toNat

/-- The target in the new script. -/
def corrected (ledger : Ledger) (site : JumpSite) : Int :=
  site.target.toInt + ledger.deltaBefore site.address

end JumpSite

/-- Writes bytes over the ones that stand at an address. -/
def overwrite (script : Bytes) (address : Nat) (bytes : Bytes) : Bytes :=
  script.take address ++ bytes ++ script.drop (address + bytes.length)

/-- Corrects jump sites in order, up to the first that leaves the range. -/
def relocate (ledger : Ledger) : List JumpSite → Bytes → Bytes × Option InjectError
  | [], script => (script, none)
  | site :: sites, script =>
    let value := site.corrected ledger
    if 0 ≤ value ∧ value < 0x100000000 then
      relocate ledger sites
        (overwrite script site.outputAddress (LittleEndian.encode 4 value.toNat))
    else
      (script, some (.jumpOutOfRange site.outputAddress value))

end NovelScript
