import NovelScript.Inject.Substitution

/-!
# Injecting text

Injecting puts lines in place of the texts of a script, in address order, and then relocates the
jumps. Lines left over are no fault, only a warning.
-/

set_option autoImplicit false

namespace NovelScript

/-- Something odd that does not stop an injection. -/
inductive Warning
  /-- There were more lines than texts. -/
  | surplusLines (count : Nat)
  deriving DecidableEq

/-- What is told to the user. -/
def Warning.message : Warning → String
  | surplusLines count => s!"{Numeral.decimal count} translation line(s) left over and ignored"

/-- The outcome of an injection. -/
structure Injection where
  /-- The new script. -/
  script : Bytes
  /-- What was replaced. -/
  ledger : Ledger
  /-- The jumps that were relocated, in address order. -/
  sites : List JumpSite
  /-- What was odd. -/
  warnings : List Warning
  deriving DecidableEq

/-- Warns of lines left over, if there are any. -/
def surplusWarnings (count : Nat) : List Warning :=
  if count = 0 then [] else [.surplusLines count]

/-- Relocates the jumps of a finished substitution. -/
def Substitution.relocated (lines : List Bytes) (s : Substitution) : Except InjectError Injection :=
  match relocate s.ledger s.sites s.out with
  | (_, some problem) => .error problem
  | (script, none) =>
    .ok
      { script
        ledger := s.ledger
        sites := s.sites
        warnings := surplusWarnings (lines.length - s.consumed) }

/-- What the walk of a substitution leads to. -/
def Injection.ofWalk (data : Bytes) (lines : List Bytes)
    (result : WalkResult Substitution Shortage) : Except InjectError Injection :=
  match result.stop with
  | some (.fault fault) => .error (.fault fault)
  | some (.refused shortage) => .error (.linesExhausted shortage.address shortage.consumed)
  | none => (result.state.finish data).relocated lines

/-- Puts lines in place of the texts of a script. -/
def inject (data : Bytes) (lines : List Bytes) : Except InjectError Injection :=
  Injection.ofWalk data lines (Substitution.run data lines)

end NovelScript
