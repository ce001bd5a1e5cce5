import Dlx.Text.Decimal

/-!
# Budgets

The two numbers that stop a program that runs away: how many lines one run may interpret, and how
many times it may jump from one given line to another given line. Both must be positive. Single
steps are bounded by neither.
-/

namespace Dlx

/-- How much one run may do. -/
structure Budget where
  maxSteps : UInt32
  maxJumps : UInt32
  deriving DecidableEq, Repr

/-- The ways in which a budget is useless. -/
inductive BudgetFlaw where
  | noSteps
  | noJumps
  deriving DecidableEq, Repr

/-- The wording of a flaw. -/
def BudgetFlaw.message : BudgetFlaw → String
  | .noSteps => "max_steps must be greater than 0"
  | .noJumps => "max_jumps must be greater than 0"

namespace Budget

/-- The budget of a machine for which none is given. -/
def standard : Budget :=
  ⟨10000, 1000⟩

/-- Accepts the budgets that are positive in both numbers; the steps are looked at first. -/
def check (b : Budget) : Except BudgetFlaw Unit :=
  if b.maxSteps = 0 then .error .noSteps
  else if b.maxJumps = 0 then .error .noJumps
  else .ok ()

/-- A budget that has been checked. -/
def checked (b : Budget) : Except BudgetFlaw Budget :=
  b.check.map fun _ => b

/-- The budget with another number of steps. -/
def withMaxSteps (b : Budget) (n : UInt32) : Except BudgetFlaw Budget :=
  checked { b with maxSteps := n }

/-- The budget with another number of jumps. -/
def withMaxJumps (b : Budget) (n : UInt32) : Except BudgetFlaw Budget :=
  checked { b with maxJumps := n }

/-- The text of a budget. -/
def text (b : Budget) : String :=
  "Limits \x7b max_steps: " ++ Decimal.ofNat b.maxSteps.toNat ++ ", max_jumps: " ++
    Decimal.ofNat b.maxJumps.toNat ++ " \x7d"

/-- A budget passes exactly if both numbers are positive. -/
theorem check_eq_ok_iff (b : Budget) : b.check = .ok () ↔ b.maxSteps ≠ 0 ∧ b.maxJumps ≠ 0 := by
  rw [check]
  split
  · simp_all
  · split <;> simp_all

/-- A budget that passes allows a step and a jump. -/
theorem pos_of_check {b : Budget} (h : b.check = .ok ()) :
    0 < b.maxSteps.toNat ∧ 0 < b.maxJumps.toNat := by
  obtain ⟨hsteps, hjumps⟩ := b.check_eq_ok_iff.1 h
  constructor
  · exact Nat.pos_of_ne_zero fun hzero => hsteps (UInt32.toNat_inj.1 hzero)
  · exact Nat.pos_of_ne_zero fun hzero => hjumps (UInt32.toNat_inj.1 hzero)

end Budget

end Dlx
