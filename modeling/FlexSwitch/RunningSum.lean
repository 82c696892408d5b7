import Mathlib

/-! The sum of a list that is taken in running, and the sum of all sums on the way. -/

namespace FlexSwitch.RunningSum

open List

/-- One more number: it goes into the sum, and the new sum into the sum of the sums. -/
def add (sums : Nat × Nat) (x : Nat) : Nat × Nat := (sums.1 + x, sums.2 + (sums.1 + x))

/-- The sum of the sums on the way, in which the first number counts most often. -/
def double : List Nat → Nat
  | [] => 0
  | x :: xs => (xs.length + 1) * x + double xs

theorem double_append (xs ys : List Nat) :
    double (xs ++ ys) = double xs + ys.length * xs.sum + double ys := by
  induction xs with
  | nil => simp [double]
  | cons x xs ih =>
    rw [cons_append, double, double, ih, sum_cons, length_append]
    ring

/-- Both sums in closed form, from any sums that the list is added to. -/
theorem foldl_add (sums : Nat × Nat) (xs : List Nat) :
    xs.foldl add sums = (sums.1 + xs.sum, sums.2 + xs.length * sums.1 + double xs) := by
  induction xs generalizing sums with
  | nil => simp [double]
  | cons x xs ih =>
    rw [foldl_cons, ih, add, double, sum_cons, length_cons]
    ext
    · simp only
      ring
    · simp only
      ring

/-- Sums that agree modulo a number still agree with it when a list was added to them. -/
theorem foldl_add_mod {m a b a' b' : Nat} (same : a ≡ a' [MOD m]) (same' : b ≡ b' [MOD m])
    (xs : List Nat) :
    (xs.foldl add (a, b)).1 ≡ (xs.foldl add (a', b')).1 [MOD m] ∧
      (xs.foldl add (a, b)).2 ≡ (xs.foldl add (a', b')).2 [MOD m] := by
  rw [foldl_add, foldl_add]
  exact ⟨same.add_right _, (same'.add (same.mul_left _)).add_right _⟩

/-- Adding in sixteen bits, where a carry goes back in at the low end. -/
def addAround (sum x : Nat) : Nat := if sum + x < 65536 then sum + x else sum + x - 65535

/-- Every carry takes 65535 off the sum, which is zero for zeros only. -/
theorem foldl_addAround {sum : Nat} {xs : List Nat} (small : sum < 65536)
    (each : ∀ x ∈ xs, x < 65536) :
    ∃ carries, xs.foldl addAround sum + 65535 * carries = sum + xs.sum ∧
      xs.foldl addAround sum < 65536 ∧ (xs.foldl addAround sum = 0 → sum + xs.sum = 0) := by
  induction xs generalizing sum with
  | nil => exact ⟨0, rfl, small, id⟩
  | cons x xs ih =>
    rw [forall_mem_cons] at each
    rw [foldl_cons, sum_cons, addAround]
    split
    · obtain ⟨carries, total, bound, zero⟩ := ih ‹_› each.2
      exact ⟨carries, by omega, bound, by omega⟩
    · obtain ⟨carries, total, bound, zero⟩ := @ih (sum + x - 65535) (by omega) each.2
      exact ⟨carries + 1, by omega, bound, by omega⟩

end FlexSwitch.RunningSum
