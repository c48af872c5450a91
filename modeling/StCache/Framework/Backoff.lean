import Mathlib.Algebra.Ring.Nat
import Mathlib.Order.Monotone.Basic

namespace StCache

/-- The waiting time after k doublings. -/
def backoff (base cap k : Nat) : Nat := min (base*2^k) cap

/-- The first k waiting times together. -/
def backoffs (base cap : Nat) : Nat → Nat
  | 0 => 0
  | k+1 => backoffs base cap k+backoff base cap k

section Backoff
variable {base cap : Nat}

theorem backoff_zero (small : base ≤ cap) : backoff base cap 0=base := by
  rw [backoff,Nat.pow_zero,Nat.mul_one,Nat.min_eq_left small]

theorem backoff_le (base cap k : Nat) : backoff base cap k ≤ cap := Nat.min_le_right _ _

theorem backoff_pos (positive : 0<base) (room : 0<cap) (k : Nat) : 0<backoff base cap k :=
  Nat.lt_min.mpr ⟨Nat.mul_pos positive (Nat.two_pow_pos k),room⟩

/-- Doubling up to the cap is the next waiting time. -/
theorem backoff_succ (base cap k : Nat) :
    backoff base cap (k+1)=
      if 2*backoff base cap k<cap then 2*backoff base cap k else cap := by
  have double : base*2^(k+1)=2*(base*2^k) := by
    rw [Nat.pow_succ,←Nat.mul_assoc,Nat.mul_comm]
  rw [backoff,backoff,double]
  split_ifs <;> omega

theorem backoffs_strictMono (positive : 0<base) (room : 0<cap) :
    StrictMono (backoffs base cap) := by
  apply strictMono_nat_of_lt_succ
  intro k
  exact Nat.lt_add_of_pos_right (backoff_pos positive room k)

/-- Fewer waits than n fit into a span that n waits do not fit into. -/
theorem waits_lt (positive : 0<base) (room : 0<cap) {k n span : Nat}
    (fits : backoffs base cap k ≤ span) (long : span<backoffs base cap n) : k < n :=
  (backoffs_strictMono positive room).lt_iff_lt.mp (Nat.lt_of_le_of_lt fits long)

end Backoff

end StCache
