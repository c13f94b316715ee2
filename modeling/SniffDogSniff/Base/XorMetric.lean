import Mathlib.Data.Nat.Bitwise
import Mathlib.Tactic.Ring

/-!
# The XOR metric on natural numbers

`u ^^^ w` read as a distance.  Seen from a fixed point `w ≠ 0`, the naturals fall
into *shells*: the numbers whose top bit is that of `w`, those whose top bit is
below it, and one shell for every higher top bit.  Each shell is mapped by
`· ^^^ w` into a dyadic interval of its own, and the intervals come in the order
of the shells, so comparing two distances needs the low bits only when both
points lie in one shell.

## Main definitions

* `shell w u` — the index of the shell of `u` seen from `w`.

## Main results

* `xor_lt_of_shell` and `le_xor_of_shell` — the interval of a shell.
* `xor_lt_xor_of_shell_lt` — a lower shell is nearer.
* `xor_lt_xor_iff_testBit` — of two top bits, a bit of `w` says which one is nearer.
-/

namespace XorMetric

/-! ### The top bit of an exclusive or -/

theorem testBit_eq_false_of_log2_lt {x i : ℕ} (hi : x.log2 < i) : x.testBit i = false := by
  refine Nat.testBit_eq_false_of_lt (lt_of_lt_of_le Nat.lt_log2_self ?_)
  exact Nat.pow_le_pow_right (by norm_num) (by omega)

/-- Two numbers with one top bit lose it in their exclusive or. -/
theorem xor_lt_two_pow_log2 {u w : ℕ} (hu : u ≠ 0) (hw : w ≠ 0) (h : u.log2 = w.log2) :
    u ^^^ w < 2 ^ w.log2 := by
  refine Nat.lt_pow_two_of_testBit _ fun i hi => ?_
  rw [Nat.testBit_xor]
  rcases Nat.eq_or_lt_of_le hi with heq | hlt
  · have hiu : i = u.log2 := heq.symm.trans h.symm
    rw [hiu, Nat.testBit_log2 hu, h, Nat.testBit_log2 hw]
    rfl
  · rw [testBit_eq_false_of_log2_lt hlt, testBit_eq_false_of_log2_lt (h ▸ hlt)]
    rfl

theorem xor_lt_two_pow_succ {u w k : ℕ} (hu : u.log2 ≤ k) (hw : w.log2 ≤ k) :
    u ^^^ w < 2 ^ (k + 1) := by
  have bound : ∀ x : ℕ, x.log2 ≤ k → x < 2 ^ (k + 1) := fun x hx =>
    lt_of_lt_of_le Nat.lt_log2_self (Nat.pow_le_pow_right (by norm_num) (by omega))
  exact Nat.xor_lt_two_pow (bound u hu) (bound w hw)

/-- A top bit that the other number does not have survives. -/
theorem two_pow_log2_le_xor {u w : ℕ} (hu : u ≠ 0) (h : w.log2 < u.log2) :
    2 ^ u.log2 ≤ u ^^^ w := by
  refine Nat.ge_two_pow_of_testBit ?_
  rw [Nat.testBit_xor, Nat.testBit_log2 hu, testBit_eq_false_of_log2_lt h]
  rfl

/-! ### Shells -/

/-- The shell of `u` seen from `w`: `0` for the numbers with the top bit of `w`,
`1` for those with a lower one, and `k + 1` for the top bit `k` places above. -/
def shell (w u : ℕ) : ℕ :=
  if u.log2 = w.log2 then 0 else if u.log2 < w.log2 then 1 else u.log2 - w.log2 + 1

/-- Everything in shell `j` lies below `2 ^ (log2 w + j)`. -/
theorem xor_lt_of_shell {w u : ℕ} (hw : w ≠ 0) (hu : u ≠ 0) :
    u ^^^ w < 2 ^ (w.log2 + shell w u) := by
  unfold shell
  split
  · next h => exact xor_lt_two_pow_log2 hu hw h
  · split
    · next h => exact xor_lt_two_pow_succ h.le le_rfl
    · next h1 h2 =>
      rw [show w.log2 + (u.log2 - w.log2 + 1) = u.log2 + 1 by omega]
      exact xor_lt_two_pow_succ le_rfl (by omega)

/-- Everything in shell `j + 1` lies at or above `2 ^ (log2 w + j)`. -/
theorem le_xor_of_shell {w u j : ℕ} (hw : w ≠ 0) (hu : u ≠ 0) (hj : shell w u = j + 1) :
    2 ^ (w.log2 + j) ≤ u ^^^ w := by
  unfold shell at hj
  split at hj
  · omega
  · split at hj
    · next h =>
      have hj0 : j = 0 := by omega
      rw [hj0, Nat.add_zero, Nat.xor_comm]
      exact two_pow_log2_le_xor hw h
    · next h1 h2 =>
      rw [show w.log2 + j = u.log2 by omega]
      exact two_pow_log2_le_xor hu (by omega)

/-- **A lower shell is nearer**, whatever the low bits are. -/
theorem xor_lt_xor_of_shell_lt {w u v : ℕ} (hw : w ≠ 0) (hu : u ≠ 0) (hv : v ≠ 0)
    (h : shell w u < shell w v) : u ^^^ w < v ^^^ w := by
  obtain ⟨j, hj⟩ : ∃ j, shell w v = j + 1 := ⟨shell w v - 1, by omega⟩
  calc u ^^^ w < 2 ^ (w.log2 + shell w u) := xor_lt_of_shell hw hu
    _ ≤ 2 ^ (w.log2 + j) := Nat.pow_le_pow_right (by norm_num) (by omega)
    _ ≤ v ^^^ w := le_xor_of_shell hw hv hj

/-- **Of two points with different top bits**, the one with the lower bit is nearer exactly
where `w` does not have the higher one. -/
theorem xor_lt_xor_iff_testBit {w u v : ℕ} (hv : v ≠ 0) (h : u.log2 < v.log2) :
    u ^^^ w < v ^^^ w ↔ w.testBit v.log2 = false := by
  have hu : u.testBit v.log2 = false := testBit_eq_false_of_log2_lt h
  have hlast : v.testBit v.log2 = true := Nat.testBit_log2 hv
  have habove : ∀ j, v.log2 < j → u.testBit j = v.testBit j := by
    intro j hj
    rw [testBit_eq_false_of_log2_lt hj, testBit_eq_false_of_log2_lt (h.trans hj)]
  cases hw : w.testBit v.log2 with
  | false =>
    refine iff_of_true (Nat.lt_of_testBit v.log2 ?_ ?_ fun j hj => ?_) rfl
    · rw [Nat.testBit_xor, hu, hw]
      rfl
    · rw [Nat.testBit_xor, hlast, hw]
      rfl
    · rw [Nat.testBit_xor, Nat.testBit_xor, habove j hj]
  | true =>
    refine iff_of_false (Nat.lt_asymm (Nat.lt_of_testBit v.log2 ?_ ?_ fun j hj => ?_)) (by decide)
    · rw [Nat.testBit_xor, hlast, hw]
      rfl
    · rw [Nat.testBit_xor, hu, hw]
      rfl
    · rw [Nat.testBit_xor, Nat.testBit_xor, habove j hj]

end XorMetric
