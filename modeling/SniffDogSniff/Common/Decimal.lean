import SniffDogSniff.Base.LittleEndian
import Mathlib.Data.Nat.Digits.Lemmas

/-!
# Texts with numbers

What is written into a text by the program: literals, and numbers in decimal digits.

## Main definitions

* `ascii` — the bytes of a literal.
* `decimal`, `stdToString` — the digits of a number.

## Main results

* `decimal_injective`, `stdToString_injective` — the digits tell the number.
-/

namespace SniffDogSniff

/-- The bytes of a literal. -/
def ascii (s : String) : Bytes := s.toList.map fun c => UInt8.ofNat c.toNat

/-! ### Numbers in a text -/

/-- The decimal digits of a number. -/
def decimal (n : ℕ) : Bytes :=
  if n = 0 then [48] else (Nat.digits 10 n).reverse.map fun d => 48 + UInt8.ofNat d

/-- `std::to_string`. -/
def stdToString (z : ℤ) : Bytes := if z < 0 then 45 :: decimal z.natAbs else decimal z.natAbs

theorem mem_decimal {n : ℕ} {c : UInt8} (h : c ∈ decimal n) : ∃ d < 10, c = 48 + UInt8.ofNat d := by
  unfold decimal at h
  split at h
  · exact ⟨0, by decide, List.mem_singleton.mp h⟩
  · obtain ⟨d, hd, rfl⟩ := List.mem_map.mp h
    exact ⟨d, Nat.digits_lt_base (by decide) (List.mem_reverse.mp hd), rfl⟩

/-- No digit is a sign or a line end. -/
theorem not_mem_decimal (n : ℕ) : 45 ∉ decimal n ∧ 13 ∉ decimal n := by
  have hdigit : ∀ d : Fin 10, (45 : UInt8) ≠ 48 + UInt8.ofNat d ∧ (13 : UInt8) ≠ 48 + UInt8.ofNat d := by
    decide
  constructor <;> intro h <;> obtain ⟨d, hd, heq⟩ := mem_decimal h
  · exact (hdigit ⟨d, hd⟩).1 heq
  · exact (hdigit ⟨d, hd⟩).2 heq

/-- Reading the digits again. -/
theorem ofDigits_decimal (n : ℕ) :
    Nat.ofDigits 10 ((decimal n).reverse.map fun c => (c - 48).toNat) = n := by
  unfold decimal
  split
  · next h => exact h.symm
  · have hdigit : ∀ d : Fin 10, (48 + UInt8.ofNat d - 48 : UInt8).toNat = d := by decide
    simp only [List.map_reverse, List.reverse_reverse, List.map_map]
    refine (congrArg (Nat.ofDigits 10) ?_).trans (Nat.ofDigits_digits 10 n)
    refine (List.map_congr_left fun d hd => ?_).trans (List.map_id _)
    exact hdigit ⟨d, Nat.digits_lt_base (by decide) hd⟩

theorem decimal_injective : Function.Injective decimal := by
  intro m n h
  rw [← ofDigits_decimal m, h, ofDigits_decimal]

theorem stdToString_injective : Function.Injective stdToString := by
  intro y z h
  unfold stdToString at h
  split at h <;> split at h
  · have habs := decimal_injective (List.cons.inj h).2
    omega
  · exact absurd (h ▸ List.mem_cons_self) (not_mem_decimal z.natAbs).1
  · exact absurd (h ▸ List.mem_cons_self) (not_mem_decimal y.natAbs).1
  · have habs := decimal_injective h
    omega

theorem not_mem_stdToString (z : ℤ) : 13 ∉ stdToString z := by
  unfold stdToString
  split
  · exact List.not_mem_cons_of_ne_of_not_mem (by decide) (not_mem_decimal _).2
  · exact (not_mem_decimal _).2

end SniffDogSniff
