import SniffDogSniff.Base.LittleEndian

/-!
# Hexadecimal digits

The program reads digits in two places, `hex_string_to_bytes` and `httpUnescape`, and
in the same way: it takes the decimal digits and the capital letters for what they
stand for, leaves every other character as it is, and uses the low half of it.

## Main definitions

* `hexDigit`, `hexByte` — a digit and a byte, as the program reads them.
* `hexValue` — what a digit stands for, in either case.
* `hexChar` — the digit for a value, as the program prints it.

## Main results

* `hexByte_eq_iff` — **a byte is read as it should be, unless a digit is a small letter.**
* `hexValue_hexChar` — what is printed is a digit, and a capital letter.
-/

namespace SniffDogSniff

/-- A hexadecimal digit; other characters stay as they are, also the small letters. -/
def hexDigit (c : UInt8) : UInt8 :=
  if 48 ≤ c ∧ c ≤ 57 then c - 48 else if 65 ≤ c ∧ c ≤ 70 then c - 65 + 10 else c

/-- The byte for two digits. -/
def hexByte (hi lo : UInt8) : UInt8 := ((hexDigit hi <<< 4) &&& 0xf0) ||| (hexDigit lo &&& 0x0f)

/-- What a digit in either case stands for. -/
def hexValue (c : UInt8) : Option ℕ :=
  if 48 ≤ c ∧ c ≤ 57 then some (c.toNat - 48)
  else if 65 ≤ c ∧ c ≤ 70 then some (c.toNat - 55)
  else if 97 ≤ c ∧ c ≤ 102 then some (c.toNat - 87)
  else none

/-- A digit that is a small letter. -/
def smallDigit (c : UInt8) : Bool := decide (97 ≤ c ∧ c ≤ 102)

/-- The digit for a value. -/
def hexChar (n : UInt8) : UInt8 := if n > 9 then 65 + (n - 10) else 48 + n

/-! ### A byte from two digits -/

theorem toNat_high (x : UInt8) : ((x <<< 4) &&& 0xf0).toNat = x.toNat % 16 * 16 := by
  have hall : ∀ n < 256, ((UInt8.ofNat n <<< 4) &&& 0xf0).toNat = n % 16 * 16 := by decide +kernel
  have hx := hall x.toNat x.toNat_lt
  rwa [UInt8.ofNat_toNat] at hx

theorem toNat_low (x : UInt8) : (x &&& 0x0f).toNat = x.toNat % 16 := by
  rw [UInt8.toNat_and]
  exact Nat.and_two_pow_sub_one_eq_mod x.toNat 4

/-- The halves of the byte are the low halves of the two characters. -/
theorem toNat_hexByte (hi lo : UInt8) :
    (hexByte hi lo).toNat = (hexDigit hi).toNat % 16 * 16 + (hexDigit lo).toNat % 16 := by
  rw [hexByte, UInt8.toNat_or, toNat_high, toNat_low]
  have hlt : (hexDigit lo).toNat % 16 < 2 ^ 4 := Nat.mod_lt _ (by decide)
  have hor := Nat.shiftLeft_add_eq_or_of_lt hlt ((hexDigit hi).toNat % 16)
  rw [Nat.shiftLeft_eq] at hor
  exact hor.symm

/-- The low half of a digit is its value, but for the small letters. -/
theorem hexDigit_mod_iff {c : UInt8} {n : ℕ} (h : hexValue c = some n) :
    n < 16 ∧ ((hexDigit c).toNat % 16 = n ↔ smallDigit c = false) := by
  have hle : ∀ k : UInt8, k ≤ c ↔ k.toNat ≤ c.toNat := fun k => UInt8.le_iff_toNat_le
  have hge : ∀ k : UInt8, c ≤ k ↔ c.toNat ≤ k.toNat := fun k => UInt8.le_iff_toNat_le
  unfold hexValue at h
  unfold hexDigit smallDigit
  rw [decide_eq_false_iff_not]
  split at h
  · next hdec =>
    cases h
    rw [if_pos hdec, UInt8.toNat_sub_of_le _ _ hdec.1]
    simp only [hle, hge, UInt8.reduceToNat] at *
    omega
  · next hdec =>
    rw [if_neg hdec]
    split at h
    · next hcap =>
      cases h
      rw [if_pos hcap, UInt8.toNat_add, UInt8.toNat_sub_of_le _ _ hcap.1]
      simp only [hle, hge, UInt8.reduceToNat] at *
      omega
    · next hcap =>
      rw [if_neg hcap]
      split at h
      · next hsmall =>
        cases h
        simp only [hle, hge, UInt8.reduceToNat] at *
        omega
      · cases h

/-- **Two digits are read as their byte exactly where none of them is a small letter.** -/
theorem hexByte_eq_iff {hi lo : UInt8} {h l : ℕ} (hhi : hexValue hi = some h)
    (hlo : hexValue lo = some l) :
    hexByte hi lo = UInt8.ofNat (16 * h + l) ↔ smallDigit hi = false ∧ smallDigit lo = false := by
  obtain ⟨hlt, hsmall⟩ := hexDigit_mod_iff hhi
  obtain ⟨llt, lsmall⟩ := hexDigit_mod_iff hlo
  rw [← hsmall, ← lsmall, ← UInt8.toNat_inj, toNat_hexByte, UInt8.toNat_ofNat']
  omega

/-! ### Printing -/

theorem hexValue_hexChar {n : ℕ} (h : n < 16) :
    hexValue (hexChar (UInt8.ofNat n)) = some n ∧ smallDigit (hexChar (UInt8.ofNat n)) = false := by
  have hall : ∀ n < 16, hexValue (hexChar (UInt8.ofNat n)) = some n ∧
      smallDigit (hexChar (UInt8.ofNat n)) = false := by decide
  exact hall n h

/-- The halves of a byte, as the program takes them. -/
theorem halves_eq (b : UInt8) :
    (b >>> 4) &&& 0x0f = UInt8.ofNat (b.toNat / 16) ∧ b &&& 0x0f = UInt8.ofNat (b.toNat % 16) := by
  have hlt := b.toNat_lt
  constructor
  · rw [← UInt8.toNat_inj, toNat_low, UInt8.toNat_ofNat', UInt8.toNat_shiftRight]
    show b.toNat >>> 4 % 16 = _
    rw [Nat.shiftRight_eq_div_pow]
    omega
  · rw [← UInt8.toNat_inj, toNat_low, UInt8.toNat_ofNat']
    omega

end SniffDogSniff
