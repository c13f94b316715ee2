import SniffDogSniff.Common.StringUtil
import Mathlib.Data.Nat.Bitwise

/-!
# The 128-bit hash of a token

`fnv128String` keeps the hash in four words of 32 bits, each in a `uint64_t`, the
most significant word first.  The loop tests a character, steps over it, and then
hashes the character behind it: every second character goes into the hash, and the
terminator of a string of odd length is taken for a character.  In a round, the shift
that stands for the factor `2 ^ 88` is taken from the words in front of the `xor`, and
the character is signed.

## Main definitions

* `fnv1a` — the 128-bit FNV-1a hash; `fnvBytes`, the bytes of a number as `out` has them.
* `Temp`, `Temp.round`, `fnv128Loop`, `fnv128String` — the code, on the memory behind
  its pointer.
* `skipStep`, `skipHash` — the recurrence of every second character, on numbers.
* `Hashes` — the call reads no byte behind the terminator and writes the hash.

## Main results

* `val_round` — a round is a `skipStep` of the number that the words spell.
* `fnv128Loop_of_even`, `lt_read_of_odd` — where the loop ends.
* `hashes_iff` — **exactly when the code computes the hash**: `hashes_nil` for the empty string,
  `not_hashes_of_odd` for no string of odd length.
* `hashes_collision` — a string on which it does.
-/

namespace SniffDogSniff

/-! ### The hash -/

def FNV128primeX : ℕ := 0x013B

def FNV128shift : ℕ := 24

def FNV128basis0 : ℕ := 0x6C62272E

def FNV128basis1 : ℕ := 0x07BB0142

def FNV128basis2 : ℕ := 0x62B82175

def FNV128basis3 : ℕ := 0x6295C58D

/-- `2 ^ 88 + 2 ^ 8 + 0x3b`. -/
def fnvPrime : ℕ := 2 ^ 88 + 2 ^ 8 + 0x3B

def fnvBasis : ℕ := 0x6C62272E07BB014262B821756295C58D

/-- The hash with one more byte. -/
def fnv1aStep (h : ℕ) (b : UInt8) : ℕ := (h ^^^ b.toNat) * fnvPrime % 2 ^ 128

/-- The 128-bit FNV-1a hash. -/
def fnv1a (s : Bytes) : ℕ := s.foldl fnv1aStep fnvBasis

/-- The four words of a hash, the most significant first, each in little-endian order. -/
def fnvBytes (h : ℕ) : Bytes :=
  Bytes.le 4 (h / 2 ^ 96) ++ Bytes.le 4 (h / 2 ^ 64) ++ Bytes.le 4 (h / 2 ^ 32) ++ Bytes.le 4 h

/-! ### The code -/

/-- The array `temp`. -/
structure Temp where
  w0 : UInt64
  w1 : UInt64
  w2 : UInt64
  w3 : UInt64

/-- A `char` as an operand of a `uint64_t`: its sign is extended. -/
def charWord (c : UInt8) : UInt64 := c.toInt8.toInt64.toUInt64

namespace Temp

def basis : Temp where
  w0 := UInt64.ofNat FNV128basis0
  w1 := UInt64.ofNat FNV128basis1
  w2 := UInt64.ofNat FNV128basis2
  w3 := UInt64.ofNat FNV128basis3

/-- The body of the loop, for the character that is hashed. -/
def round (temp : Temp) (c : UInt8) : Temp :=
  let primeX := UInt64.ofNat FNV128primeX
  let shift := UInt64.ofNat FNV128shift
  -- both are taken in front of the `xor`
  let temp2_1 := temp.w3 <<< shift
  let temp2_0 := temp.w2 <<< shift
  let w3 := primeX * (temp.w3 ^^^ charWord c)
  let w2 := temp.w2 * primeX
  let w1 := temp.w1 * primeX + temp2_1
  let w0 := temp.w0 * primeX + temp2_0
  let w2 := w2 + (w3 >>> 32)
  let w3 := w3 &&& 0xFFFFFFFF
  let w1 := w1 + (w2 >>> 32)
  let w2 := w2 &&& 0xFFFFFFFF
  let w0 := w0 + (w1 >>> 32)
  let w1 := w1 &&& 0xFFFFFFFF
  ⟨w0, w1, w2, w3⟩

/-- The bytes of one word in `out`. -/
def wordBytes (w : UInt64) : Bytes :=
  [w.toUInt8, (w >>> 8).toUInt8, (w >>> 16).toUInt8, (w >>> 24).toUInt8]

/-- What is written to `out`. -/
def out (temp : Temp) : Bytes :=
  wordBytes temp.w0 ++ wordBytes temp.w1 ++ wordBytes temp.w2 ++ wordBytes temp.w3

end Temp

/-- The loop, on the memory from `in` on: the words, and the memory behind the last
byte that was read.  `none`: the memory ends while the loop still reads. -/
def fnv128Loop : Bytes → Temp → Option (Temp × Bytes)
  | [], _ => none
  | [b], temp => if b = 0 then some (temp, []) else none
  -- the character behind the one that was tested is hashed
  | b :: c :: mem, temp => if b = 0 then some (temp, c :: mem) else fnv128Loop mem (temp.round c)

/-- What a call leaves: its value, the array `out`, and the memory behind the last byte
that was read. -/
structure FnvReturn where
  value : Int32
  out : Bytes
  behind : Bytes
  deriving DecidableEq

/-- `fnv128String(in, out)`; `none` is a null pointer. -/
def fnv128String (inp out : Option Bytes) : Option FnvReturn :=
  match inp, out with
  | some mem, some _ => (fnv128Loop mem Temp.basis).map fun r => ⟨0, r.1.out, r.2⟩
  | _, _ => some ⟨-1, out.getD [], inp.getD []⟩

/-- The call reads no byte behind the terminator and writes the hash of the string. -/
def Hashes (s : CString) (behind out : Bytes) : Prop :=
  ∃ r, fnv128String (some (s.inMemory behind)) (some out) = some r ∧
    behind <:+ r.behind ∧ r.value = 0 ∧ r.out = fnvBytes (fnv1a s.bytes)

/-! ### The code in numbers -/

/-- A character in 32 bits, with its sign. -/
def charLow (c : UInt8) : ℕ := if c < 128 then c.toNat else 2 ^ 32 - 256 + c.toNat

/-- The sign above the low 32 bits. -/
def charSign (c : UInt8) : ℕ := if c < 128 then 0 else 2 ^ 32 - 1

/-- What a round adds for the sign: the words hand it on no further than `temp[2]`. -/
def charCarry (c : UInt8) : ℕ := if c < 128 then 0 else 2 ^ 64 - FNV128primeX * 2 ^ 32

/-- A round as numbers: the factor `2 ^ 88` acts on the hash in front of the `xor`. -/
def skipStep (h : ℕ) (c : UInt8) : ℕ :=
  (2 ^ 88 * h + FNV128primeX * (h ^^^ charLow c) + charCarry c) % 2 ^ 128

/-- The hash that leaves out every second character. -/
def skipHash : Bytes → ℕ → ℕ
  | _ :: c :: s, h => skipHash s (skipStep h c)
  | _, h => h

/-! ### One round -/

theorem charLow_lt (c : UInt8) : charLow c < 2 ^ 32 := by
  have hc := c.toNat_lt
  unfold charLow
  split <;> omega

theorem toNat_charWord (c : UInt8) : (charWord c).toNat = 2 ^ 32 * charSign c + charLow c := by
  have hc := c.toNat_lt
  have hext : (charWord c).toNat = (c.toBitVec.signExtend 64).toNat := rfl
  rw [hext, BitVec.toNat_signExtend, BitVec.toNat_setWidth, BitVec.msb_eq_decide, charSign,
    charLow]
  simp only [UInt8.lt_iff_toNat_lt, UInt8.toNat_toBitVec, decide_eq_true_eq, UInt8.reduceToNat]
  split <;> split <;> omega

/-- A word of 32 bits does not reach what is above them. -/
theorem xor_of_lt {m : ℕ} (hm : m < 2 ^ 32) (h : ℕ) :
    h ^^^ m = 2 ^ 32 * (h / 2 ^ 32) + (h % 2 ^ 32 ^^^ m) := by
  have hdiv : (h ^^^ m) / 2 ^ 32 = h / 2 ^ 32 := by
    rw [Nat.xor_div_two_pow, Nat.div_eq_of_lt hm, Nat.xor_zero]
  have hmod : (h ^^^ m) % 2 ^ 32 = h % 2 ^ 32 ^^^ m := by
    rw [Nat.xor_mod_two_pow, Nat.mod_eq_of_lt hm]
  rw [← hdiv, ← hmod, Nat.div_add_mod]

theorem mul_add_xor {a m : ℕ} (ha : a < 2 ^ 32) (hm : m < 2 ^ 32) (k : ℕ) :
    (2 ^ 32 * k + a) ^^^ m = 2 ^ 32 * k + (a ^^^ m) := by
  rw [xor_of_lt hm, Nat.mul_add_div (by decide), Nat.div_eq_of_lt ha, Nat.mul_add_mod,
    Nat.mod_eq_of_lt ha, Nat.add_zero]

/-- The product of the prime and the lowest word after the `xor`. -/
theorem toNat_mul_xor {w : UInt64} (hw : w.toNat < 2 ^ 32) (c : UInt8) :
    (UInt64.ofNat FNV128primeX * (w ^^^ charWord c)).toNat =
      FNV128primeX * (w.toNat ^^^ charLow c) + charCarry c := by
  have hprime : FNV128primeX = 0x13B := rfl
  have hprimeX : (UInt64.ofNat FNV128primeX).toNat = 0x13B := rfl
  have hlt : w.toNat ^^^ charLow c < 2 ^ 32 := Nat.xor_lt_two_pow hw (charLow_lt c)
  have hxor : w.toNat ^^^ (charWord c).toNat = 2 ^ 32 * charSign c + (w.toNat ^^^ charLow c) := by
    rw [toNat_charWord, Nat.xor_comm, mul_add_xor (charLow_lt c) hw, Nat.xor_comm w.toNat]
  rw [UInt64.toNat_mul, hprimeX, UInt64.toNat_xor, hxor, charSign, charCarry, hprime]
  split <;> omega

namespace Temp

/-- The words below the first are words of 32 bits. -/
structure Small (temp : Temp) : Prop where
  w1_lt : temp.w1.toNat < 2 ^ 32
  w2_lt : temp.w2.toNat < 2 ^ 32
  w3_lt : temp.w3.toNat < 2 ^ 32

/-- The number that the words spell. -/
def val (temp : Temp) : ℕ :=
  temp.w0.toNat % 2 ^ 32 * 2 ^ 96 + temp.w1.toNat * 2 ^ 64 + temp.w2.toNat * 2 ^ 32 +
    temp.w3.toNat

theorem small_basis : basis.Small := ⟨by decide, by decide, by decide⟩

theorem val_basis : basis.val = fnvBasis := rfl

theorem val_lt {temp : Temp} (ht : temp.Small) : temp.val < 2 ^ 128 := by
  have h1 := ht.w1_lt
  have h2 := ht.w2_lt
  have h3 := ht.w3_lt
  unfold val
  omega

/-- The part of a sum that stays in a word. -/
theorem toNat_low (w : UInt64) : (w &&& 0xFFFFFFFF).toNat = w.toNat % 2 ^ 32 :=
  (UInt64.toNat_and _ _).trans (Nat.and_two_pow_sub_one_eq_mod _ 32)

/-- The part that is handed on. -/
theorem toNat_high (w : UInt64) : (w >>> 32).toNat = w.toNat / 2 ^ 32 :=
  (UInt64.toNat_shiftRight _ _).trans (Nat.shiftRight_eq_div_pow _ 32)

/-- The part that goes to the next word but one. -/
theorem toNat_shift {w : UInt64} (hw : w.toNat < 2 ^ 32) :
    (w <<< UInt64.ofNat FNV128shift).toNat = w.toNat * 2 ^ 24 := by
  have hleft : (w <<< UInt64.ofNat FNV128shift).toNat = w.toNat <<< 24 % 2 ^ 64 := rfl
  rw [hleft, Nat.shiftLeft_eq, Nat.mod_eq_of_lt (by omega)]

/-- The words after a round, as numbers: each one hands on what does not fit. -/
theorem words_round {temp : Temp} (ht : temp.Small) (c : UInt8) {q1 q2 q3 : ℕ}
    (h3 : q3 = FNV128primeX * (temp.w3.toNat ^^^ charLow c) + charCarry c)
    (h2 : q2 = temp.w2.toNat * FNV128primeX + q3 / 2 ^ 32)
    (h1 : q1 = temp.w1.toNat * FNV128primeX + temp.w3.toNat * 2 ^ 24 + q2 / 2 ^ 32) :
    (temp.round c).w3.toNat = q3 % 2 ^ 32 ∧ (temp.round c).w2.toNat = q2 % 2 ^ 32 ∧
      (temp.round c).w1.toNat = q1 % 2 ^ 32 ∧
      (temp.round c).w0.toNat =
        (temp.w0.toNat * FNV128primeX + temp.w2.toNat * 2 ^ 24 + q1 / 2 ^ 32) % 2 ^ 64 := by
  have hw1 := ht.w1_lt
  have hw2 := ht.w2_lt
  have hw3 := ht.w3_lt
  have hprime : FNV128primeX = 0x13B := rfl
  have hprimeX : (UInt64.ofNat FNV128primeX).toNat = FNV128primeX := rfl
  -- no sum but the one in the first word reaches `2 ^ 64`
  have e3 : (UInt64.ofNat FNV128primeX * (temp.w3 ^^^ charWord c)).toNat = q3 :=
    (toNat_mul_xor hw3 c).trans h3.symm
  have hq3 : q3 < 2 ^ 64 := e3 ▸ UInt64.toNat_lt _
  have e2 : (temp.w2 * UInt64.ofNat FNV128primeX +
      ((UInt64.ofNat FNV128primeX * (temp.w3 ^^^ charWord c)) >>> 32)).toNat = q2 := by
    rw [UInt64.toNat_add, UInt64.toNat_mul, hprimeX, toNat_high, e3, h2, hprime]
    omega
  have e1 : (temp.w1 * UInt64.ofNat FNV128primeX + (temp.w3 <<< UInt64.ofNat FNV128shift) +
      ((temp.w2 * UInt64.ofNat FNV128primeX +
        ((UInt64.ofNat FNV128primeX * (temp.w3 ^^^ charWord c)) >>> 32)) >>> 32)).toNat = q1 := by
    rw [UInt64.toNat_add, UInt64.toNat_add, UInt64.toNat_mul, hprimeX, toNat_shift hw3, toNat_high,
      e2, h1, hprime]
    rw [hprime] at h2
    omega
  refine ⟨?_, ?_, ?_, ?_⟩
  · rw [← e3, ← toNat_low]
    rfl
  · rw [← e2, ← toNat_low]
    rfl
  · rw [← e1, ← toNat_low]
    rfl
  · show (temp.w0 * UInt64.ofNat FNV128primeX + (temp.w2 <<< UInt64.ofNat FNV128shift) +
      ((_ : UInt64) >>> (32 : UInt64))).toNat = _
    rw [UInt64.toNat_add, UInt64.toNat_add, UInt64.toNat_mul, hprimeX, toNat_shift hw2, toNat_high,
      e1]
    omega

theorem small_round {temp : Temp} (ht : temp.Small) (c : UInt8) : (temp.round c).Small := by
  obtain ⟨h3, h2, h1, -⟩ := words_round ht c rfl rfl rfl
  refine ⟨?_, ?_, ?_⟩
  · exact h1 ▸ Nat.mod_lt _ (by decide)
  · exact h2 ▸ Nat.mod_lt _ (by decide)
  · exact h3 ▸ Nat.mod_lt _ (by decide)

/-- **A round is a `skipStep` of the number that the words spell.** -/
theorem val_round {temp : Temp} (ht : temp.Small) (c : UInt8) :
    (temp.round c).val = skipStep temp.val c := by
  have hw1 := ht.w1_lt
  have hw2 := ht.w2_lt
  have hw3 := ht.w3_lt
  have hprime : FNV128primeX = 0x13B := rfl
  obtain ⟨h3, h2, h1, h0⟩ := words_round ht c rfl rfl rfl
  have hx : temp.w3.toNat ^^^ charLow c < 2 ^ 32 := Nat.xor_lt_two_pow hw3 (charLow_lt c)
  -- the `xor` stays in the lowest word
  have hxor : temp.val ^^^ charLow c = temp.w0.toNat % 2 ^ 32 * 2 ^ 96 +
      temp.w1.toNat * 2 ^ 64 + temp.w2.toNat * 2 ^ 32 + (temp.w3.toNat ^^^ charLow c) := by
    have hval : temp.val = 2 ^ 32 * (temp.w0.toNat % 2 ^ 32 * 2 ^ 64 + temp.w1.toNat * 2 ^ 32 +
        temp.w2.toNat) + temp.w3.toNat := by
      unfold val
      ring
    rw [hval, mul_add_xor hw3 (charLow_lt c)]
    ring
  rw [skipStep, hxor]
  unfold val
  rw [h0, h1, h2, h3, hprime]
  generalize temp.w3.toNat ^^^ charLow c = x at hx ⊢
  omega

/-! ### The array `out` -/

theorem wordBytes_eq (w : UInt64) : wordBytes w = Bytes.le 4 w.toNat := by
  have hbyte : ∀ v : UInt64, v.toUInt8 = UInt8.ofNat v.toNat := fun v => by
    rw [← UInt8.toNat_inj, UInt64.toNat_toUInt8, UInt8.toNat_ofNat']
  simp only [wordBytes, Bytes.le, hbyte, UInt64.toNat_shiftRight, Nat.shiftRight_eq_div_pow,
    Nat.div_div_eq_div_mul]
  rfl

/-- The words are written as the number that they spell. -/
theorem out_eq {temp : Temp} (ht : temp.Small) : temp.out = fnvBytes temp.val := by
  have hw1 := ht.w1_lt
  have hw2 := ht.w2_lt
  have hw3 := ht.w3_lt
  simp only [out, fnvBytes, wordBytes_eq]
  have h0 : Bytes.le 4 (temp.val / 2 ^ 96) = Bytes.le 4 temp.w0.toNat :=
    Bytes.le_congr (by unfold val; omega)
  have h1 : Bytes.le 4 (temp.val / 2 ^ 64) = Bytes.le 4 temp.w1.toNat :=
    Bytes.le_congr (by unfold val; omega)
  have h2 : Bytes.le 4 (temp.val / 2 ^ 32) = Bytes.le 4 temp.w2.toNat :=
    Bytes.le_congr (by unfold val; omega)
  have h3 : Bytes.le 4 temp.val = Bytes.le 4 temp.w3.toNat :=
    Bytes.le_congr (by unfold val; omega)
  rw [h0, h1, h2, h3]

end Temp

/-- The bytes of a hash determine it. -/
theorem fnvBytes_inj {h k : ℕ} (hh : h < 2 ^ 128) (hk : k < 2 ^ 128) :
    fnvBytes h = fnvBytes k ↔ h = k := by
  refine ⟨fun heq => ?_, fun heq => heq ▸ rfl⟩
  have hword : ∀ v w : ℕ, Bytes.le 4 v = Bytes.le 4 w → v % 2 ^ 32 = w % 2 ^ 32 := fun v w hvw => by
    have hof := congrArg Bytes.ofLe hvw
    rwa [Bytes.ofLe_le, Bytes.ofLe_le] at hof
  obtain ⟨heq, h3⟩ := List.append_inj' heq (by simp)
  obtain ⟨heq, h2⟩ := List.append_inj' heq (by simp)
  obtain ⟨h0, h1⟩ := List.append_inj' heq (by simp)
  have e0 := hword _ _ h0
  have e1 := hword _ _ h1
  have e2 := hword _ _ h2
  have e3 := hword _ _ h3
  omega

/-! ### The loop -/

/-- The rounds over a string of even length. -/
def skipRounds : Bytes → Temp → Temp
  | _ :: c :: s, temp => skipRounds s (temp.round c)
  | _, temp => temp

theorem small_skipRounds (s : Bytes) (temp : Temp) (ht : temp.Small) :
    (skipRounds s temp).Small := by
  induction s, temp using skipRounds.induct with
  | case1 b c s temp ih => exact ih (Temp.small_round ht c)
  | case2 s temp hs =>
    rw [skipRounds.eq_2 s temp hs]
    exact ht

theorem val_skipRounds (s : Bytes) (temp : Temp) (ht : temp.Small) :
    (skipRounds s temp).val = skipHash s temp.val := by
  induction s, temp using skipRounds.induct with
  | case1 b c s temp ih =>
    rw [skipRounds, skipHash, ← Temp.val_round ht c]
    exact ih (Temp.small_round ht c)
  | case2 s temp hs => rw [skipRounds.eq_2 s temp hs, skipHash.eq_2 s temp.val hs]

/-- **Over a string of even length the loop stops behind the terminator.** -/
theorem fnv128Loop_of_even (behind s : Bytes) (temp : Temp) (hs : 0 ∉ s) (heven : Even s.length) :
    fnv128Loop (s ++ 0 :: behind) temp = some (skipRounds s temp, behind) := by
  induction s, temp using skipRounds.induct with
  | case1 b c s temp ih =>
    have hb : b ≠ 0 := fun h => hs (h ▸ List.mem_cons_self)
    rw [List.cons_append, List.cons_append, fnv128Loop, if_neg hb, skipRounds]
    refine ih (fun h => hs ?_) ?_
    · exact List.mem_cons_of_mem _ (List.mem_cons_of_mem _ h)
    · rwa [List.length_cons, List.length_cons, Nat.even_add_one, Nat.even_add_one, not_not] at heven
  | case2 s temp hshort =>
    rw [skipRounds.eq_2 s temp hshort]
    match s, hshort with
    | [], _ => cases behind <;> rfl
    | [b], _ => exact absurd heven (by simp)
    | b :: c :: s, hshort => exact absurd rfl (hshort b c s)

/-- The loop reads at least one byte. -/
theorem length_lt_of_fnv128Loop {mem : Bytes} {temp : Temp} {r : Temp × Bytes}
    (h : fnv128Loop mem temp = some r) : r.2.length < mem.length := by
  fun_induction fnv128Loop mem temp with
  | case1 temp => cases h
  | case2 temp =>
    cases h
    exact Nat.zero_lt_one
  | case3 b temp hb => cases h
  | case4 c mem temp =>
    cases h
    exact Nat.lt_succ_self _
  | case5 b c mem temp hb ih =>
    have hlt := ih h
    simp only [List.length_cons]
    omega

/-- **Over a string of odd length the loop does not stop behind the terminator**: the
terminator is hashed, and the loop goes on behind it. -/
theorem length_lt_of_odd {behind : Bytes} {r : Temp × Bytes} (s : Bytes) (temp : Temp)
    (hs : 0 ∉ s) (hodd : ¬ Even s.length)
    (h : fnv128Loop (s ++ 0 :: behind) temp = some r) : r.2.length < behind.length := by
  induction s, temp using skipRounds.induct with
  | case1 b c s temp ih =>
    have hb : b ≠ 0 := fun h => hs (h ▸ List.mem_cons_self)
    rw [List.cons_append, List.cons_append, fnv128Loop, if_neg hb] at h
    refine ih (fun h => hs ?_) ?_ h
    · exact List.mem_cons_of_mem _ (List.mem_cons_of_mem _ h)
    · rwa [List.length_cons, List.length_cons, Nat.even_add_one, Nat.even_add_one, not_not] at hodd
  | case2 s temp hshort =>
    match s, hshort with
    | [], _ => exact absurd Even.zero hodd
    | [b], _ =>
      have hb : b ≠ 0 := fun h => hs (h ▸ List.mem_cons_self)
      rw [List.singleton_append, fnv128Loop, if_neg hb] at h
      exact length_lt_of_fnv128Loop h
    | b :: c :: s, hshort => exact absurd rfl (hshort b c s)

/-! ### When the hash is right -/

theorem fnvBasis_lt : fnvBasis < 2 ^ 128 := by
  unfold fnvBasis
  omega

theorem fnv1a_lt (s : Bytes) : fnv1a s < 2 ^ 128 := by
  rcases List.eq_nil_or_concat s with rfl | ⟨l, b, rfl⟩
  · exact fnvBasis_lt
  · rw [fnv1a, List.concat_eq_append, List.foldl_append, List.foldl_cons, List.foldl_nil,
      fnv1aStep]
    exact Nat.mod_lt _ (Nat.two_pow_pos 128)

theorem skipHash_lt (s : Bytes) : skipHash s fnvBasis < 2 ^ 128 := by
  rw [← Temp.val_basis, ← val_skipRounds _ _ Temp.small_basis]
  exact Temp.val_lt (small_skipRounds s Temp.basis Temp.small_basis)

/-- What is written for a string of even length. -/
theorem fnv128String_of_even (s : CString) (behind out : Bytes) (heven : Even s.bytes.length) :
    fnv128String (some (s.inMemory behind)) (some out) =
      some ⟨0, fnvBytes (skipHash s.bytes fnvBasis), behind⟩ := by
  have hsmall := small_skipRounds s.bytes Temp.basis Temp.small_basis
  rw [fnv128String, CString.inMemory, fnv128Loop_of_even behind _ _ s.nonzero heven,
    Option.map_some, Temp.out_eq hsmall, val_skipRounds _ _ Temp.small_basis, Temp.val_basis]

/-- A string of even length has its hash only by a collision. -/
theorem hashes_iff_of_even {s : CString} (heven : Even s.bytes.length) (behind out : Bytes) :
    Hashes s behind out ↔ skipHash s.bytes fnvBasis = fnv1a s.bytes := by
  have hcall := fnv128String_of_even s behind out heven
  constructor
  · rintro ⟨r, hr, -, -, hout⟩
    rw [hcall, Option.some_inj] at hr
    subst hr
    exact (fnvBytes_inj (skipHash_lt _) (fnv1a_lt _)).mp hout
  · intro heq
    exact ⟨_, hcall, List.suffix_refl _, rfl, by rw [heq]⟩

/-- The empty string has it. -/
theorem hashes_nil {s : CString} (h : s.bytes = []) (behind out : Bytes) : Hashes s behind out := by
  rw [hashes_iff_of_even (by rw [h]; decide), h]
  rfl

/-- A string of odd length never has it: the terminator is hashed, and what is behind it. -/
theorem not_hashes_of_odd {s : CString} (hodd : ¬ Even s.bytes.length) (behind out : Bytes) :
    ¬ Hashes s behind out := by
  rintro ⟨r, hr, hbehind, -⟩
  obtain ⟨q, hq, rfl⟩ := Option.map_eq_some_iff.mp hr
  have hlt := length_lt_of_odd s.bytes Temp.basis s.nonzero hodd hq
  exact absurd hbehind.length_le (Nat.not_le_of_lt hlt)

/-- **When the code computes the hash**: for a string of even length, if its hash is that of every
second character; this is so for the empty string, and for others by a collision. -/
theorem hashes_iff (s : CString) (behind out : Bytes) :
    Hashes s behind out ↔ Even s.bytes.length ∧ skipHash s.bytes fnvBasis = fnv1a s.bytes := by
  by_cases heven : Even s.bytes.length
  · rw [hashes_iff_of_even heven, and_iff_right heven]
  · exact iff_of_false (not_hashes_of_odd heven behind out) fun h => heven h.1

/-- Forty characters; the code leaves out all but the ones. -/
def collision : CString where
  bytes := [245, 1, 15, 1, 129, 1, 11, 1, 61, 1, 43, 1, 17, 1, 143, 1, 55, 1, 107, 1, 191, 1, 229,
    1, 81, 1, 65, 1, 173, 1, 215, 1, 207, 1, 115, 1, 15, 1, 91, 1]
  nonzero := by decide

/-- So the empty string is not the only one. -/
theorem hashes_collision (behind out : Bytes) : Hashes collision behind out := by
  have heven : Even collision.bytes.length := by decide
  rw [hashes_iff_of_even heven]
  decide

/-- The two characters `ab`: the first is left out. -/
theorem not_forall_hashes : ¬ ∀ (s : CString) (behind out : Bytes), Hashes s behind out := by
  intro h
  obtain ⟨r, hr, -, -, hout⟩ := h ⟨[97, 98], by decide⟩ [] []
  cases hr
  exact absurd hout (by decide)

end SniffDogSniff
