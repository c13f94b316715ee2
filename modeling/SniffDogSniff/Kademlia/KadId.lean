import SniffDogSniff.Base.XorMetric
import SniffDogSniff.Base.Comparator
import Mathlib.Tactic.Linarith

/-!
# Node identifiers

A `KadId` is an array of sixteen bytes whose last byte is the most significant
one.  The operators work byte by byte; the number `val` that the bytes spell is
what they are about: `operator-` is the exclusive or of the numbers, `operator<`
their order and `height` the place of the top bit.

## Main definitions

* `KadId`, `KadId.val` — the sixteen bytes, and their number.
* `KadId.height?`, `KadId.lt?` — the loops of `height` and `operator<`; `none`
  stands for the read of `id[-1]` that both make when no byte stops them.
* `KadId.height`, `KadId.lt` — the same where the loops stay inside the array.

## Main results

* `KadId.val_sub`, `KadId.lt_iff`, `KadId.height?_eq_log2` — the three operators
  on numbers.
* `KadId.height_spec` — `height` stays inside the array of every id that is not zero.
* `KadId.compares_iff` — `operator<` stays inside the arrays exactly on different ids.
-/

namespace SniffDogSniff

def KAD_ID_LENGTH : ℕ := 16

def KAD_ID_BIT_LENGTH : ℕ := KAD_ID_LENGTH * 8

/-- Sixteen bytes, the most significant one last. -/
structure KadId where
  id : List UInt8
  length_id : id.length = KAD_ID_LENGTH
  deriving DecidableEq

namespace KadId

/-- `id[i]`. -/
def byte (x : KadId) (i : ℕ) : UInt8 := x.id.getD i 0

theorem id_ne_nil (x : KadId) : x.id ≠ [] := by
  apply List.ne_nil_of_length_pos
  rw [x.length_id]
  decide

/-- The id with the given bytes, cut or filled up to sixteen. -/
def ofBytes (bs : List UInt8) : KadId where
  id := (bs ++ List.replicate KAD_ID_LENGTH 0).take KAD_ID_LENGTH
  length_id := by simp

@[simp] theorem ofBytes_id (x : KadId) : ofBytes x.id = x := by
  cases x with
  | mk id h => simp [ofBytes, ← h]

theorem ofBytes_eq_iff {bs : List UInt8} (hlen : bs.length = KAD_ID_LENGTH) {x : KadId} :
    ofBytes bs = x ↔ bs = x.id := by
  have hid : (ofBytes bs).id = bs := List.take_left' hlen
  constructor
  · rintro rfl
    exact hid.symm
  · rintro rfl
    exact x.ofBytes_id

/-- The id whose bytes spell a number, for writing ids down. -/
def ofNat (n : ℕ) : KadId where
  id := (List.range KAD_ID_LENGTH).map fun i => UInt8.ofNat (n / 256 ^ i)
  length_id := by simp

instance : Inhabited KadId := ⟨ofNat 0⟩

/-! ### The number of an id -/

/-- The number spelt by the `k` least significant bytes. -/
def valBelow (x : KadId) : ℕ → ℕ
  | 0 => 0
  | k + 1 => 256 ^ k * (x.byte k).toNat + x.valBelow k

/-- The number spelt by the bytes. -/
def val (x : KadId) : ℕ := x.valBelow KAD_ID_LENGTH

theorem valBelow_lt (x : KadId) (k : ℕ) : x.valBelow k < 256 ^ k := by
  induction k with
  | zero => simp [valBelow]
  | succ k ih =>
    have hb : (x.byte k).toNat + 1 ≤ 256 := (x.byte k).toNat_lt
    calc x.valBelow (k + 1) < 256 ^ k * (x.byte k).toNat + 256 ^ k := by
          rw [valBelow]; omega
      _ = 256 ^ k * ((x.byte k).toNat + 1) := by ring
      _ ≤ 256 ^ k * 256 := Nat.mul_le_mul_left _ hb
      _ = 256 ^ (k + 1) := by ring

theorem testBit_valBelow_succ (x : KadId) (k j : ℕ) :
    (x.valBelow (k + 1)).testBit j
      = if j < 8 * k then (x.valBelow k).testBit j else (x.byte k).toNat.testBit (j - 8 * k) := by
  have hpow : (256 : ℕ) ^ k = 2 ^ (8 * k) := by rw [pow_mul]; norm_num
  rw [valBelow, hpow]
  exact Nat.testBit_two_pow_mul_add _ (hpow ▸ x.valBelow_lt k) j

theorem valBelow_inj {x y : KadId} (k : ℕ) (h : x.valBelow k = y.valBelow k) :
    ∀ i < k, x.byte i = y.byte i := by
  induction k with
  | zero => intro i hi; omega
  | succ k ih =>
    have hx := x.valBelow_lt k
    have hy := y.valBelow_lt k
    rw [valBelow, valBelow] at h
    have htop : (x.byte k).toNat = (y.byte k).toNat := by
      have hdiv := congrArg (· / 256 ^ k) h
      simpa [Nat.mul_add_div (Nat.pow_pos (n := k) (show 0 < 256 by norm_num)),
        Nat.div_eq_of_lt hx, Nat.div_eq_of_lt hy] using hdiv
    have hlow : x.valBelow k = y.valBelow k := by rw [htop] at h; omega
    intro i hi
    rcases Nat.lt_succ_iff_lt_or_eq.mp hi with hlt | rfl
    · exact ih hlow i hlt
    · exact UInt8.toNat_inj.mp htop

theorem ext_byte {x y : KadId} (h : ∀ i < KAD_ID_LENGTH, x.byte i = y.byte i) : x = y := by
  obtain ⟨l, hl⟩ := x
  obtain ⟨m, hm⟩ := y
  congr 1
  refine List.ext_getElem (hl.trans hm.symm) fun i h1 h2 => ?_
  simpa [byte, h1, h2] using h i (hl ▸ h1)

theorem val_inj {x y : KadId} : x.val = y.val ↔ x = y :=
  ⟨fun h => ext_byte (valBelow_inj _ h), fun h => h ▸ rfl⟩

/-! ### `operator-` -/

/-- `operator-`: the bytewise exclusive or. -/
def sub (a b : KadId) : KadId where
  id := List.zipWith (· ^^^ ·) a.id b.id
  length_id := by rw [List.length_zipWith, a.length_id, b.length_id, Nat.min_self]

instance : Sub KadId := ⟨sub⟩

theorem byte_sub (a b : KadId) {i : ℕ} (hi : i < KAD_ID_LENGTH) :
    (a - b).byte i = a.byte i ^^^ b.byte i := by
  have ha : i < a.id.length := a.length_id ▸ hi
  have hb : i < b.id.length := b.length_id ▸ hi
  show (List.zipWith _ a.id b.id).getD i 0 = _
  simp [byte, ha, hb]

theorem valBelow_sub (a b : KadId) {k : ℕ} (hk : k ≤ KAD_ID_LENGTH) :
    (a - b).valBelow k = a.valBelow k ^^^ b.valBelow k := by
  induction k with
  | zero => simp [valBelow]
  | succ k ih =>
    refine Nat.eq_of_testBit_eq fun j => ?_
    rw [Nat.testBit_xor]
    simp only [testBit_valBelow_succ, ih (by omega), byte_sub a b (show k < _ by omega),
      Nat.testBit_xor, UInt8.toNat_xor]
    split <;> rfl

/-- **`operator-` is the exclusive or of the numbers.** -/
theorem val_sub (a b : KadId) : (a - b).val = a.val ^^^ b.val := valBelow_sub a b le_rfl

theorem val_sub_ne_zero {a b : KadId} (h : a ≠ b) : (a - b).val ≠ 0 := by
  rw [val_sub, Ne, Nat.xor_eq_zero_iff]
  exact fun he => h (val_inj.mp he)

/-! ### `operator<` -/

/-- The loop of `operator<` with `k` bytes left, from the most significant one
down.  Equal ids run the index past the front of both arrays. -/
def ltFrom (a b : KadId) : ℕ → Option Bool
  | 0 => none
  | i + 1 => if a.byte i = b.byte i then ltFrom a b i else some (decide (a.byte i < b.byte i))

/-- `operator<`; `none` when it compares `id[-1]` of the two objects. -/
def lt? (a b : KadId) : Option Bool := ltFrom a b KAD_ID_LENGTH

/-- `operator<` as the key order of the containers.  On equal ids the source
compares the bytes that lie in front of the two arrays; here equal ids are
equivalent, which is what a container asks of its order. -/
def lt (a b : KadId) : Bool := (lt? a b).getD false

theorem ltFrom_iff (a b : KadId) (k : ℕ) :
    ltFrom a b k = some true ↔ a.valBelow k < b.valBelow k := by
  induction k with
  | zero => simp [ltFrom, valBelow]
  | succ k ih =>
    have ha := a.valBelow_lt k
    have hb := b.valBelow_lt k
    rw [ltFrom, valBelow, valBelow]
    split
    · next h => rw [ih, h]; omega
    · next h =>
      have hne : (a.byte k).toNat ≠ (b.byte k).toNat := fun he => h (UInt8.toNat_inj.mp he)
      rw [Option.some_inj, decide_eq_true_eq, UInt8.lt_iff_toNat_lt]
      constructor
      · intro hlt
        have := Nat.mul_le_mul_left (256 ^ k) (show (a.byte k).toNat + 1 ≤ (b.byte k).toNat from hlt)
        rw [Nat.mul_add, Nat.mul_one] at this
        omega
      · intro hlt
        by_contra hge
        have := Nat.mul_le_mul_left (256 ^ k)
          (show (b.byte k).toNat + 1 ≤ (a.byte k).toNat by omega)
        rw [Nat.mul_add, Nat.mul_one] at this
        omega

/-- **`operator<` is the order of the numbers.** -/
theorem lt_iff (a b : KadId) : lt a b = true ↔ a.val < b.val := by
  rw [val, val, ← ltFrom_iff, lt, lt?]
  cases ltFrom a b KAD_ID_LENGTH with
  | none => simp
  | some r => simp

/-- The scan leaves the arrays when no byte is different. -/
theorem ltFrom_eq_none_iff (a b : KadId) (k : ℕ) :
    ltFrom a b k = none ↔ ∀ i < k, a.byte i = b.byte i := by
  induction k with
  | zero => exact iff_of_true rfl fun i hi => absurd hi (Nat.not_lt_zero i)
  | succ k ih =>
    rw [ltFrom, Nat.forall_lt_succ_right]
    split
    · next h => rw [ih, and_iff_left h]
    · next h => exact iff_of_false (Option.some_ne_none _) fun hall => h hall.2

theorem lt?_eq_none_iff (a b : KadId) : lt? a b = none ↔ a = b := by
  rw [lt?, ltFrom_eq_none_iff]
  exact ⟨ext_byte, fun h _ _ => h ▸ rfl⟩

/-- `operator<` reads the two arrays only, and compares their numbers. -/
def Compares (a b : KadId) : Prop := ∃ r, lt? a b = some r ∧ (r = true ↔ a.val < b.val)

theorem compares_iff (a b : KadId) : Compares a b ↔ a ≠ b := by
  rw [Ne, ← lt?_eq_none_iff]
  constructor
  · rintro ⟨r, hr, -⟩ hnone
    exact Option.some_ne_none r (hr.symm.trans hnone)
  · intro hsome
    obtain ⟨r, hr⟩ := Option.ne_none_iff_exists'.mp hsome
    refine ⟨r, hr, ?_⟩
    rw [← lt_iff, lt, hr, Option.getD_some]

/-- An id and itself: the byte in front of the array decides. -/
theorem not_forall_compares : ¬ ∀ a b : KadId, Compares a b := by
  intro h
  obtain ⟨r, hr, -⟩ := h (ofNat 0) (ofNat 0)
  exact Option.some_ne_none r (hr.symm.trans ((lt?_eq_none_iff _ _).mpr rfl))

theorem lt_eq_decide (a b : KadId) : lt a b = decide (a.val < b.val) := by
  rw [Bool.eq_iff_iff, lt_iff, decide_eq_true_eq]

theorem lt_self (a : KadId) : lt a a = false := by
  rw [lt_eq_decide, decide_eq_false_iff_not]
  exact Nat.lt_irrefl _

theorem lt_of_lt_of_lt {a b c : KadId} (hab : lt a b = true) (hbc : lt b c = true) :
    lt a c = true := by
  rw [lt_iff] at *
  omega

theorem not_lt_of_not_lt {a b c : KadId} (hab : lt a b = false) (hbc : lt b c = false) :
    lt a c = false := by
  rw [lt_eq_decide, decide_eq_false_iff_not] at *
  omega

/-- The key order of the containers. -/
def order : Comparator KadId where
  lt := lt
  irrefl := lt_self
  trans := fun _ _ _ => lt_of_lt_of_lt
  incomp := fun _ _ _ => not_lt_of_not_lt

/-- Ids are equivalent for their order only when they are equal. -/
theorem order_equiv_iff {a b : KadId} : order.Equiv a b ↔ a = b := by
  constructor
  · rintro ⟨h1, h2⟩
    simp only [order, lt_eq_decide, decide_eq_false_iff_not] at h1 h2
    exact val_inj.mp (by omega)
  · rintro rfl
    exact Comparator.Equiv.refl a

/-! ### `height` -/

/-- The first loop of `height`, with `k` bytes left and `d` counted down by eight
for every zero byte: the index and the count at the top non-zero byte. -/
def heightBytes (x : KadId) : ℕ → ℤ → Option (ℕ × ℤ)
  | 0, _ => none
  | i + 1, d => if x.byte i = 0 then heightBytes x i (d - 8) else some (i, d)

/-- The second loop of `height`, for at most `fuel` shifts of the byte. -/
def heightBits : ℕ → UInt8 → ℤ → Option ℤ
  | 0, _, _ => none
  | fuel + 1, n, d => if n &&& 0x80 = 0 then heightBits fuel (n <<< 1) (d - 1) else some d

/-- `height`; `none` when no byte is non-zero and the scan reads `id[-1]`. -/
def height? (x : KadId) : Option ℤ :=
  match heightBytes x KAD_ID_LENGTH (KAD_ID_BIT_LENGTH - 1) with
  | none => none
  | some (i, d) => heightBits 8 (x.byte i) d

/-- `height` where the scan stays inside the array. -/
def height (x : KadId) : ℕ := ((height? x).getD 0).toNat

theorem heightBits_add (fuel : ℕ) (n : UInt8) (d e : ℤ) :
    heightBits fuel n (d + e) = (heightBits fuel n d).map (· + e) := by
  induction fuel generalizing n d with
  | zero => rfl
  | succ fuel ih =>
    rw [heightBits, heightBits]
    split
    · rw [← ih, show d - 1 + e = d + e - 1 by ring]
    · rfl

/-- Eight shifts reach the top bit of every non-zero byte. -/
theorem heightBits_byte : ∀ n : Fin 256, n ≠ 0 →
    heightBits 8 (UInt8.ofFin n) 0 = some (((n : ℕ).log2 : ℤ) - 7) := by
  decide +kernel

theorem heightBits_eq {n : UInt8} (hn : n ≠ 0) (d : ℤ) :
    heightBits 8 n d = some (d + (n.toNat.log2 - 7)) := by
  have h : heightBits 8 n 0 = some ((n.toNat.log2 : ℤ) - 7) := by
    have := heightBits_byte n.toFin (fun he => hn (UInt8.toFin_inj.mp he))
    rwa [UInt8.ofFin_toFin] at this
  have hadd := heightBits_add 8 n 0 d
  rw [h, zero_add, Option.map_some] at hadd
  rw [hadd, add_comm]

theorem log2_top {b n low k : ℕ} (hb : b ≠ 0) (hn : n = 2 ^ k * b + low) (hlow : low < 2 ^ k) :
    n.log2 = k + b.log2 := by
  have hpos : 0 < 2 ^ k * b := Nat.mul_pos (Nat.two_pow_pos k) (Nat.pos_of_ne_zero hb)
  refine (Nat.log2_eq_iff (by omega)).mpr ⟨?_, ?_⟩
  · rw [pow_add, hn]
    have := Nat.mul_le_mul_left (2 ^ k) (Nat.log2_self_le hb)
    omega
  · have hlt : b + 1 ≤ 2 ^ (b.log2 + 1) := Nat.lt_log2_self
    have := Nat.mul_le_mul_left (2 ^ k) hlt
    rw [Nat.mul_add, Nat.mul_one, ← pow_add, ← Nat.add_assoc] at this
    omega

theorem height?_from (x : KadId) (k : ℕ) (hx : x.valBelow k ≠ 0) :
    ∃ i d, heightBytes x k (8 * k - 1) = some (i, d) ∧
      heightBits 8 (x.byte i) d = some ((x.valBelow k).log2 : ℤ) := by
  induction k with
  | zero => exact absurd rfl hx
  | succ k ih =>
    rw [heightBytes]
    split
    · next h0 =>
      have hval : x.valBelow (k + 1) = x.valBelow k := by
        rw [valBelow, h0]; simp
      rw [hval] at hx ⊢
      rw [show (8 * ((k + 1 : ℕ) : ℤ) - 1 - 8) = 8 * k - 1 by push_cast; ring]
      exact ih hx
    · next h0 =>
      refine ⟨k, _, rfl, ?_⟩
      have hpow : (256 : ℕ) ^ k = 2 ^ (8 * k) := by rw [pow_mul]; norm_num
      have hne : (x.byte k).toNat ≠ 0 := fun he => h0 (UInt8.toNat_inj.mp he)
      have hlog : (x.valBelow (k + 1)).log2 = 8 * k + (x.byte k).toNat.log2 :=
        log2_top hne (by rw [← hpow]; rfl) (hpow ▸ x.valBelow_lt k)
      rw [heightBits_eq h0, hlog]
      push_cast
      congr 1
      ring

/-- **`height` is the place of the top bit of the number.** -/
theorem height?_eq_log2 {x : KadId} (hx : x.val ≠ 0) : height? x = some (x.val.log2 : ℤ) := by
  obtain ⟨i, d, h1, h2⟩ := height?_from x KAD_ID_LENGTH hx
  have hd : (KAD_ID_BIT_LENGTH : ℤ) - 1 = 8 * (KAD_ID_LENGTH : ℕ) - 1 := by
    simp [KAD_ID_BIT_LENGTH, KAD_ID_LENGTH]
  rw [height?, hd, h1]
  exact h2

theorem height_eq_log2 {x : KadId} (hx : x.val ≠ 0) : x.height = x.val.log2 := by
  rw [height, height?_eq_log2 hx, Option.getD_some, Int.toNat_natCast]

theorem height_lt (x : KadId) : x.height < KAD_ID_BIT_LENGTH := by
  rcases eq_or_ne x.val 0 with h0 | hx
  · have hz : (ofNat 0).val = 0 := by decide
    rw [val_inj.mp (h0.trans hz.symm)]
    decide
  · rw [height_eq_log2 hx]
    have hlt : x.val < 2 ^ KAD_ID_BIT_LENGTH := by
      have := x.valBelow_lt KAD_ID_LENGTH
      rwa [KAD_ID_BIT_LENGTH, Nat.mul_comm, pow_mul]
    exact (Nat.log2_lt hx).mpr hlt

theorem val_ne_zero_iff {x : KadId} : x.val ≠ 0 ↔ ∃ b ∈ x.id, b ≠ 0 := by
  have hz : (ofNat 0).val = 0 := by decide
  rw [Ne, ← hz, val_inj]
  constructor
  · intro hx
    by_contra hall
    push Not at hall
    refine hx (ext_byte fun i hi => ?_)
    have hlt : i < x.id.length := x.length_id ▸ hi
    have hzero : (ofNat 0).byte i = 0 := by
      simp [byte, ofNat, hi]
    rw [hzero, byte, List.getD_eq_getElem _ _ hlt]
    exact hall _ (List.getElem_mem hlt)
  · rintro ⟨b, hb, hne⟩ rfl
    have hall : ∀ b ∈ (ofNat 0).id, b = 0 := by simp [ofNat]
    exact hne (hall b hb)

/-- **`height` reads the sixteen bytes only, and finds the place of the top bit.** -/
theorem height_spec {x : KadId} (hx : ∃ b ∈ x.id, b ≠ 0) :
    ∃ h : ℕ, height? x = some (h : ℤ) ∧ h ≤ 127 ∧ 2 ^ h ≤ x.val ∧ x.val < 2 ^ (h + 1) := by
  have hval := val_ne_zero_iff.mpr hx
  have hlt := height_lt x
  rw [height_eq_log2 hval] at hlt
  exact ⟨x.val.log2, height?_eq_log2 hval, Nat.le_of_lt_succ hlt, Nat.log2_self_le hval,
    Nat.lt_log2_self⟩

/-- The number 5. -/
theorem height_spec_five :
    ∃ h : ℕ, height? (ofNat 5) = some (h : ℤ) ∧ h ≤ 127 ∧ 2 ^ h ≤ (ofNat 5).val ∧
      (ofNat 5).val < 2 ^ (h + 1) :=
  height_spec ⟨5, by decide, by decide⟩

end KadId

end SniffDogSniff
