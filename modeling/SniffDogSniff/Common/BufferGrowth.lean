import SniffDogSniff.Common.SdsBytesBuf

/-!
# The growth of the byte buffer

The sizes in `SdsBytesBuf` are of type `size_t`, and `resize` doubles the
capacity until it is large enough.  A capacity of 0 stays 0, and so does, in the
end, any other that the doubling shifts out of the word: then the loop goes on for
ever.  `SdsBytesBuf.write` counts without a bound; here the same functions count
in `size_t`.

## Main definitions

* `growT`, `resizeT`, `writeT` — `resize` and `write` on `size_t`.
* `Start`, `WriteOp`, `run` — the ways to make a buffer, the write operations, and
  the use of one.
* `Holds` — what a buffer is after given bytes have been written to it.
* `Fits` — a size that some doubling of a capacity reaches.

## Main results

* `growT_none` — a loop that has not ended after 64 rounds never ends.
* `writeT_eq_write` — up to `2 ^ 63` bytes, the model without a bound is right.
* `forall_take_holds_iff` — **a use of a buffer goes well if and only if the first
  block can be doubled to all that is written.**
-/

namespace SniffDogSniff.SdsBytesBuf

open Bytes

/-! ### `resize` and `write` on `size_t` -/

/-- The values of `size_t` are those below it. -/
def wordSize : ℕ := 2 ^ 64

/-- The loop of `resize`, for at most `n` rounds; `none` if it has not ended. -/
def growT (size : ℕ) : ℕ → ℕ → Option ℕ
  | 0, capacity => if size ≤ capacity then some capacity else none
  | n + 1, capacity => if size ≤ capacity then some capacity
      else growT size n (capacity * 2 % wordSize)

/-- `resize`; after 64 rounds the loop does not end any more. -/
def resizeT (size : ℕ) (buf : SdsBytesBuf) : Option SdsBytesBuf :=
  if buf.allocated then (growT size 64 buf.capacity).map fun c => { buf with capacity := c }
  else some (buf.allocate size)

/-- `write`. -/
def writeT (bs : Bytes) : Write := fun buf => do
  let buf ← buf.resizeT ((buf.bufferSize + bs.length) % wordSize)
  return { buf with
    mem := overlay buf.mem buf.pos bs
    pos := (buf.pos + bs.length) % wordSize
    bufferSize := (buf.bufferSize + bs.length) % wordSize }

/-! ### Uses of a buffer -/

/-- The write operations. -/
inductive WriteOp
  | bytes (bs : Bytes)
  | string (s : Bytes)
  | uint8 (n : UInt8)
  | uint16 (n : UInt16)
  | uint32 (n : UInt32)
  | uint64 (n : UInt64)
  | bool (b : Bool)

namespace WriteOp

/-- The bytes that the operation hands to `write`. -/
def encode : WriteOp → Bytes
  | bytes bs => bs
  | string s => encodeString s
  | uint8 n => Word.uint8.encode n
  | uint16 n => Word.uint16.encode n
  | uint32 n => Word.uint32.encode n
  | uint64 n => Word.uint64.encode n
  | bool b => Word.uint8.encode (if b then 1 else 0)

/-- `writeBytes` alone looks at the length. -/
def run : WriteOp → Write
  | bytes bs => fun buf => if bs = [] then some buf else writeT bs buf
  | op => writeT op.encode

end WriteOp

/-- `SdsBytesBuf()`, `SdsBytesBuf(data, n)`, and `SdsBytesBuf()` with `allocate(n)`. -/
inductive Start
  | default
  | data (bs : Bytes)
  | allocate (n : UInt64)

namespace Start

def make (mem : ℕ → UInt8) : Start → Option SdsBytesBuf
  | default => some (empty mem)
  | data bs => writeT bs (empty mem)
  | allocate n => some ((empty mem).allocate n.toNat)

/-- The bytes that are in the buffer from the start. -/
def written : Start → Bytes
  | data bs => bs
  | _ => []

end Start

/-- A new buffer and some write operations on it; `none` where one of them does
not return. -/
def run (mem : ℕ → UInt8) (start : Start) (ops : List WriteOp) : Option SdsBytesBuf := do
  ops.foldlM (fun buf op => op.run buf) (← start.make mem)

/-- Everything that is written. -/
def written (start : Start) (ops : List WriteOp) : Bytes :=
  start.written ++ ops.flatMap WriteOp.encode

/-- The buffer is as it should be after `bs` has been written to it. -/
structure Holds (buf : SdsBytesBuf) (bs : Bytes) : Prop where
  size_le : buf.bufferSize ≤ buf.capacity
  pos_eq : buf.pos = buf.bufferSize
  bytes_eq : buf.bytes = bs

/-- The first operation that writes a byte makes the first block of a buffer that
has none. -/
def firstWrite : List WriteOp → ℕ
  | [] => 0
  | op :: ops => if op.encode = [] then firstWrite ops else op.encode.length

/-- The size of the first block. -/
def firstBlock : Start → List WriteOp → ℕ
  | .default, ops => firstWrite ops
  | .data bs, _ => bs.length
  | .allocate n, _ => n.toNat

/-- Some doubling of `c` reaches `n`. -/
def Fits (c n : ℕ) : Prop := ∃ j < 64, n ≤ c * 2 ^ j % wordSize

/-! ### Doubling in a word -/

theorem double_mod (c j : ℕ) :
    c * 2 ^ j % wordSize * 2 % wordSize = c * 2 ^ (j + 1) % wordSize := by
  rw [Nat.mod_mul_mod, Nat.mul_assoc, ← pow_succ]

/-- 64 doublings leave nothing of a number. -/
theorem shifted_out (c j : ℕ) : c * 2 ^ (64 + j) % wordSize = 0 := by
  rw [pow_add, Nat.mul_left_comm]
  exact Nat.mul_mod_right _ _

theorem fits_iff (c n : ℕ) : Fits c n ↔ ∃ j, n ≤ c * 2 ^ j % wordSize := by
  constructor
  · rintro ⟨j, -, hj⟩
    exact ⟨j, hj⟩
  · rintro ⟨j, hj⟩
    by_cases hlt : j < 64
    · exact ⟨j, hlt, hj⟩
    · obtain ⟨i, rfl⟩ := Nat.exists_eq_add_of_le (Nat.le_of_not_lt hlt)
      rw [shifted_out] at hj
      exact ⟨0, by decide, hj.trans (Nat.zero_le _)⟩

theorem Fits.mono {c m n : ℕ} (h : Fits c n) (hle : m ≤ n) : Fits c m := by
  obtain ⟨j, hj, hn⟩ := h
  exact ⟨j, hj, hle.trans hn⟩

theorem fits_zero (c : ℕ) : Fits c 0 := ⟨0, by decide, Nat.zero_le _⟩

/-- The half of the word that nothing is shifted out of: there every capacity but 0
will do. -/
theorem fits_iff_of_le {c n : ℕ} (hc : c < wordSize) (hn : n ≤ 2 ^ 63) :
    Fits c n ↔ n = 0 ∨ 0 < c := by
  constructor
  · rintro ⟨j, -, hj⟩
    by_contra hnot
    have hzero : c = 0 := by omega
    rw [hzero, Nat.zero_mul, Nat.zero_mod] at hj
    omega
  · rintro (rfl | hpos)
    · exact fits_zero c
    -- double until the highest bit is set
    have hne : c ≠ 0 := Nat.pos_iff_ne_zero.mp hpos
    have hlog : c.log2 < 64 := (Nat.log2_lt hne).mpr hc
    have hlow : 2 ^ 63 ≤ c * 2 ^ (63 - c.log2) := calc
      2 ^ 63 = 2 ^ c.log2 * 2 ^ (63 - c.log2) := by rw [← pow_add]; congr 1; omega
      _ ≤ c * 2 ^ (63 - c.log2) := Nat.mul_le_mul_right _ (Nat.log2_self_le hne)
    have hhigh : c * 2 ^ (63 - c.log2) < wordSize := calc
      c * 2 ^ (63 - c.log2) < 2 ^ (c.log2 + 1) * 2 ^ (63 - c.log2) :=
        Nat.mul_lt_mul_of_pos_right Nat.lt_log2_self (Nat.two_pow_pos _)
      _ = wordSize := by rw [← pow_add, wordSize]; congr 1; omega
    refine ⟨63 - c.log2, by omega, ?_⟩
    rw [Nat.mod_eq_of_lt hhigh]
    exact hn.trans hlow

/-! ### The loop of `resize` -/

/-- What the loop returns: the first doubling that is large enough. -/
theorem growT_some {size c c' : ℕ} :
    ∀ n i, growT size n (c * 2 ^ i % wordSize) = some c' →
      size ≤ c' ∧ ∃ j, c' = c * 2 ^ j % wordSize ∧
        ∀ k, i ≤ k → k < j → c * 2 ^ k % wordSize < size := by
  intro n
  induction n with
  | zero =>
    intro i h
    rw [growT] at h
    split at h
    · next hle =>
      cases h
      exact ⟨hle, i, rfl, fun k hk hlt => by omega⟩
    · cases h
  | succ n ih =>
    intro i h
    rw [growT] at h
    split at h
    · next hle =>
      cases h
      exact ⟨hle, i, rfl, fun k hk hlt => by omega⟩
    · next hgt =>
      rw [double_mod] at h
      obtain ⟨hle, j, hj, hskip⟩ := ih (i + 1) h
      refine ⟨hle, j, hj, fun k hk hlt => ?_⟩
      by_cases hki : k = i
      · rw [hki]
        exact Nat.lt_of_not_le hgt
      · exact hskip k (by omega) hlt

/-- The loop ends in time if a doubling is large enough. -/
theorem exists_growT {size c : ℕ} :
    ∀ n i k, k ≤ n → size ≤ c * 2 ^ (i + k) % wordSize →
      ∃ c', growT size n (c * 2 ^ i % wordSize) = some c' := by
  intro n
  induction n with
  | zero =>
    intro i k hk hle
    have hzero : k = 0 := Nat.le_zero.mp hk
    rw [hzero] at hle
    exact ⟨_, if_pos hle⟩
  | succ n ih =>
    intro i k hk hle
    rw [growT]
    by_cases hnow : size ≤ c * 2 ^ i % wordSize
    · exact ⟨_, if_pos hnow⟩
    · rw [if_neg hnow, double_mod]
      have hne : k ≠ 0 := by
        rintro rfl
        exact hnow hle
      apply ih (i + 1) (k - 1) (by omega)
      rw [show i + 1 + (k - 1) = i + k by omega]
      exact hle

/-- 64 rounds are enough. -/
theorem exists_growT_of_le {size c i j : ℕ} (hij : i ≤ j) (h : size ≤ c * 2 ^ j % wordSize) :
    ∃ c', growT size 64 (c * 2 ^ i % wordSize) = some c' := by
  obtain ⟨k, rfl⟩ := Nat.exists_eq_add_of_le hij
  by_cases hk : k ≤ 64
  · exact exists_growT 64 i k hk h
  · obtain ⟨l, rfl⟩ := Nat.exists_eq_add_of_le (Nat.le_of_not_le hk)
    rw [Nat.add_left_comm, shifted_out] at h
    exact exists_growT 64 i 0 (Nat.zero_le _) (h.trans (Nat.zero_le _))

/-- **A loop that has not ended after 64 rounds never ends.** -/
theorem growT_none {size c : ℕ} (hc : c < wordSize) (h : growT size 64 c = none) (n : ℕ) :
    growT size n c = none := by
  have hstart : c = c * 2 ^ 0 % wordSize := by
    rw [pow_zero, Nat.mul_one, Nat.mod_eq_of_lt hc]
  cases hn : growT size n c with
  | none => rfl
  | some c' =>
    rw [hstart] at hn h
    obtain ⟨hle, j, hj, -⟩ := growT_some n 0 hn
    obtain ⟨c'', hc''⟩ := exists_growT_of_le (Nat.zero_le j) (hj ▸ hle)
    rw [hc''] at h
    cases h

/-! ### The model without a bound -/

theorem growT_eq_grow {size : ℕ} (hsize : size ≤ 2 ^ 63) :
    ∀ n c, growT size n c = grow size n c := by
  intro n
  induction n with
  | zero =>
    intro c
    rfl
  | succ n ih =>
    intro c
    rw [growT, grow]
    split
    · rfl
    · next hgt =>
      have hfits : c * 2 < wordSize := by
        unfold wordSize
        omega
      rw [Nat.mod_eq_of_lt hfits, ih]

theorem grow_add {size c' : ℕ} (k : ℕ) :
    ∀ n c, grow size n c = some c' → grow size (n + k) c = some c' := by
  intro n
  induction n with
  | zero =>
    intro c h
    rw [grow] at h
    split at h
    · next hle =>
      cases k with
      | zero => exact (if_pos hle).trans h
      | succ k => exact (if_pos hle).trans h
    · cases h
  | succ n ih =>
    intro c h
    rw [Nat.succ_add, grow]
    rw [grow] at h
    split
    · next hle => rwa [if_pos hle] at h
    · next hgt =>
      rw [if_neg hgt] at h
      exact ih _ h

theorem grow_zero {size : ℕ} (hsize : 0 < size) (n : ℕ) : grow size n 0 = none := by
  induction n with
  | zero => exact if_neg (by omega)
  | succ n ih => rw [grow, if_neg (by omega), Nat.zero_mul, ih]

/-- The rounds that the two models allow make no difference. -/
theorem grow_rounds {size c : ℕ} (hsize : size ≤ 2 ^ 63) (hc : c < wordSize) :
    grow size 64 c = grow size size c := by
  rcases Nat.eq_zero_or_pos size with hzero | hpos
  · rw [hzero]
    exact if_pos (Nat.zero_le c)
  rcases Nat.eq_zero_or_pos c with hzero | hcpos
  · rw [hzero, grow_zero hpos, grow_zero hpos]
  obtain ⟨j, -, hj⟩ := (fits_iff_of_le hc hsize).mpr (Or.inr hcpos)
  obtain ⟨c₁, h₁⟩ := exists_growT_of_le (Nat.zero_le j) hj
  rw [pow_zero, Nat.mul_one, Nat.mod_eq_of_lt hc, growT_eq_grow hsize] at h₁
  obtain ⟨c₂, h₂, -⟩ := exists_grow size hcpos (Nat.le_add_left size c)
  have hsum₁ := grow_add size 64 c h₁
  have hsum₂ := grow_add 64 size c h₂
  rw [Nat.add_comm, hsum₁] at hsum₂
  rw [h₁, h₂, hsum₂]

/-- **Up to `2 ^ 63` bytes, `size_t` makes no difference.** -/
theorem writeT_eq_write {buf : SdsBytesBuf} {bs : Bytes} (hcap : buf.capacity < wordSize)
    (hpos : buf.pos ≤ buf.bufferSize) (h : buf.bufferSize + bs.length ≤ 2 ^ 63) :
    writeT bs buf = write bs buf := by
  have hlt : buf.bufferSize + bs.length < wordSize := by
    unfold wordSize
    omega
  have hcapacity : ∀ b : SdsBytesBuf, b.pos = buf.pos → b.bufferSize = buf.bufferSize →
      (b.pos + bs.length) % wordSize = b.pos + bs.length ∧
        (b.bufferSize + bs.length) % wordSize = b.bufferSize + bs.length := by
    intro b hp hs
    rw [hp, hs]
    exact ⟨Nat.mod_eq_of_lt (by omega), Nat.mod_eq_of_lt hlt⟩
  unfold writeT write resizeT resize
  rw [Nat.mod_eq_of_lt hlt, growT_eq_grow h, grow_rounds h hcap]
  split
  · cases grow (buf.bufferSize + bs.length) (buf.bufferSize + bs.length) buf.capacity with
    | none => rfl
    | some c =>
      obtain ⟨hp, hs⟩ := hcapacity { buf with capacity := c } rfl rfl
      simp only [Option.map_some, Option.bind_eq_bind, Option.bind_some, hp, hs]
  · obtain ⟨hp, hs⟩ := hcapacity (buf.allocate (buf.bufferSize + bs.length)) rfl rfl
    simp only [Option.bind_eq_bind, Option.bind_some, hp, hs]

/-! ### Runs -/

/-- The buffer owns a block, which is a doubling of `c`, and its sizes are words. -/
structure Doubled (c : ℕ) (buf : SdsBytesBuf) : Prop where
  allocated : buf.allocated = true
  capacity : ∃ j, buf.capacity = c * 2 ^ j % wordSize
  size_lt : buf.bufferSize < wordSize

/-- The buffer holds `bs` in a block that is the first doubling of `c` to take it. -/
structure Grown (c : ℕ) (bs : Bytes) (buf : SdsBytesBuf) : Prop where
  allocated : buf.allocated = true
  size : buf.bufferSize = bs.length
  holds : buf.Holds bs
  capacity : ∃ j, buf.capacity = c * 2 ^ j % wordSize ∧
    ∀ k < j, c * 2 ^ k % wordSize < bs.length

theorem WriteOp.run_eq (op : WriteOp) (buf : SdsBytesBuf) :
    op.run buf = if op.encode = [] then some buf else writeT op.encode buf := by
  cases op with
  | bytes bs => rfl
  | string s => exact (if_neg (by simp [WriteOp.encode, encodeString])).symm
  | uint8 n => exact (if_neg (by simp [WriteOp.encode, Word.uint8, Bytes.le])).symm
  | uint16 n => exact (if_neg (by simp [WriteOp.encode, Word.uint16, Bytes.le])).symm
  | uint32 n => exact (if_neg (by simp [WriteOp.encode, Word.uint32, Bytes.le])).symm
  | uint64 n => exact (if_neg (by simp [WriteOp.encode, Word.uint64, Bytes.le])).symm
  | bool b => exact (if_neg (by simp [WriteOp.encode, Word.uint8, Bytes.le])).symm

/-- The block and the contents after a write. -/
theorem writeT_of_allocated {buf : SdsBytesBuf} (hal : buf.allocated = true) (bs : Bytes) :
    writeT bs buf = (growT ((buf.bufferSize + bs.length) % wordSize) 64 buf.capacity).map fun c =>
      { mem := overlay buf.mem buf.pos bs
        allocated := true
        bufferSize := (buf.bufferSize + bs.length) % wordSize
        capacity := c
        pos := (buf.pos + bs.length) % wordSize } := by
  rw [writeT, resizeT, if_pos hal, ← hal]
  cases growT ((buf.bufferSize + bs.length) % wordSize) 64 buf.capacity with
  | none => rfl
  | some c => rfl

theorem Doubled.writeT {c : ℕ} {buf buf' : SdsBytesBuf} {bs : Bytes} (h : buf.Doubled c)
    (hw : writeT bs buf = some buf') : buf'.Doubled c := by
  rw [writeT_of_allocated h.allocated] at hw
  obtain ⟨i, hi⟩ := h.capacity
  obtain ⟨c', hgrow, rfl⟩ := Option.map_eq_some_iff.mp hw
  rw [hi] at hgrow
  obtain ⟨-, j, hj, -⟩ := growT_some 64 i hgrow
  exact ⟨rfl, ⟨j, hj⟩, Nat.mod_lt _ (by decide)⟩

/-- A write that the word and the block have room for. -/
theorem Grown.exists_writeT {c : ℕ} {buf : SdsBytesBuf} {bs bs' : Bytes} (h : buf.Grown c bs)
    (hlt : (bs ++ bs').length < wordSize) (hfits : Fits c (bs ++ bs').length) :
    ∃ buf', buf.writeT bs' = some buf' ∧ buf'.Grown c (bs ++ bs') := by
  have hsize : (buf.bufferSize + bs'.length) % wordSize = (bs ++ bs').length := by
    rw [h.size, ← List.length_append, Nat.mod_eq_of_lt hlt]
  obtain ⟨i, hi, hskip⟩ := h.capacity
  obtain ⟨j, -, hj⟩ := hfits
  have hle : bs.length ≤ (bs ++ bs').length := by simp
  -- the doublings that have been passed are too small
  have hij : i ≤ j := by
    by_contra hji
    have hsmall := hskip j (Nat.lt_of_not_le hji)
    omega
  obtain ⟨c', hgrow⟩ := exists_growT_of_le hij hj
  obtain ⟨hcap, k, hk, hskip'⟩ := growT_some 64 i hgrow
  refine ⟨⟨overlay buf.mem buf.bufferSize bs', true, (bs ++ bs').length, c', (bs ++ bs').length⟩,
    ?_, rfl, rfl, ⟨hcap, rfl, ?_⟩, k, hk, ?_⟩
  · rw [writeT_of_allocated h.allocated, h.holds.pos_eq, hsize, hi, hgrow, Option.map_some]
  · have hold := slice_overlay_of_le buf.mem (Nat.zero_add buf.bufferSize).le bs'
    have hbytes : slice buf.mem 0 buf.bufferSize = bs := h.holds.bytes_eq
    show slice (overlay buf.mem buf.bufferSize bs') 0 (bs ++ bs').length = bs ++ bs'
    rw [List.length_append, ← h.size, slice_add, hold, hbytes, Nat.zero_add, slice_overlay_self]
  · intro l hl
    by_cases hli : i ≤ l
    · exact hskip' l hli hl
    · exact (hskip l (Nat.lt_of_not_le hli)).trans_le hle

/-- The first write of a buffer without a block makes one of its own length. -/
theorem writeT_empty (mem : ℕ → UInt8) (bs : Bytes) :
    ∃ buf, writeT bs (empty mem) = some buf ∧ buf.Doubled bs.length ∧
      (bs.length < wordSize → buf.Grown bs.length bs) := by
  refine ⟨_, rfl, ⟨rfl, ⟨0, ?_⟩, Nat.mod_lt _ (by decide)⟩, fun hlt => ?_⟩
  · show (0 + bs.length) % wordSize = bs.length * 2 ^ 0 % wordSize
    rw [Nat.zero_add, pow_zero, Nat.mul_one]
  · have hmod : (0 + bs.length) % wordSize = bs.length := by
      rw [Nat.zero_add, Nat.mod_eq_of_lt hlt]
    refine ⟨rfl, hmod, ⟨le_rfl, rfl, ?_⟩, 0, ?_, fun k hk => absurd hk (Nat.not_lt_zero k)⟩
    · show slice (overlay mem 0 bs) 0 ((0 + bs.length) % wordSize) = bs
      rw [hmod, slice_overlay_self]
    · show (0 + bs.length) % wordSize = bs.length * 2 ^ 0 % wordSize
      rw [Nat.zero_add, pow_zero, Nat.mul_one]

theorem grown_allocate (mem : ℕ → UInt8) (n : UInt64) :
    ((empty mem).allocate n.toNat).Doubled n.toNat ∧
      ((empty mem).allocate n.toNat).Grown n.toNat [] := by
  have hmod : n.toNat = n.toNat * 2 ^ 0 % wordSize := by
    have hlt : n.toNat < wordSize := n.toNat_lt
    rw [pow_zero, Nat.mul_one, Nat.mod_eq_of_lt hlt]
  have hzero : 0 < wordSize := by decide
  refine ⟨⟨rfl, ⟨0, hmod⟩, hzero⟩, rfl, rfl, ⟨Nat.zero_le _, rfl, rfl⟩, 0, hmod, ?_⟩
  exact fun k hk => absurd hk (Nat.not_lt_zero k)

section Runs

variable {c : ℕ} {bs : Bytes}

theorem Doubled.run {op : WriteOp} {buf buf' : SdsBytesBuf} (h : buf.Doubled c)
    (hrun : op.run buf = some buf') : buf'.Doubled c := by
  rw [op.run_eq] at hrun
  split at hrun
  · cases hrun
    exact h
  · exact h.writeT hrun

theorem Doubled.foldlM (ops : List WriteOp) :
    ∀ {buf buf' : SdsBytesBuf}, buf.Doubled c →
      ops.foldlM (fun buf op => op.run buf) buf = some buf' → buf'.Doubled c := by
  induction ops with
  | nil =>
    intro buf buf' h hrun
    cases hrun
    exact h
  | cons op ops ih =>
    intro buf buf' h hrun
    rw [List.foldlM_cons] at hrun
    obtain ⟨buf₁, hop, hrest⟩ := Option.bind_eq_some_iff.mp hrun
    exact ih (h.run hop) hrest

theorem Grown.exists_run {op : WriteOp} {buf : SdsBytesBuf} (h : buf.Grown c bs)
    (hlt : (bs ++ op.encode).length < wordSize) (hfits : Fits c (bs ++ op.encode).length) :
    ∃ buf', op.run buf = some buf' ∧ buf'.Grown c (bs ++ op.encode) := by
  rw [op.run_eq]
  split
  · next hnil =>
    rw [hnil, List.append_nil]
    exact ⟨buf, rfl, h⟩
  · exact h.exists_writeT hlt hfits

theorem Grown.exists_foldlM (ops : List WriteOp) :
    ∀ {bs : Bytes} {buf : SdsBytesBuf}, buf.Grown c bs →
      (bs ++ ops.flatMap WriteOp.encode).length < wordSize →
      Fits c (bs ++ ops.flatMap WriteOp.encode).length →
      ∃ buf', ops.foldlM (fun buf op => op.run buf) buf = some buf' ∧
        buf'.Grown c (bs ++ ops.flatMap WriteOp.encode) := by
  induction ops with
  | nil =>
    intro bs buf h _ _
    exact ⟨buf, rfl, by rwa [List.flatMap_nil, List.append_nil]⟩
  | cons op ops ih =>
    intro bs buf h hlt hfits
    rw [List.flatMap_cons, ← List.append_assoc] at hlt hfits ⊢
    have hle : (bs ++ op.encode).length ≤
        (bs ++ op.encode ++ ops.flatMap WriteOp.encode).length := by simp
    obtain ⟨buf₁, hop, h₁⟩ := h.exists_run (hle.trans_lt hlt) (hfits.mono hle)
    obtain ⟨buf', hrest, h'⟩ := ih h₁ hlt hfits
    refine ⟨buf', ?_, h'⟩
    rw [List.foldlM_cons, hop]
    exact hrest

/-- Operations on a buffer that has a block. -/
theorem foldlM_holds_iff {buf : SdsBytesBuf} (hd : buf.Doubled c)
    (hg : bs.length < wordSize → buf.Grown c bs) (ops : List WriteOp) :
    (∃ buf', ops.foldlM (fun buf op => op.run buf) buf = some buf' ∧
        buf'.Holds (bs ++ ops.flatMap WriteOp.encode)) ↔
      (bs ++ ops.flatMap WriteOp.encode).length < wordSize ∧
        Fits c (bs ++ ops.flatMap WriteOp.encode).length := by
  constructor
  · rintro ⟨buf', hrun, hholds⟩
    have h := hd.foldlM ops hrun
    have hlen : (bs ++ ops.flatMap WriteOp.encode).length = buf'.bufferSize := by
      rw [← hholds.bytes_eq, length_bytes, SdsBytesBuf.size]
    obtain ⟨j, hj⟩ := h.capacity
    rw [hlen, fits_iff]
    exact ⟨h.size_lt, j, hj ▸ hholds.size_le⟩
  · rintro ⟨hlt, hfits⟩
    have hle : bs.length ≤ (bs ++ ops.flatMap WriteOp.encode).length := by simp
    obtain ⟨buf', hrun, h⟩ := (hg (hle.trans_lt hlt)).exists_foldlM ops hlt hfits
    exact ⟨buf', hrun, h.holds⟩

end Runs

theorem holds_empty (mem : ℕ → UInt8) : (empty mem).Holds [] := ⟨le_rfl, rfl, rfl⟩

/-- Operations on a buffer that has none: those that write nothing are passed. -/
theorem foldlM_empty_iff (mem : ℕ → UInt8) (ops : List WriteOp) :
    (∃ buf', ops.foldlM (fun buf op => op.run buf) (empty mem) = some buf' ∧
        buf'.Holds (ops.flatMap WriteOp.encode)) ↔
      (ops.flatMap WriteOp.encode).length < wordSize ∧
        Fits (firstWrite ops) (ops.flatMap WriteOp.encode).length := by
  induction ops with
  | nil => exact iff_of_true ⟨_, rfl, holds_empty mem⟩ ⟨by decide, fits_zero _⟩
  | cons op ops ih =>
    rw [List.foldlM_cons, List.flatMap_cons, firstWrite, op.run_eq]
    by_cases hnil : op.encode = []
    · rw [if_pos hnil, if_pos hnil, hnil, List.nil_append]
      exact ih
    · rw [if_neg hnil, if_neg hnil]
      obtain ⟨buf, hw, hd, hg⟩ := writeT_empty mem op.encode
      rw [hw]
      exact foldlM_holds_iff hd hg ops

theorem run_holds_iff (mem : ℕ → UInt8) (start : Start) (ops : List WriteOp) :
    (∃ buf, run mem start ops = some buf ∧ buf.Holds (written start ops)) ↔
      (written start ops).length < wordSize ∧
        Fits (firstBlock start ops) (written start ops).length := by
  cases start with
  | default => exact foldlM_empty_iff mem ops
  | data bs =>
    obtain ⟨buf, hw, hd, hg⟩ := writeT_empty mem bs
    rw [run, Start.make, hw]
    exact foldlM_holds_iff hd hg ops
  | allocate n =>
    obtain ⟨hd, hg⟩ := grown_allocate mem n
    exact foldlM_holds_iff hd (fun _ => hg) ops

/-! ### The operations one by one -/

theorem flatMap_take_le (ops : List WriteOp) (k : ℕ) :
    ((ops.take k).flatMap WriteOp.encode).length ≤ (ops.flatMap WriteOp.encode).length := by
  have hsplit : ops.flatMap WriteOp.encode =
      (ops.take k).flatMap WriteOp.encode ++ (ops.drop k).flatMap WriteOp.encode := by
    rw [← List.flatMap_append, List.take_append_drop]
  rw [hsplit, List.length_append]
  exact Nat.le_add_right _ _

theorem firstWrite_take (ops : List WriteOp) :
    ∀ k, (ops.take k).flatMap WriteOp.encode = [] ∨ firstWrite (ops.take k) = firstWrite ops := by
  induction ops with
  | nil =>
    intro k
    exact Or.inl (by simp)
  | cons op ops ih =>
    intro k
    cases k with
    | zero => exact Or.inl rfl
    | succ k =>
      rw [List.take_succ_cons, List.flatMap_cons, firstWrite, firstWrite]
      by_cases hnil : op.encode = []
      · rw [if_pos hnil, if_pos hnil, hnil, List.nil_append]
        exact ih k
      · rw [if_neg hnil, if_neg hnil]
        exact Or.inr rfl

/-- What all the operations have room for, the first of them have. -/
theorem fits_take {start : Start} {ops : List WriteOp}
    (h : Fits (firstBlock start ops) (written start ops).length) (k : ℕ) :
    Fits (firstBlock start (ops.take k)) (written start (ops.take k)).length := by
  have hle : (written start (ops.take k)).length ≤ (written start ops).length := by
    rw [written, written, List.length_append, List.length_append]
    exact Nat.add_le_add_left (flatMap_take_le ops k) _
  cases start with
  | default =>
    rcases firstWrite_take ops k with hnil | hfirst
    · rw [written, hnil]
      exact fits_zero _
    · rw [firstBlock, hfirst]
      exact h.mono hle
  | data bs => exact h.mono hle
  | allocate n => exact h.mono hle

/-- **After each operation the buffer is as it should be, if and only if the word
and the doublings of the first block have room for everything that is written.** -/
theorem forall_take_holds_iff (mem : ℕ → UInt8) (start : Start) (ops : List WriteOp) :
    (∀ k, ∃ buf, run mem start (ops.take k) = some buf ∧
        buf.Holds (written start (ops.take k))) ↔
      (written start ops).length < wordSize ∧
        Fits (firstBlock start ops) (written start ops).length := by
  constructor
  · intro h
    have hall := h ops.length
    rw [List.take_length] at hall
    exact (run_holds_iff mem start ops).mp hall
  · rintro ⟨hlt, hfits⟩ k
    apply (run_holds_iff mem start (ops.take k)).mpr
    refine ⟨lt_of_le_of_lt ?_ hlt, fits_take hfits k⟩
    rw [written, written, List.length_append, List.length_append]
    exact Nat.add_le_add_left (flatMap_take_le ops k) _

/-- A block of size 0 is doubled for ever. -/
theorem not_forall_take_holds_allocate_zero :
    ¬ ∀ k, ∃ buf, run (fun _ => 0) (.allocate 0) ([.uint8 7].take k) = some buf ∧
      buf.Holds (written (.allocate 0) ([.uint8 7].take k)) := by
  intro h
  obtain ⟨buf, hrun, -⟩ := h 1
  cases hrun

end SniffDogSniff.SdsBytesBuf
