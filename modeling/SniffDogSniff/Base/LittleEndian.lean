import Mathlib.Tactic.Ring

/-!
# Strings of bytes and little-endian words

## Main definitions

* `Bytes` — a string of bytes.
* `le n v`, `ofLe bs` — the low `n` bytes of a number, least significant first,
  and the number that bytes spell.
* `Word α` — a fixed-width value with its bytes; `Word.uint16`, `Word.int64` and
  so on are the machine integers, `Word.prod` and `Word.comap` make records of them.

## Main results

* `ofLe_le`, `le_ofLe` — spelling a number and reading it back, and the other way round.
-/

/-- A string of bytes. -/
abbrev Bytes := List UInt8

namespace Bytes

/-- The low `n` bytes of a number, least significant first. -/
def le : ℕ → ℕ → Bytes
  | 0, _ => []
  | n + 1, v => UInt8.ofNat v :: le n (v / 256)

/-- The number that bytes spell, least significant first. -/
def ofLe : Bytes → ℕ
  | [] => 0
  | b :: bs => b.toNat + 256 * ofLe bs

@[simp] theorem length_le (n v : ℕ) : (le n v).length = n := by
  induction n generalizing v with
  | zero => rfl
  | succ n ih => rw [le, List.length_cons, ih]

/-- Reading back the low bytes of a number. -/
theorem ofLe_le (n v : ℕ) : ofLe (le n v) = v % 256 ^ n := by
  induction n generalizing v with
  | zero => simp [le, ofLe, Nat.mod_one]
  | succ n ih =>
    rw [le, ofLe, ih, pow_succ, Nat.mul_comm (256 ^ n) 256, Nat.mod_mul]
    simp

/-- The low bytes depend on the low bits alone. -/
theorem le_congr {n v w : ℕ} (h : v % 256 ^ n = w % 256 ^ n) : le n v = le n w := by
  induction n generalizing v w with
  | zero => rfl
  | succ n ih =>
    rw [pow_succ, Nat.mul_comm (256 ^ n) 256, Nat.mod_mul, Nat.mod_mul] at h
    have hlow : v % 256 = w % 256 := by omega
    have hbyte : UInt8.ofNat v = UInt8.ofNat w := by
      rw [← UInt8.toNat_inj, UInt8.toNat_ofNat', UInt8.toNat_ofNat']
      exact hlow
    have hrest : v / 256 % 256 ^ n = w / 256 % 256 ^ n := by omega
    rw [le, le, hbyte, ih hrest]

theorem ofLe_le_of_lt {n v : ℕ} (h : v < 256 ^ n) : ofLe (le n v) = v := by
  rw [ofLe_le, Nat.mod_eq_of_lt h]

theorem ofLe_lt (bs : Bytes) : ofLe bs < 256 ^ bs.length := by
  induction bs with
  | nil => decide
  | cons b bs ih =>
    have hb : b.toNat < 256 := b.toNat_lt
    rw [ofLe, List.length_cons, pow_succ]
    omega

/-- Spelling the number that bytes spell. -/
theorem le_ofLe (bs : Bytes) : le bs.length (ofLe bs) = bs := by
  induction bs with
  | nil => rfl
  | cons b bs ih =>
    have hb : b.toNat < 256 := b.toNat_lt
    have hlow : UInt8.ofNat (b.toNat + 256 * ofLe bs) = b := by
      rw [← UInt8.toNat_inj, UInt8.toNat_ofNat']
      omega
    have hrest : (b.toNat + 256 * ofLe bs) / 256 = ofLe bs := by omega
    rw [ofLe, List.length_cons, le, hlow, hrest, ih]

/-- A value of fixed width, with its bytes. -/
structure Word (α : Type) where
  width : ℕ
  width_pos : 0 < width
  encode : α → Bytes
  decode : Bytes → α
  length_encode : ∀ a, (encode a).length = width
  decode_encode : ∀ a, decode (encode a) = a

namespace Word

attribute [simp] length_encode decode_encode

/-- `uint8_t`. -/
def uint8 : Word UInt8 where
  width := 1
  width_pos := by decide
  encode n := le 1 n.toNat
  decode bs := UInt8.ofNat (ofLe bs)
  length_encode _ := length_le _ _
  decode_encode n := by
    rw [ofLe_le_of_lt (show n.toNat < 256 ^ 1 from n.toNat_lt), UInt8.ofNat_toNat]

/-- `uint16_t`. -/
def uint16 : Word UInt16 where
  width := 2
  width_pos := by decide
  encode n := le 2 n.toNat
  decode bs := UInt16.ofNat (ofLe bs)
  length_encode _ := length_le _ _
  decode_encode n := by
    rw [ofLe_le_of_lt (show n.toNat < 256 ^ 2 from n.toNat_lt), UInt16.ofNat_toNat]

theorem encode_decode_uint16 {bs : Bytes} (h : bs.length = 2) :
    uint16.encode (uint16.decode bs) = bs := by
  have hlt : ofLe bs < 2 ^ 16 := by
    calc ofLe bs < 256 ^ bs.length := ofLe_lt bs
      _ = 2 ^ 16 := by rw [h]; rfl
  show le 2 (UInt16.ofNat (ofLe bs)).toNat = bs
  rw [UInt16.toNat_ofNat', Nat.mod_eq_of_lt hlt, ← h]
  exact le_ofLe bs

/-- `uint32_t`. -/
def uint32 : Word UInt32 where
  width := 4
  width_pos := by decide
  encode n := le 4 n.toNat
  decode bs := UInt32.ofNat (ofLe bs)
  length_encode _ := length_le _ _
  decode_encode n := by
    rw [ofLe_le_of_lt (show n.toNat < 256 ^ 4 from n.toNat_lt), UInt32.ofNat_toNat]

/-- `uint64_t`. -/
def uint64 : Word UInt64 where
  width := 8
  width_pos := by decide
  encode n := le 8 n.toNat
  decode bs := UInt64.ofNat (ofLe bs)
  length_encode _ := length_le _ _
  decode_encode n := by
    rw [ofLe_le_of_lt (show n.toNat < 256 ^ 8 from n.toNat_lt), UInt64.ofNat_toNat]

/-- `int32_t`. -/
def int32 : Word Int32 where
  width := 4
  width_pos := by decide
  encode n := uint32.encode n.toUInt32
  decode bs := (uint32.decode bs).toInt32
  length_encode _ := uint32.length_encode _
  decode_encode n := by rw [uint32.decode_encode, Int32.toInt32_toUInt32]

/-- `int64_t`. -/
def int64 : Word Int64 where
  width := 8
  width_pos := by decide
  encode n := uint64.encode n.toUInt64
  decode bs := (uint64.decode bs).toInt64
  length_encode _ := uint64.length_encode _
  decode_encode n := by rw [uint64.decode_encode, Int64.toInt64_toUInt64]

/-- One word behind the other. -/
def prod {α β : Type} (w : Word α) (v : Word β) : Word (α × β) where
  width := w.width + v.width
  width_pos := Nat.add_pos_left w.width_pos _
  encode a := w.encode a.1 ++ v.encode a.2
  decode bs := (w.decode (bs.take w.width), v.decode (bs.drop w.width))
  length_encode a := by rw [List.length_append, length_encode, length_encode]
  decode_encode a := by
    have hlen : w.width = (w.encode a.1).length := (w.length_encode a.1).symm
    rw [hlen, List.take_left, List.drop_left, decode_encode, decode_encode]

/-- A word for a record that is written as another value. -/
def comap {α β : Type} (w : Word α) (f : β → α) (g : α → β) (h : ∀ b, g (f b) = b) :
    Word β where
  width := w.width
  width_pos := w.width_pos
  encode b := w.encode (f b)
  decode bs := g (w.decode bs)
  length_encode b := w.length_encode (f b)
  decode_encode b := by rw [decode_encode, h]

theorem encode_ne_nil {α : Type} (w : Word α) (a : α) : w.encode a ≠ [] := by
  intro h
  have hlen := w.length_encode a
  have hpos := w.width_pos
  rw [h, List.length_nil] at hlen
  omega

/-- The value of bytes of exactly the width. -/
def decode? {α : Type} (w : Word α) (bs : Bytes) : Option α :=
  if bs.length = w.width then some (w.decode bs) else none

theorem decode?_encode {α : Type} (w : Word α) (a : α) : w.decode? (w.encode a) = some a := by
  rw [decode?, if_pos (w.length_encode a), decode_encode]

end Word

end Bytes
