import SniffDogSniff.Base.OrdMap
import SniffDogSniff.Common.SdsBytesBuf
import SniffDogSniff.Common.StringUtil
import SniffDogSniff.Kademlia.KadId

/-!
# Similarity hashes

A `SimHash` is an id whose every bit is a vote of the tokens of a text: a token
votes with the bit of its own hash, once for each time it occurs.  The votes are
counted in a signed byte.

The hash of a token and the digest of a title come from outside: `Hashing` stands
for `fnv128String` and for the digest function of the cryptographic library.

## Main definitions

* `Hashing` — the two hash functions.
* `SimHash`, `SimHash.init`, `SimHash.distance`.
* `SimHash.read`, `SimHash.write`.

## Main results

* `reads_read`, `writes_write` — the id goes through a buffer unchanged.
-/

namespace SniffDogSniff

open StringUtil SdsBytesBuf

def FNV128_BIT_SIZE : ℕ := 128

def FNV128_SIZE : ℕ := FNV128_BIT_SIZE / 8

def SIMHASH_DIGEST_LENGTH : ℕ := FNV128_BIT_SIZE

def SHA256_DIGEST_LENGTH : ℕ := 32

/-- The hash functions that the program calls. -/
class Hashing where
  /-- `fnv128String`: the hash of a token. -/
  fnv128String : Bytes → Fin FNV128_SIZE → UInt8
  /-- `SHA256`. -/
  sha256 : Bytes → Bytes
  length_sha256 : ∀ s, (sha256 s).length = SHA256_DIGEST_LENGTH

/-- Hash functions for messages in which nothing is hashed. -/
@[reducible] def Hashing.blank : Hashing where
  fnv128String _ _ := 0
  sha256 _ := List.replicate SHA256_DIGEST_LENGTH 0
  length_sha256 _ := List.length_replicate

/-- Read an id from a buffer; too few bytes leave the old one. -/
def KadId.readBytes (old : KadId) : Read KadId := do
  let r ← SdsBytesBuf.readBytes KAD_ID_LENGTH
  return (r.map KadId.ofBytes).getD old

/-- Write an id to a buffer. -/
def KadId.writeBytes (id : KadId) : Write := SdsBytesBuf.writeBytes id.id

theorem KadId.writes_writeBytes (id : KadId) : Writes id.writeBytes id.id :=
  SdsBytesBuf.writes_writeBytes id.id

theorem KadId.reads_readBytes (old id : KadId) : Reads old.readBytes id.id id := by
  have hread := (SdsBytesBuf.reads_readBytes id.id_ne_nil).map fun r => (r.map KadId.ofBytes).getD old
  rw [id.length_id, Option.map_some, Option.getD_some, KadId.ofBytes_id] at hread
  exact hread

structure SimHash where
  id : KadId
  deriving DecidableEq

namespace SimHash

section

variable [Hashing]

/-- `wordhash`. -/
structure Wordhash where
  weight : ℕ
  hash : Fin FNV128_SIZE → UInt8

/-- The order of the strings as keys. -/
def stringOrder : Comparator Bytes := (Comparator.ofKey fun c : UInt8 => (c.toNat : ℤ)).lex

omit [Hashing] in
/-- Strings that are equivalent as keys are equal. -/
theorem eq_of_stringOrder_equiv (a b : Bytes) (h : stringOrder.Equiv a b) : a = b := by
  refine Comparator.eq_of_lex_equiv (fun c d hcd => ?_) a b h
  have hlt := hcd.1
  have hgt := hcd.2
  simp only [Comparator.ofKey, decide_eq_false_iff_not, not_lt, Nat.cast_le] at hlt hgt
  exact UInt8.toNat_inj.mp (le_antisymm hgt hlt)

/-- The tokens with their numbers of occurrences and their hashes. -/
def tokenMults (tokens : List Bytes) : OrdMap stringOrder Wordhash :=
  tokens.foldl (fun m tok => m.alter tok ⟨0, Hashing.fnv128String tok⟩
    fun wh => { wh with weight := wh.weight + 1 }) ∅

/-- The vote of a token on bit `j` of byte `i`. -/
def vote (wh : Wordhash) (i : Fin FNV128_SIZE) (j : ℕ) : ℤ :=
  (if wh.hash i &&& (0x80 >>> UInt8.ofNat j) = 0 then -1 else 1) * wh.weight

/-- `simWeights[i * 8 + j]`, a signed byte. -/
def simWeight (mults : List Wordhash) (i : Fin FNV128_SIZE) (j : ℕ) : Int8 :=
  mults.foldl (fun w wh => Int8.ofInt (w.toInt + vote wh i j)) 0

/-- Byte `i` of the id. -/
def simByte (mults : List Wordhash) (i : Fin FNV128_SIZE) : UInt8 :=
  (List.range 8).foldl (fun b j => if 0 < (simWeight mults i j).toInt
    then b ||| (0x80 >>> UInt8.ofNat j) else b) 0

/-- `init`. -/
def init (tokens : List Bytes) : SimHash where
  id :=
    { id := (List.finRange FNV128_SIZE).map (simByte ((tokenMults tokens).entries.map Prod.snd))
      length_id := (List.length_map _).trans List.length_finRange }

/-- `SimHash(str)`. -/
def ofString (str : Bytes) : SimHash := init (tokenize str wordDelims wordCutset)

end

/-- The number of one bits of a byte, clearing the lowest one each round. -/
def popcount : ℕ → UInt8 → ℕ
  | 0, _ => 0
  | fuel + 1, n => if n = 0 then 0 else popcount fuel (n &&& (n - 1)) + 1

def distance (a b : SimHash) : ℕ := ((a.id - b.id).id.map (popcount 8)).sum

def read (old : SimHash) : Read SimHash := do
  let id ← old.id.readBytes
  return ⟨id⟩

def write (h : SimHash) : Write := h.id.writeBytes

theorem writes_write (h : SimHash) : Writes h.write h.id.id := h.id.writes_writeBytes

theorem reads_read (old h : SimHash) : Reads old.read h.id.id h :=
  (old.id.reads_readBytes h.id).map SimHash.mk

end SimHash

end SniffDogSniff
