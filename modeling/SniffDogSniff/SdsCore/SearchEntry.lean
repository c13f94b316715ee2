import SniffDogSniff.SdsCore.SimHash
import Mathlib.Data.Fintype.Card

/-!
# Search entries

An entry has a title, a url, a type and properties; its digest is that of the
title, recomputed whenever a title is read, while the similarity hash goes over
the wire.

## Main definitions

* `EntryType` — the type of an entry; a byte without a name is kept.
* `SearchEntry` — an entry together with the proof that its digest is up to date.
* `SearchEntry.read`, `SearchEntry.write`, `SearchEntry.encode`.
* `SearchEntry.hasValidSize`, `SearchEntry.matchesQuery`.
* `SearchEntry.Clean` — strings that are not empty and have no NUL.

## Main results

* `writes_write`, `reads_read` — **a clean entry goes through a buffer unchanged.**
-/

namespace SniffDogSniff

open Bytes StringUtil SdsBytesBuf

def MAX_SEARCH_ENTRY_SIZE : ℕ := 20136

/-- `SearchEntry::Type`, which is cast from a byte. -/
inductive EntryType
  | SITE
  | IMAGE
  | VIDEO
  | unnamed (n : UInt8) (h : 3 ≤ n)
  deriving DecidableEq

namespace EntryType

/-- The cast from a byte. -/
def ofUint8 (n : UInt8) : EntryType :=
  if h : 3 ≤ n then unnamed n h else if n = 0 then SITE else if n = 1 then IMAGE else VIDEO

/-- The cast to a byte. -/
def toUint8 : EntryType → UInt8
  | SITE => 0
  | IMAGE => 1
  | VIDEO => 2
  | unnamed n _ => n

@[simp] theorem ofUint8_toUint8 (t : EntryType) : ofUint8 t.toUint8 = t := by
  cases t with
  | SITE => rfl
  | IMAGE => rfl
  | VIDEO => rfl
  | unnamed n h => exact dif_pos h

end EntryType

/-- The order of the property keys. -/
def propertyOrder : Comparator UInt8 := Comparator.ofKey fun k => (k.toNat : ℤ)

/-! ### Properties -/

/-- One property. -/
def readProperty (properties : OrdMap propertyOrder Bytes) :
    Read (OrdMap propertyOrder Bytes) := do
  let k ← readUint8
  let v ← readString
  return properties.set k v

def writeProperty (p : UInt8 × Bytes) : Write := fun buf => do
  let buf ← writeUint8 p.1 buf
  writeString p.2 buf

def encodeProperty (p : UInt8 × Bytes) : Bytes := Word.uint8.encode p.1 ++ encodeString p.2

theorem writes_writeProperty (p : UInt8 × Bytes) : Writes (writeProperty p) (encodeProperty p) :=
  (writes_word Word.uint8 p.1).seq (writes_writeString p.2)

theorem reads_readProperty {p : UInt8 × Bytes} (hp : CleanString p.2)
    (properties : OrdMap propertyOrder Bytes) :
    Reads (readProperty properties) (encodeProperty p) (properties.set p.1 p.2) := by
  refine (reads_word Word.uint8 0 p.1).bind ?_
  exact (reads_encodeString hp).map fun v => properties.set p.1 v

/-- A map of bytes to strings has no more entries than there are bytes. -/
theorem size_properties_le (m : OrdMap propertyOrder Bytes) : m.size ≤ 256 := by
  have hnodup : (m.entries.map fun p => p.1.toFin).Nodup := by
    rw [List.Nodup, List.pairwise_map]
    apply m.sorted.imp
    intro a b hlt heq
    have hkey : (a.1.toNat : ℤ) < b.1.toNat := by simpa [propertyOrder, Comparator.ofKey] using hlt
    rw [UInt8.toFin_inj.mp heq] at hkey
    exact absurd hkey (lt_irrefl _)
  have hcard := hnodup.length_le_card
  rwa [List.length_map, Fintype.card_fin] at hcard

/-- `SearchEntry`; the digest is always that of the title. -/
structure SearchEntry [Hashing] where
  hash : Bytes
  simHash : SimHash
  title : Bytes
  url : Bytes
  type : EntryType
  properties : OrdMap propertyOrder Bytes
  hash_eq : hash = Hashing.sha256 title
  deriving DecidableEq

namespace SearchEntry

variable [Hashing]

/-- An entry with its digest computed. -/
def ofFields (simHash : SimHash) (title url : Bytes) (type : EntryType)
    (properties : OrdMap propertyOrder Bytes) : SearchEntry where
  hash := Hashing.sha256 title
  simHash := simHash
  title := title
  url := url
  type := type
  properties := properties
  hash_eq := rfl

/-- An entry is its other fields with the digest computed. -/
theorem eq_ofFields (se : SearchEntry) :
    ofFields se.simHash se.title se.url se.type se.properties = se := by
  obtain ⟨hash, simHash, title, url, type, properties, rfl⟩ := se
  rfl

/-- `SearchEntry(title, url, type, properties)`. -/
def new (title url : Bytes) (type : EntryType) (properties : OrdMap propertyOrder Bytes) :
    SearchEntry :=
  ofFields (SimHash.ofString title) title url type properties

/-- `SearchEntry()`. -/
def default : SearchEntry := new [] [] .SITE ∅

/-! ### The digest as a key -/

/-- `SearchEntry::Hash::operator<`: the first eight bytes as a number. -/
def hashOrder : Comparator Bytes := Comparator.ofKey fun h => (ofLe (h.take 8) : ℤ)

/-! ### Size and match -/

/-- `hasValidSize`. -/
def hasValidSize (se : SearchEntry) : Bool :=
  decide (SHA256_DIGEST_LENGTH + se.title.length + se.url.length + 1 + SIMHASH_DIGEST_LENGTH +
    (se.properties.entries.map fun p => 1 + p.2.length).sum ≤ MAX_SEARCH_ENTRY_SIZE)

/-- The url alone can be too long. -/
theorem hasValidSize_of_lt {se : SearchEntry} (h : MAX_SEARCH_ENTRY_SIZE < se.url.length) :
    se.hasValidSize = false := by
  rw [hasValidSize, decide_eq_false_iff_not]
  omega

/-- How many of the tokens occur in a string. -/
def countMatches (tokens : List Bytes) (s : Bytes) : ℕ :=
  (tokens.filter fun tok => (find tok s).isSome).length

/-- `matchesQuery`; the url is not lower-cased. -/
def matchesQuery (se : SearchEntry) (tokens : List Bytes) : Bool :=
  let nmatches := countMatches tokens (toLower se.title) + countMatches tokens se.url +
    (se.properties.entries.map fun p => countMatches tokens (toLower p.2)).sum
  if 1 < tokens.length ∧ 1 < ((split se.title [32]).getD []).length then decide (2 ≤ nmatches)
  else decide (nmatches ≠ 0)

/-! ### Through a buffer -/

def read (old : SearchEntry) : Read SearchEntry := do
  let simHash ← old.simHash.read
  let title ← readString
  let url ← readString
  let type ← readUint8
  let propsSize ← readUint32
  let properties ← Traced.times (fun _ => readProperty) propsSize.toNat 0 ∅
  return ofFields simHash title url (EntryType.ofUint8 type) properties

def write (se : SearchEntry) : Write := fun buf => do
  let buf ← se.simHash.write buf
  let buf ← writeString se.title buf
  let buf ← writeString se.url buf
  let buf ← writeUint8 se.type.toUint8 buf
  let buf ← writeUint32 (UInt32.ofNat se.properties.size) buf
  se.properties.entries.foldlM (fun buf p => writeProperty p buf) buf

/-- The bytes of an entry on the wire. -/
def encode (se : SearchEntry) : Bytes :=
  se.simHash.id.id ++ (encodeString se.title ++ (encodeString se.url ++
    (Word.uint8.encode se.type.toUint8 ++
      (Word.uint32.encode (UInt32.ofNat se.properties.size) ++
        se.properties.entries.flatMap encodeProperty))))

/-- The strings of the entry are clean. -/
def Clean (se : SearchEntry) : Prop :=
  CleanString se.title ∧ CleanString se.url ∧ ∀ p ∈ se.properties.entries, CleanString p.2

instance (se : SearchEntry) : Decidable se.Clean := inferInstanceAs (Decidable (_ ∧ _ ∧ _))

theorem writes_write (se : SearchEntry) : Writes se.write se.encode := by
  refine (se.simHash.writes_write).seq ?_
  refine (writes_writeString se.title).seq ?_
  refine (writes_writeString se.url).seq ?_
  refine (writes_word Word.uint8 _).seq ?_
  refine (writes_word Word.uint32 _).seq ?_
  exact writes_foldlM fun p _ => writes_writeProperty p

/-- **A clean entry is read back as it was written.** -/
theorem reads_read {se : SearchEntry} (hse : se.Clean) (old : SearchEntry) :
    Reads old.read se.encode se := by
  obtain ⟨htitle, hurl, hprops⟩ := hse
  refine (SimHash.reads_read old.simHash se.simHash).bind ?_
  refine (reads_encodeString htitle).bind ?_
  refine (reads_encodeString hurl).bind ?_
  refine (reads_word Word.uint8 0 se.type.toUint8).bind ?_
  refine (reads_word Word.uint32 0 (UInt32.ofNat se.properties.size)).bind ?_
  have hcount : (UInt32.ofNat se.properties.size).toNat = se.properties.entries.length := by
    have hle := size_properties_le se.properties
    rw [UInt32.toNat_ofNat', Nat.mod_eq_of_lt (by omega)]
    rfl
  have hloop := reads_times se.properties.entries
    (fun p hp _ m => reads_readProperty (hprops p hp) m) 0 ∅
  have hset : se.properties.entries.foldl (fun m p => m.set p.1 p.2) ∅ = se.properties :=
    OrdMap.foldl_set_entries se.properties
  rw [hset, ← hcount] at hloop
  have hmap := hloop.map fun properties =>
    ofFields se.simHash se.title se.url se.type properties
  rw [eq_ofFields] at hmap
  simp only [EntryType.ofUint8_toUint8]
  exact hmap

end SearchEntry

end SniffDogSniff
