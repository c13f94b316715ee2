import SniffDogSniff.Common.SdsBytesBuf

/-!
# Typed values in a buffer

A sequence of typed writes, and the same sequence of typed reads after `rewind`.  A
fixed-width value takes as many bytes as it was given; a string is given its bytes and
a terminator, but its reader takes the first of them whatever it is.

## Main definitions

* `TypedValue` — a value of one of the types that have a writer and a reader.
* `TypedValue.write`, `TypedValue.read` — its writer, and the reader of its type.
* `TypedValue.writeAll`, `TypedValue.readAll` — sequences of them.
* `TypedValue.RoundTrips` — the reads return what was written, and end at `size`.

## Main results

* `reads_readAll` — values without an empty string among them are read back.
* `value_readAll_ne` — others are not.
* `roundTrips_iff` — **so a sequence comes back exactly where it has no empty
  string.**
-/

namespace SniffDogSniff

open Bytes SdsBytesBuf

/-- A value that is written to a buffer. -/
inductive TypedValue
  | uint8 (n : UInt8)
  | uint16 (n : UInt16)
  | uint32 (n : UInt32)
  | uint64 (n : UInt64)
  | bool (b : Bool)
  | bytes (bs : Bytes)
  | string (s : Bytes)
  deriving DecidableEq

namespace TypedValue

/-- The writer of a value. -/
def write : TypedValue → Write
  | uint8 n => writeUint8 n
  | uint16 n => writeUint16 n
  | uint32 n => writeUint32 n
  | uint64 n => writeUint64 n
  | bool b => writeBool b
  | bytes bs => writeBytes bs
  | string s => writeString s

/-- The reader of the type of a value; bytes are read by their number. -/
def read : TypedValue → Read TypedValue
  | uint8 _ => do return uint8 (← readUint8)
  | uint16 _ => do return uint16 (← readUint16)
  | uint32 _ => do return uint32 (← readUint32)
  | uint64 _ => do return uint64 (← readUint64)
  | bool _ => do return bool (← readBool)
  | bytes bs => do return bytes ((← readBytes bs.length).getD [])
  | string _ => do return string (← readString)

/-- The bytes of a value. -/
def encode : TypedValue → Bytes
  | uint8 n => Word.uint8.encode n
  | uint16 n => Word.uint16.encode n
  | uint32 n => Word.uint32.encode n
  | uint64 n => Word.uint64.encode n
  | bool b => Word.uint8.encode (if b then 1 else 0)
  | bytes bs => bs
  | string s => encodeString s

/-- A block of bytes is not empty, and a string has no NUL. -/
def Admissible : TypedValue → Prop
  | bytes bs => bs ≠ []
  | string s => 0 ∉ s
  | _ => True

instance : DecidablePred Admissible
  | uint8 _ => isTrue trivial
  | uint16 _ => isTrue trivial
  | uint32 _ => isTrue trivial
  | uint64 _ => isTrue trivial
  | bool _ => isTrue trivial
  | bytes bs => inferInstanceAs (Decidable (bs ≠ []))
  | string s => inferInstanceAs (Decidable (0 ∉ s))

/-! ### Sequences -/

/-- One write after the other. -/
def writeAll (vs : List TypedValue) : Write := fun buf => vs.foldlM (fun buf v => v.write buf) buf

/-- One read after the other, for the types of the values. -/
def readAll : List TypedValue → Read (List TypedValue)
  | [] => pure []
  | v :: vs => do
      let r ← v.read
      let rs ← readAll vs
      return r :: rs

/-- The values are written to a new buffer, in front of memory with the given
contents; the reads after `rewind` return them in order and end at `size`. -/
def RoundTrips (mem : ℕ → UInt8) (vs : List TypedValue) : Prop :=
  ∃ buf, writeAll vs (SdsBytesBuf.empty mem) = some buf ∧
    (readAll vs).value buf.rewind = vs ∧ ((readAll vs).final buf.rewind).pos = buf.size

theorem writes_write (v : TypedValue) : Writes v.write v.encode := by
  cases v with
  | uint8 n => exact writes_word Word.uint8 n
  | uint16 n => exact writes_word Word.uint16 n
  | uint32 n => exact writes_word Word.uint32 n
  | uint64 n => exact writes_word Word.uint64 n
  | bool b => exact writes_word Word.uint8 _
  | bytes bs => exact writes_writeBytes bs
  | string s => exact writes_writeString s

theorem reads_readBool (b : Bool) : Reads readBool (Word.uint8.encode (if b then 1 else 0)) b := by
  have hread := (reads_word Word.uint8 0 (if b then 1 else 0)).map fun n => n == 1
  cases b with
  | false => exact hread
  | true => exact hread

/-- **Every admissible value but the empty string is read back.** -/
theorem reads_read {v : TypedValue} (hv : v.Admissible) (hne : v ≠ string []) :
    Reads v.read v.encode v := by
  cases v with
  | uint8 n => exact (reads_word Word.uint8 0 n).map uint8
  | uint16 n => exact (reads_word Word.uint16 0 n).map uint16
  | uint32 n => exact (reads_word Word.uint32 0 n).map uint32
  | uint64 n => exact (reads_word Word.uint64 0 n).map uint64
  | bool b => exact (reads_readBool b).map bool
  | bytes bs => exact (reads_readBytes hv).map fun r => bytes (r.getD [])
  | string s =>
    have hclean : CleanString s := ⟨fun hs => hne (hs ▸ rfl), hv⟩
    exact (reads_encodeString hclean).map string

theorem writes_writeAll (vs : List TypedValue) : Writes (writeAll vs) (vs.flatMap encode) :=
  writes_foldlM fun v _ => v.writes_write

theorem reads_readAll {vs : List TypedValue} (hvs : ∀ v ∈ vs, v.Admissible)
    (hne : string [] ∉ vs) : Reads (readAll vs) (vs.flatMap encode) vs := by
  induction vs with
  | nil => exact reads_pure []
  | cons v vs ih =>
    have hv : v ≠ string [] := fun h => hne (h ▸ List.mem_cons_self)
    have hrest := ih (fun w hw => hvs w (List.mem_cons_of_mem _ hw))
      fun hmem => hne (List.mem_cons_of_mem _ hmem)
    rw [List.flatMap_cons]
    exact (reads_read (hvs v List.mem_cons_self) hv).bind (hrest.map (v :: ·))

/-- The reader of a string never returns the empty one: it takes the terminator. -/
theorem value_read_empty_ne {buf : SdsBytesBuf} {rest : Bytes}
    (hat : buf.At ((string []).encode ++ rest)) : (string []).read.value buf ≠ string [] := by
  intro h
  have hread : readString.value buf = [] := TypedValue.string.inj h
  exact ((value_readString_iff hat).mp hread).1 rfl

/-- **The first empty string of a sequence is not read back.** -/
theorem value_readAll_ne {vs : List TypedValue} (hvs : ∀ v ∈ vs, v.Admissible)
    (hmem : string [] ∈ vs) :
    ∀ {buf : SdsBytesBuf} {rest : Bytes}, buf.At (vs.flatMap encode ++ rest) →
      (readAll vs).value buf ≠ vs := by
  induction vs with
  | nil => cases hmem
  | cons v vs ih =>
    intro buf rest hat heq
    rw [List.flatMap_cons, List.append_assoc] at hat
    rw [readAll, Traced.value_bind, Traced.value_bind, Traced.value_pure] at heq
    obtain ⟨hhead, htail⟩ := List.cons.inj heq
    by_cases hv : v = string []
    · subst hv
      exact value_read_empty_ne hat hhead
    -- what comes before it is read as it was written
    · have hfinal := (reads_read (hvs v List.mem_cons_self) hv buf _ hat).2
      have hmem' : string [] ∈ vs := (List.mem_cons.mp hmem).resolve_left (Ne.symm hv)
      rw [hfinal] at htail
      exact ih (fun w hw => hvs w (List.mem_cons_of_mem _ hw)) hmem' (at_advance hat) htail

theorem not_roundTrips_of_mem (mem : ℕ → UInt8) {vs : List TypedValue}
    (hvs : ∀ v ∈ vs, v.Admissible) (hmem : string [] ∈ vs) : ¬ RoundTrips mem vs := by
  rintro ⟨buf, hwrite, hread, -⟩
  obtain ⟨buf', hwrite', -, hbytes⟩ := writes_writeAll vs _ (atEnd_empty mem)
  obtain rfl := Option.some.inj (hwrite.symm.trans hwrite')
  have hcontents : buf.bytes = vs.flatMap encode := hbytes
  have hat : buf.rewind.At (vs.flatMap encode ++ []) := by
    rw [List.append_nil, ← hcontents]
    exact at_rewind buf
  exact value_readAll_ne hvs hmem hat hread

/-- **A sequence of admissible values comes back exactly where it has no empty
string.** -/
theorem roundTrips_iff (mem : ℕ → UInt8) {vs : List TypedValue} (hvs : ∀ v ∈ vs, v.Admissible) :
    RoundTrips mem vs ↔ string [] ∉ vs := by
  refine ⟨fun h hmem => not_roundTrips_of_mem mem hvs hmem h, fun hne => ?_⟩
  obtain ⟨buf, hwrite, -, hvalue, hpos⟩ :=
    exists_write_read (writes_writeAll vs) (reads_readAll hvs hne) mem
  exact ⟨buf, hwrite, hvalue, hpos⟩

/-- An empty string, and a byte. -/
def emptyThenByte : List TypedValue := [string [], uint8 7]

theorem emptyThenByte_not_roundTrips : ¬ RoundTrips (fun _ => 0) emptyThenByte :=
  not_roundTrips_of_mem _ (by decide) (by decide)

theorem roundTrips_iff_byteThenWord :
    RoundTrips (fun _ => 0) [uint8 7, string [97, 98]] ↔
      string [] ∉ [uint8 7, string [97, 98]] :=
  roundTrips_iff _ (by decide)

end TypedValue

end SniffDogSniff
