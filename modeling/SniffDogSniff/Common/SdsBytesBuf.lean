import SniffDogSniff.Base.LittleEndian
import SniffDogSniff.Base.Traced

/-!
# The byte buffer

`SdsBytesBuf` is a growing block of memory with one position for reading and
writing.  The writers append; the readers take from the position on, and a
fixed-width reader that finds too few bytes takes none.  `readString` looks for
the terminator from the second byte on, as far as the byte behind the buffer.

The memory behind the block is there as well: `mem` goes on past `bufferSize`,
with contents that nothing is known about.

## Main definitions

* `SdsBytesBuf`, `SdsBytesBuf.bytes` — the buffer and its contents.
* `SdsBytesBuf.Write`, `SdsBytesBuf.Read` — a writer, which may fail to return,
  and a reader, with the places it looks at and the positions it moves to.
* `SdsBytesBuf.Writes`, `SdsBytesBuf.Reads` — a writer that appends given bytes,
  and a reader that turns given bytes into a value.

## Main results

* `writes_write`, `reads_read` — the two primitives.
* `writes_writeString`, `reads_readString` — strings, not empty and without NUL
  after the first byte.
-/

namespace SniffDogSniff

open Bytes

/-- The buffer: the memory from `buffer` on, and the block it was given. -/
structure SdsBytesBuf where
  mem : ℕ → UInt8
  /-- `buffer` is not null. -/
  allocated : Bool
  bufferSize : ℕ
  capacity : ℕ
  pos : ℕ

namespace SdsBytesBuf

/-- A new buffer, in front of memory with the given contents. -/
def empty (mem : ℕ → UInt8) : SdsBytesBuf := ⟨mem, false, 0, 0, 0⟩

/-! ### Memory -/

def allocate (size : ℕ) (buf : SdsBytesBuf) : SdsBytesBuf :=
  { buf with allocated := true, capacity := size }

/-- Double the capacity until it reaches `size`, at most `n` times; `none` if it
does not get there. -/
def grow (size : ℕ) : ℕ → ℕ → Option ℕ
  | 0, capacity => if size ≤ capacity then some capacity else none
  | n + 1, capacity => if size ≤ capacity then some capacity else grow size n (capacity * 2)

/-- `resize`; `size` doublings are enough for every capacity but 0, which the
source doubles for ever. -/
def resize (size : ℕ) (buf : SdsBytesBuf) : Option SdsBytesBuf :=
  if buf.allocated then (grow size size buf.capacity).map fun c => { buf with capacity := c }
  else some (buf.allocate size)

def rewind (buf : SdsBytesBuf) : SdsBytesBuf := { buf with pos := 0 }

/-- `size`. -/
def size (buf : SdsBytesBuf) : ℕ := buf.bufferSize

/-- The `n` bytes from `p` on. -/
def slice (mem : ℕ → UInt8) (p n : ℕ) : Bytes := (List.range n).map fun i => mem (p + i)

/-- The contents of the buffer. -/
def bytes (buf : SdsBytesBuf) : Bytes := slice buf.mem 0 buf.bufferSize

/-- Memory with some bytes copied to `p`. -/
def overlay (mem : ℕ → UInt8) (p : ℕ) (bs : Bytes) (i : ℕ) : UInt8 :=
  if p ≤ i then (bs[i - p]?).getD (mem i) else mem i

/-! ### Writing -/

/-- A writer; `none` where it does not return. -/
abbrev Write := SdsBytesBuf → Option SdsBytesBuf

/-- `write`. -/
def write (bs : Bytes) : Write := fun buf => do
  let buf ← buf.resize (buf.bufferSize + bs.length)
  return { buf with
    mem := overlay buf.mem buf.pos bs
    pos := buf.pos + bs.length
    bufferSize := buf.bufferSize + bs.length }

def writeBytes (bs : Bytes) : Write := fun buf => if bs = [] then some buf else write bs buf

/-- The bytes of a string on the wire. -/
def encodeString (s : Bytes) : Bytes := s ++ [0]

/-- `writeString`: the bytes of the string and its terminator. -/
def writeString (s : Bytes) : Write := write (encodeString s)

def writeUint8 (n : UInt8) : Write := write (Word.uint8.encode n)

def writeUint16 (n : UInt16) : Write := write (Word.uint16.encode n)

def writeUint32 (n : UInt32) : Write := write (Word.uint32.encode n)

def writeUint64 (n : UInt64) : Write := write (Word.uint64.encode n)

def writeBool (b : Bool) : Write := writeUint8 (if b then 1 else 0)

/-- `SdsBytesBuf(inp, size)`. -/
def ofBytes (mem : ℕ → UInt8) (bs : Bytes) : Option SdsBytesBuf := write bs (empty mem)

/-! ### Reading -/

/-- What a reader does with the memory. -/
inductive Access
  /-- It looks at the byte at an index. -/
  | look (i : ℕ)
  /-- It leaves the position at an index. -/
  | moveTo (p : ℕ)
  deriving DecidableEq

/-- A reader. -/
abbrev Read := Traced Access SdsBytesBuf

/-- `bufferSize - pos`, as a `size_t`. -/
def remaining (buf : SdsBytesBuf) : ℕ :=
  if buf.pos ≤ buf.bufferSize then buf.bufferSize - buf.pos
  -- the position has passed the end, and the difference wraps around
  else 2 ^ 64 + buf.bufferSize - buf.pos

/-- Looking at `n` bytes from `p` on. -/
def looks (p n : ℕ) : List Access := (List.range n).map fun i => .look (p + i)

/-- `read`: `size` bytes, or `none` and no move where so many do not remain. -/
def read (size : ℕ) : Read (Option Bytes) := fun buf =>
  if size ≤ buf.remaining then
    (looks buf.pos size ++ [.moveTo (buf.pos + size)], some (slice buf.mem buf.pos size),
      { buf with pos := buf.pos + size })
  else ([], none, buf)

/-- `readBytes`. -/
def readBytes (size : ℕ) : Read (Option Bytes) := if size = 0 then pure none else read size

/-- A fixed-width value, which stays `zero` where too few bytes remain. -/
def readWord {α : Type} (w : Word α) (zero : α) : Read α := do
  let r ← read w.width
  return (r.map w.decode).getD zero

def readUint8 : Read UInt8 := readWord Word.uint8 0

def readUint16 : Read UInt16 := readWord Word.uint16 0

def readUint32 : Read UInt32 := readWord Word.uint32 0

def readUint64 : Read UInt64 := readWord Word.uint64 0

def readBool : Read Bool := do
  let n ← readUint8
  return n == 1

/-- The loop of `readString`: `len` grows until a NUL is found at `cursor + len`,
for at most `n` more rounds. -/
def stringLength (mem : ℕ → UInt8) (cursor : ℕ) : ℕ → ℕ → ℕ
  | 0, len => len
  | n + 1, len => if mem (cursor + (len + 1)) = 0 then len + 1
      else stringLength mem cursor n (len + 1)

def readString : Read Bytes := fun buf =>
  -- a NUL in the first byte does not end the string, and the terminator is
  -- stepped over even where there is none
  let len := stringLength buf.mem buf.pos buf.remaining 0
  (looks (buf.pos + 1) len ++ looks buf.pos len ++ [.moveTo (buf.pos + len + 1)],
    slice buf.mem buf.pos len, { buf with pos := buf.pos + len + 1 })

/-! ### Slices of memory -/

@[simp] theorem length_slice (mem : ℕ → UInt8) (p n : ℕ) : (slice mem p n).length = n := by
  simp [slice]

@[simp] theorem getElem_slice (mem : ℕ → UInt8) (p n i : ℕ) (h : i < (slice mem p n).length) :
    (slice mem p n)[i] = mem (p + i) := by
  simp [slice]

theorem slice_succ (mem : ℕ → UInt8) (p n : ℕ) :
    slice mem p (n + 1) = mem p :: slice mem (p + 1) n := by
  rw [slice, slice, List.range_succ_eq_map, List.map_cons, List.map_map]
  congr 1
  apply List.map_congr_left
  intro i _
  rw [Function.comp_apply, Nat.add_assoc, Nat.add_comm 1 i]

theorem slice_add (mem : ℕ → UInt8) (p m n : ℕ) :
    slice mem p (m + n) = slice mem p m ++ slice mem (p + m) n := by
  induction m generalizing p with
  | zero => simp [slice]
  | succ m ih =>
    rw [Nat.succ_add, slice_succ, slice_succ, ih, List.cons_append, Nat.add_assoc, Nat.add_comm 1 m]

/-- Memory in front of an overlay is not changed by it. -/
theorem slice_overlay_of_le (mem : ℕ → UInt8) {q p n : ℕ} (h : q + n ≤ p) (bs : Bytes) :
    slice (overlay mem p bs) q n = slice mem q n := by
  apply List.map_congr_left
  intro i hi
  have hlt : ¬ p ≤ q + i := by
    have := List.mem_range.mp hi
    omega
  rw [overlay, if_neg hlt]

/-- Nor is memory behind it. -/
theorem slice_overlay_of_ge (mem : ℕ → UInt8) {q p n : ℕ} {bs : Bytes} (h : p + bs.length ≤ q) :
    slice (overlay mem p bs) q n = slice mem q n := by
  apply List.map_congr_left
  intro i _
  have hnone : bs[q + i - p]? = none := List.getElem?_eq_none (by omega)
  rw [overlay, hnone]
  split <;> rfl

/-- Two overlays, one behind the other, are one. -/
theorem overlay_append (mem : ℕ → UInt8) (p : ℕ) (bs bs' : Bytes) :
    overlay (overlay mem p bs) (p + bs.length) bs' = overlay mem p (bs ++ bs') := by
  funext i
  simp only [overlay]
  by_cases hp : p ≤ i
  · by_cases hq : p + bs.length ≤ i
    · have hbehind : bs.length ≤ i - p := by omega
      have hpos : i - p - bs.length = i - (p + bs.length) := by omega
      rw [if_pos hq, if_pos hp, if_pos hp, List.getElem?_append_right hbehind,
        List.getElem?_eq_none hbehind, Option.getD_none, hpos]
    · have hfront : i - p < bs.length := by omega
      rw [if_neg hq, if_pos hp, if_pos hp, List.getElem?_append_left hfront]
  · have hq : ¬ p + bs.length ≤ i := by omega
    rw [if_neg hq, if_neg hp, if_neg hp]

theorem slice_overlay_self (mem : ℕ → UInt8) (p : ℕ) (bs : Bytes) :
    slice (overlay mem p bs) p bs.length = bs := by
  apply List.ext_getElem
  · exact length_slice _ _ _
  · intro i _ hi
    rw [getElem_slice, overlay, if_pos (Nat.le_add_right _ _), Nat.add_sub_cancel_left,
      List.getElem?_eq_getElem hi, Option.getD_some]

theorem length_bytes (buf : SdsBytesBuf) : buf.bytes.length = buf.size := length_slice _ _ _

/-! ### Writers -/

/-- The state between two writes: the position is at the end, and doubling the
capacity makes it grow. -/
def AtEnd (buf : SdsBytesBuf) : Prop :=
  buf.pos = buf.bufferSize ∧ (buf.allocated = true → 0 < buf.capacity)

/-- The writer returns, and appends `bs`. -/
def Writes (w : Write) (bs : Bytes) : Prop :=
  ∀ buf, buf.AtEnd → ∃ buf', w buf = some buf' ∧ buf'.AtEnd ∧ buf'.bytes = buf.bytes ++ bs

theorem atEnd_empty (mem : ℕ → UInt8) : (empty mem).AtEnd := ⟨rfl, fun h => by cases h⟩

theorem exists_grow {size : ℕ} :
    ∀ n {capacity : ℕ}, 0 < capacity → size ≤ capacity + n →
      ∃ c, grow size n capacity = some c ∧ 0 < c := by
  intro n
  induction n with
  | zero =>
    intro capacity hpos hle
    exact ⟨capacity, if_pos hle, hpos⟩
  | succ n ih =>
    intro capacity hpos hle
    rw [grow]
    split
    · exact ⟨capacity, rfl, hpos⟩
    · exact ih (Nat.mul_pos hpos Nat.two_pos) (by omega)

theorem exists_resize {buf : SdsBytesBuf} {size : ℕ} (hsize : 0 < size)
    (hcap : buf.allocated = true → 0 < buf.capacity) :
    ∃ c, 0 < c ∧ buf.resize size = some { buf with allocated := true, capacity := c } := by
  rw [resize]
  by_cases hal : buf.allocated = true
  · obtain ⟨c, hc, hpos⟩ := exists_grow size (hcap hal) (Nat.le_add_left size buf.capacity)
    refine ⟨c, hpos, ?_⟩
    rw [if_pos hal, hc, Option.map_some]
    rw [← hal]
  · exact ⟨size, hsize, if_neg hal⟩

/-- **The primitive writer**, for at least one byte. -/
theorem writes_write {bs : Bytes} (hbs : bs ≠ []) : Writes (write bs) bs := by
  intro buf hend
  have hpos : 0 < bs.length := List.length_pos_iff.mpr hbs
  have hsize : 0 < buf.bufferSize + bs.length := Nat.add_pos_right _ hpos
  obtain ⟨c, hc, hresize⟩ := exists_resize hsize hend.2
  refine ⟨_, by rw [write, hresize]; rfl, ⟨?_, fun _ => hc⟩, ?_⟩
  · exact congrArg (· + bs.length) hend.1
  · -- the old contents lie in front of the copied bytes
    have hold := slice_overlay_of_le buf.mem (Nat.zero_add buf.bufferSize).le bs
    show slice (overlay buf.mem buf.pos bs) 0 (buf.bufferSize + bs.length) = buf.bytes ++ bs
    rw [slice_add, hend.1, hold, Nat.zero_add, slice_overlay_self]
    rfl

/-- One writer after the other. -/
theorem Writes.seq {w w' : Write} {bs bs' : Bytes} (h : Writes w bs) (h' : Writes w' bs') :
    Writes (fun buf => w buf >>= w') (bs ++ bs') := by
  intro buf hend
  obtain ⟨buf₁, hw, hend₁, hbytes₁⟩ := h buf hend
  obtain ⟨buf₂, hw', hend₂, hbytes₂⟩ := h' buf₁ hend₁
  refine ⟨buf₂, ?_, hend₂, by rw [hbytes₂, hbytes₁, List.append_assoc]⟩
  show w buf >>= w' = some buf₂
  rw [hw]
  exact hw'

/-- A loop over a list. -/
theorem writes_foldlM {α : Type} {w : α → Write} {encode : α → Bytes} {l : List α}
    (h : ∀ a ∈ l, Writes (w a) (encode a)) :
    Writes (fun buf => l.foldlM (fun buf a => w a buf) buf) (l.flatMap encode) := by
  induction l with
  | nil =>
    intro buf hend
    exact ⟨buf, rfl, hend, (List.append_nil _).symm⟩
  | cons a l ih =>
    have hrest := ih fun b hb => h b (List.mem_cons_of_mem _ hb)
    exact (h a List.mem_cons_self).seq hrest

theorem writes_word {α : Type} (w : Word α) (a : α) : Writes (write (w.encode a)) (w.encode a) := by
  apply writes_write
  apply List.ne_nil_of_length_pos
  rw [w.length_encode]
  exact w.width_pos

theorem writes_writeBytes (bs : Bytes) : Writes (writeBytes bs) bs := by
  intro buf hend
  by_cases hbs : bs = []
  · exact ⟨buf, if_pos hbs, hend, by rw [hbs, List.append_nil]⟩
  · obtain ⟨buf', hw, hrest⟩ := writes_write hbs buf hend
    exact ⟨buf', (if_neg hbs).trans hw, hrest⟩

theorem writes_writeString (s : Bytes) : Writes (writeString s) (encodeString s) :=
  writes_write (by simp [encodeString])

/-- A new buffer takes any bytes, also none. -/
theorem exists_ofBytes (mem : ℕ → UInt8) (bs : Bytes) : ∃ buf, ofBytes mem bs = some buf := by
  by_cases hbs : bs = []
  · subst hbs
    exact ⟨_, rfl⟩
  · obtain ⟨buf, hbuf, -⟩ := writes_write hbs _ (atEnd_empty mem)
    exact ⟨buf, hbuf⟩

/-! ### Readers -/

/-- The bytes from the position to the end of the buffer. -/
def At (buf : SdsBytesBuf) (rest : Bytes) : Prop :=
  buf.pos + rest.length = buf.bufferSize ∧ slice buf.mem buf.pos rest.length = rest

/-- The buffer with the position `n` bytes on. -/
def advance (buf : SdsBytesBuf) (n : ℕ) : SdsBytesBuf := { buf with pos := buf.pos + n }

/-- The reader takes exactly `bs` and makes `a` of it, whatever follows. -/
def Reads {α : Type} (r : Read α) (bs : Bytes) (a : α) : Prop :=
  ∀ buf rest, buf.At (bs ++ rest) → r.value buf = a ∧ r.final buf = buf.advance bs.length

theorem advance_advance (buf : SdsBytesBuf) (m n : ℕ) :
    (buf.advance m).advance n = buf.advance (m + n) := by
  rw [advance, advance, advance, Nat.add_assoc]

/-- What is written is there to be read. -/
theorem at_rewind (buf : SdsBytesBuf) : buf.rewind.At buf.bytes := by
  rw [At, bytes, length_slice]
  exact ⟨Nat.zero_add _, rfl⟩

theorem remaining_of_at {buf : SdsBytesBuf} {rest : Bytes} (h : buf.At rest) :
    buf.remaining = rest.length := by
  have hpos := h.1
  rw [remaining, if_pos (by omega)]
  omega

theorem slice_of_at {buf : SdsBytesBuf} {bs rest : Bytes} (h : buf.At (bs ++ rest)) :
    slice buf.mem buf.pos bs.length = bs ∧
      slice buf.mem (buf.pos + bs.length) rest.length = rest := by
  have hslice := h.2
  rw [List.length_append, slice_add] at hslice
  exact List.append_inj hslice (length_slice _ _ _)

theorem at_advance {buf : SdsBytesBuf} {bs rest : Bytes} (h : buf.At (bs ++ rest)) :
    (buf.advance bs.length).At rest := by
  have hpos := h.1
  rw [List.length_append] at hpos
  refine ⟨?_, (slice_of_at h).2⟩
  show buf.pos + bs.length + rest.length = buf.bufferSize
  omega

theorem events_read {buf : SdsBytesBuf} {n : ℕ} (h : n ≤ buf.remaining) :
    (read n).events buf = looks buf.pos n ++ [.moveTo (buf.pos + n)] := by
  simp only [read, Traced.events, if_pos h]

theorem value_read {buf : SdsBytesBuf} {n : ℕ} (h : n ≤ buf.remaining) :
    (read n).value buf = some (slice buf.mem buf.pos n) := by
  simp only [read, Traced.value, if_pos h]

theorem final_read {buf : SdsBytesBuf} {n : ℕ} (h : n ≤ buf.remaining) :
    (read n).final buf = buf.advance n := by
  simp only [read, Traced.final, if_pos h]
  rfl

/-- Too few bytes are left alone. -/
theorem read_of_lt {buf : SdsBytesBuf} {n : ℕ} (h : ¬ n ≤ buf.remaining) :
    (read n).events buf = [] ∧ (read n).value buf = none ∧ (read n).final buf = buf := by
  simp only [read, Traced.events, Traced.value, Traced.final, if_neg h]
  exact ⟨trivial, trivial, trivial⟩

/-- The length of the string that `readString` takes. -/
def nextLength (buf : SdsBytesBuf) : ℕ := stringLength buf.mem buf.pos buf.remaining 0

theorem events_readString (buf : SdsBytesBuf) :
    readString.events buf = looks (buf.pos + 1) buf.nextLength ++ looks buf.pos buf.nextLength ++
      [.moveTo (buf.pos + buf.nextLength + 1)] := rfl

theorem value_readString (buf : SdsBytesBuf) :
    readString.value buf = slice buf.mem buf.pos buf.nextLength := rfl

theorem final_readString (buf : SdsBytesBuf) :
    readString.final buf = buf.advance (buf.nextLength + 1) := rfl

theorem reads_pure {α : Type} (a : α) : Reads (pure a) [] a := fun _ _ _ => ⟨rfl, rfl⟩

/-- One reader after the other. -/
theorem Reads.bind {α β : Type} {r : Read α} {f : α → Read β} {bs bs' : Bytes} {a : α} {b : β}
    (h : Reads r bs a) (h' : Reads (f a) bs' b) : Reads (r >>= f) (bs ++ bs') b := by
  intro buf rest hat
  rw [List.append_assoc] at hat
  obtain ⟨hvalue, hfinal⟩ := h buf _ hat
  obtain ⟨hvalue', hfinal'⟩ := h' _ rest (at_advance hat)
  rw [Traced.value_bind, Traced.final_bind, hvalue, hfinal, List.length_append]
  exact ⟨hvalue', hfinal'.trans (advance_advance _ _ _)⟩

/-- A computation on the value alone. -/
theorem Reads.map {α β : Type} {r : Read α} {bs : Bytes} {a : α} (h : Reads r bs a) (f : α → β) :
    Reads (r >>= fun a => pure (f a)) bs (f a) := by
  have hbind := Reads.bind (f := fun a => pure (f a)) h (reads_pure (f a))
  rwa [List.append_nil] at hbind

/-- A counted loop whose rounds take the bytes of the elements of a list. -/
theorem reads_times {α β : Type} {f : ℕ → β → Read β} {g : β → α → β} {encode : α → Bytes} :
    ∀ (l : List α), (∀ a ∈ l, ∀ i b, Reads (f i b) (encode a) (g b a)) → ∀ i b,
      Reads (Traced.times f l.length i b) (l.flatMap encode) (l.foldl g b) := by
  intro l
  induction l with
  | nil => intro _ i b; exact reads_pure b
  | cons a l ih =>
    intro h i b
    rw [List.length_cons, Traced.times_succ, List.flatMap_cons, List.foldl_cons]
    refine (h a List.mem_cons_self i b).bind ?_
    exact ih (fun a' ha' => h a' (List.mem_cons_of_mem _ ha')) _ _

/-- **The primitive reader.** -/
theorem reads_read (bs : Bytes) : Reads (read bs.length) bs (some bs) := by
  intro buf rest hat
  have hle : bs.length ≤ buf.remaining := by
    rw [remaining_of_at hat, List.length_append]
    exact Nat.le_add_right _ _
  rw [value_read hle, final_read hle, (slice_of_at hat).1]
  exact ⟨rfl, rfl⟩

theorem reads_readBytes {bs : Bytes} (hbs : bs ≠ []) :
    Reads (readBytes bs.length) bs (some bs) := by
  rw [readBytes, if_neg (by simpa using hbs)]
  exact reads_read bs

theorem reads_word {α : Type} (w : Word α) (zero a : α) :
    Reads (readWord w zero) (w.encode a) a := by
  have hread := (reads_read (w.encode a)).map fun r => (r.map w.decode).getD zero
  rw [w.length_encode, Option.map_some, Option.getD_some, w.decode_encode] at hread
  exact hread

/-- The first NUL behind the first byte ends the loop. -/
theorem stringLength_of_nul {mem : ℕ → UInt8} {cursor L : ℕ} (hnul : mem (cursor + L) = 0) :
    ∀ n {len : ℕ}, len < L → L ≤ len + n → (∀ i, len < i → i < L → mem (cursor + i) ≠ 0) →
      stringLength mem cursor n len = L := by
  intro n
  induction n with
  | zero => intro len hlt hle _; omega
  | succ n ih =>
    intro len hlt hle hne
    rw [stringLength]
    by_cases hlast : len + 1 = L
    · rw [if_pos (hlast ▸ hnul), hlast]
    · rw [if_neg (hne (len + 1) (by omega) (by omega))]
      exact ih (by omega) (by omega) fun i hi => hne i (by omega)

/-- Without one, the loop uses up its rounds. -/
theorem stringLength_of_forall_ne {mem : ℕ → UInt8} {cursor : ℕ} :
    ∀ n {len : ℕ}, (∀ i, len < i → i < len + n → mem (cursor + i) ≠ 0) →
      stringLength mem cursor n len = len + n := by
  intro n
  induction n with
  | zero => intro len _; rfl
  | succ n ih =>
    intro len hne
    rw [stringLength]
    cases n with
    | zero => simp [stringLength]
    | succ n =>
      rw [if_neg (hne (len + 1) (by omega) (by omega)), ih fun i hi hi' => hne i (by omega) (by omega)]
      omega

theorem getElem_of_at {buf : SdsBytesBuf} {rest : Bytes} (h : buf.At rest) {i : ℕ}
    (hi : i < rest.length) : buf.mem (buf.pos + i) = rest[i] := by
  have hslice : (slice buf.mem buf.pos rest.length)[i]? = rest[i]? :=
    congrArg (fun l : Bytes => l[i]?) h.2
  rw [List.getElem?_eq_getElem (by simpa using hi), List.getElem?_eq_getElem hi,
    getElem_slice] at hslice
  exact Option.some.inj hslice

/-- Where the loop of `readString` stops when a NUL follows behind the first byte. -/
theorem nextLength_of_at {buf : SdsBytesBuf} {s rest : Bytes} (hs : s ≠ []) (hnul : 0 ∉ s.tail)
    (hat : buf.At (s ++ 0 :: rest)) : buf.nextLength = s.length := by
  have hlen : (s ++ 0 :: rest).length = s.length + (rest.length + 1) := by simp
  have hpos : 0 < s.length := List.length_pos_iff.mpr hs
  apply stringLength_of_nul
  · rw [getElem_of_at hat (by omega)]
    simp
  · exact hpos
  · rw [remaining_of_at hat]
    omega
  · intro i hi hlt
    rw [getElem_of_at hat (by omega), List.getElem_append_left hlt]
    intro hzero
    apply hnul
    rw [List.mem_iff_getElem]
    refine ⟨i - 1, by rw [List.length_tail]; omega, ?_⟩
    rw [List.getElem_tail, ← hzero]
    congr 1
    omega

/-- Where it stops when none does: behind the last byte. -/
theorem nextLength_of_not_mem {buf : SdsBytesBuf} {c : UInt8} {s : Bytes} (hnul : 0 ∉ s)
    (hat : buf.At (c :: s)) : buf.nextLength = s.length + 1 := by
  rw [nextLength, remaining_of_at hat, stringLength_of_forall_ne, Nat.zero_add, List.length_cons]
  intro i hi hlt hzero
  rw [List.length_cons] at hlt
  rw [getElem_of_at hat (by rw [List.length_cons]; omega)] at hzero
  apply hnul
  rw [List.mem_iff_getElem]
  refine ⟨i - 1, by omega, ?_⟩
  rw [← hzero, List.getElem_cons, dif_neg (by omega)]

/-- **Strings**, not empty and without NUL behind the first byte. -/
theorem reads_readString {s : Bytes} (hs : s ≠ []) (hnul : 0 ∉ s.tail) :
    Reads readString (s ++ [0]) s := by
  intro buf rest hat
  rw [List.append_assoc] at hat
  rw [value_readString, final_readString, nextLength_of_at hs hnul hat, (slice_of_at hat).1]
  refine ⟨rfl, ?_⟩
  rw [List.length_append, List.length_singleton]

/-- Bytes that have been passed are not the terminator. -/
theorem ne_zero_of_lt_stringLength {mem : ℕ → UInt8} {cursor : ℕ} :
    ∀ n {len i : ℕ}, len < i → i < stringLength mem cursor n len → mem (cursor + i) ≠ 0 := by
  intro n
  induction n with
  | zero =>
    intro len i hi hlt
    rw [stringLength] at hlt
    omega
  | succ n ih =>
    intro len i hi hlt
    rw [stringLength] at hlt
    split at hlt
    · omega
    · next hne =>
      by_cases hlast : i = len + 1
      · rwa [hlast]
      · exact ih (by omega) hlt

theorem le_stringLength {mem : ℕ → UInt8} {cursor : ℕ} :
    ∀ n {len : ℕ}, len ≤ stringLength mem cursor n len := by
  intro n
  induction n with
  | zero => exact le_rfl
  | succ n ih =>
    intro len
    rw [stringLength]
    split
    · exact Nat.le_succ len
    · exact (Nat.le_succ len).trans ih

/-- A byte is taken wherever there is one. -/
theorem nextLength_pos {buf : SdsBytesBuf} (h : buf.remaining ≠ 0) : 0 < buf.nextLength := by
  obtain ⟨n, hn⟩ := Nat.exists_eq_succ_of_ne_zero h
  rw [nextLength, hn, stringLength]
  split
  · exact Nat.zero_lt_one
  · exact Nat.lt_of_lt_of_le Nat.zero_lt_one (le_stringLength n)

/-! ### Clean strings -/

/-- A string that `readString` finds again: not empty, and without the terminator
behind the first byte. -/
def Readable (s : Bytes) : Prop := s ≠ [] ∧ 0 ∉ s.tail

instance (s : Bytes) : Decidable (Readable s) := inferInstanceAs (Decidable (_ ∧ _))

theorem reads_of_readable {s : Bytes} (hs : Readable s) : Reads readString (encodeString s) s :=
  reads_readString hs.1 hs.2

/-- **`readString` gives back exactly the readable strings.** -/
theorem value_readString_iff {buf : SdsBytesBuf} {s rest : Bytes}
    (hat : buf.At (encodeString s ++ rest)) : readString.value buf = s ↔ Readable s := by
  refine ⟨fun h => ?_, fun h => (reads_of_readable h buf rest hat).1⟩
  rw [value_readString] at h
  have hlen : s.length = buf.nextLength := by rw [← h, length_slice]
  have hremaining : buf.remaining ≠ 0 := by
    rw [remaining_of_at hat]
    simp [encodeString]
  have hpos := nextLength_pos hremaining
  refine ⟨List.ne_nil_of_length_pos (by omega), fun hmem => ?_⟩
  obtain ⟨i, hi, hzero⟩ := List.mem_iff_getElem.mp hmem
  rw [List.length_tail] at hi
  -- the NUL would have ended the loop
  have hne := ne_zero_of_lt_stringLength buf.remaining (Nat.succ_pos i)
    (show i + 1 < stringLength buf.mem buf.pos buf.remaining 0 by
      show i + 1 < buf.nextLength
      omega)
  apply hne
  rw [List.getElem_tail] at hzero
  have hlt : i + 1 < (encodeString s).length := by
    rw [encodeString, List.length_append]
    omega
  rw [getElem_of_at hat (by rw [List.length_append]; omega), ← hzero,
    List.getElem_append_left hlt]
  exact List.getElem_append_left (by omega)

/-- A string that is not empty and does not contain the terminator. -/
def CleanString (s : Bytes) : Prop := s ≠ [] ∧ 0 ∉ s

instance (s : Bytes) : Decidable (CleanString s) := inferInstanceAs (Decidable (_ ∧ _))

theorem CleanString.readable {s : Bytes} (hs : CleanString s) : Readable s :=
  ⟨hs.1, fun h => hs.2 (List.mem_of_mem_tail h)⟩

theorem reads_encodeString {s : Bytes} (hs : CleanString s) :
    Reads readString (encodeString s) s := reads_of_readable hs.readable

/-- **What a writer appends to a new buffer, the reader takes from it**, all of
it, after `rewind`. -/
theorem exists_write_read {α : Type} {w : Write} {r : Read α} {bs : Bytes} {a : α}
    (hw : Writes w bs) (hr : Reads r bs a) (mem : ℕ → UInt8) :
    ∃ buf, w (empty mem) = some buf ∧ buf.bytes = bs ∧ r.value buf.rewind = a ∧
      (r.final buf.rewind).pos = buf.size := by
  obtain ⟨buf, hwrite, -, hbytes⟩ := hw _ (atEnd_empty mem)
  have hcontents : buf.bytes = bs := hbytes
  have hat : buf.rewind.At (bs ++ []) := by
    rw [List.append_nil, ← hcontents]
    exact at_rewind buf
  obtain ⟨hvalue, hfinal⟩ := hr _ _ hat
  refine ⟨buf, hwrite, hcontents, hvalue, ?_⟩
  have hsize := hat.1
  rw [List.append_nil] at hsize
  rw [hfinal]
  exact hsize

end SdsBytesBuf

end SniffDogSniff
