import SniffDogSniff.SdsCore.SearchEntry

/-!
# The messages

Arguments and replies of the four procedures, each with its reader, its writer
and the bytes that it has on the wire.  A reader fills a message in place: what
it does not find keeps its old value, and an id that was never set has whatever
bytes the memory had.

## Main definitions

* `PingArgs`, …, `FindResultsReply`; `Message` is any of them, `MessageKind` says
  which one.
* `Fresh` — what is not determined in newly constructed messages.
* `Message.write`, `MessageKind.read`, `Message.encode`.
* `Message.Clean` — clean strings, and counts that fit their field.

## Main results

* `Message.writes_write`, `Message.reads_read` — the bytes of a message are what
  its writer appends and, for a clean one, what its reader takes.
* `FindNodeReply.value_read_iff` — **the reply of `findNode` comes back exactly
  where its addresses are readable.**
* `Message.roundTrip` — **a clean message that is written, rewound and read into
  a new message comes back, and nothing is left over.**
-/

namespace SniffDogSniff

open Bytes SdsBytesBuf

/-! ### Error and function codes -/

def ERR_NULL : UInt8 := 0
def ERR_RECV_REQUEST : UInt8 := 1
def ERR_REQ_ID : UInt8 := 2
def ERR_SERIALIZE : UInt8 := 3
def ERR_NOFUNCT : UInt8 := 4
def ERR_TYPE_ARGUMENT : UInt8 := 5
def ERR_CONNECTION : UInt8 := 6

def FUNC_PING : UInt8 := 100
def FUNC_FIND_NODE : UInt8 := 101
def FUNC_STORE_RESULT : UInt8 := 102
def FUNC_FIND_RESULTS : UInt8 := 103

/-! ### Undetermined values -/

/-- What is not determined when messages are constructed. -/
structure Fresh where
  /-- The random nonce of `PingArgs()`. -/
  nonce : UInt64
  /-- The bytes of an id that is declared without a value. -/
  id : KadId
  /-- The same for the ids in the rounds of a loop. -/
  nearestId : ℕ → KadId

/-- All bytes zero. -/
def Fresh.zero : Fresh := ⟨0, KadId.ofNat 0, fun _ => KadId.ofNat 0⟩

/-! ### Ping -/

structure PingArgs where
  nonce : UInt64
  id : KadId
  address : Bytes
  deriving DecidableEq

namespace PingArgs

def read (fresh : Fresh) : Read PingArgs := do
  let nonce ← readUint64
  let address ← readString
  let id ← fresh.id.readBytes
  return ⟨nonce, id, address⟩

def write (m : PingArgs) : Write := fun buf => do
  let buf ← writeUint64 m.nonce buf
  let buf ← writeString m.address buf
  m.id.writeBytes buf

def encode (m : PingArgs) : Bytes :=
  Word.uint64.encode m.nonce ++ (encodeString m.address ++ m.id.id)

theorem writes_write (m : PingArgs) : Writes m.write m.encode := by
  refine (writes_word Word.uint64 m.nonce).seq ?_
  exact (writes_writeString m.address).seq m.id.writes_writeBytes

theorem reads_read {m : PingArgs} (hm : CleanString m.address) (fresh : Fresh) :
    Reads (read fresh) m.encode m := by
  refine (reads_word Word.uint64 0 m.nonce).bind ?_
  refine (reads_encodeString hm).bind ?_
  exact (fresh.id.reads_readBytes m.id).map fun id => PingArgs.mk m.nonce id m.address

end PingArgs

structure PingReply where
  nonce : UInt64
  deriving DecidableEq

namespace PingReply

def read : Read PingReply := do
  let nonce ← readUint64
  return ⟨nonce⟩

def write (m : PingReply) : Write := writeUint64 m.nonce

def encode (m : PingReply) : Bytes := Word.uint64.encode m.nonce

theorem writes_write (m : PingReply) : Writes m.write m.encode := writes_word Word.uint64 m.nonce

theorem reads_read (m : PingReply) : Reads read m.encode m :=
  (reads_word Word.uint64 0 m.nonce).map PingReply.mk

end PingReply

/-! ### Find node -/

structure FindNodeArgs where
  targetId : KadId
  deriving DecidableEq

namespace FindNodeArgs

def read (fresh : Fresh) : Read FindNodeArgs := do
  let targetId ← fresh.id.readBytes
  return ⟨targetId⟩

def write (m : FindNodeArgs) : Write := m.targetId.writeBytes

def encode (m : FindNodeArgs) : Bytes := m.targetId.id

theorem writes_write (m : FindNodeArgs) : Writes m.write m.encode := m.targetId.writes_writeBytes

theorem reads_read (m : FindNodeArgs) (fresh : Fresh) : Reads (read fresh) m.encode m :=
  (fresh.id.reads_readBytes m.targetId).map FindNodeArgs.mk

end FindNodeArgs

/-- Nodes by their ids: the addresses. -/
abbrev NearestMap := OrdMap KadId.order Bytes

structure FindNodeReply where
  nearest : NearestMap
  deriving DecidableEq

namespace FindNodeReply

/-- One round of the loop of `read`. -/
def readNearest (fresh : Fresh) (i : ℕ) (nearest : NearestMap) : Read NearestMap := do
  let id ← (fresh.nearestId i).readBytes
  let addr ← readString
  return nearest.set id addr

def read (fresh : Fresh) (m : FindNodeReply) : Read FindNodeReply := do
  let size ← readUint32
  let nearest ← Traced.times (readNearest fresh) size.toNat 0 m.nearest
  return ⟨nearest⟩

def writeNearest (p : KadId × Bytes) : Write := fun buf => do
  let buf ← p.1.writeBytes buf
  writeString p.2 buf

def write (m : FindNodeReply) : Write := fun buf => do
  let buf ← writeUint32 (UInt32.ofNat m.nearest.size) buf
  m.nearest.entries.foldlM (fun buf p => writeNearest p buf) buf

def encodeNearest (p : KadId × Bytes) : Bytes := p.1.id ++ encodeString p.2

def encode (m : FindNodeReply) : Bytes :=
  Word.uint32.encode (UInt32.ofNat m.nearest.size) ++ m.nearest.entries.flatMap encodeNearest

/-- Clean addresses, and a number of nodes that fits its field. -/
def Clean (m : FindNodeReply) : Prop :=
  m.nearest.size < 2 ^ 32 ∧ ∀ p ∈ m.nearest.entries, CleanString p.2

instance (m : FindNodeReply) : Decidable m.Clean := inferInstanceAs (Decidable (_ ∧ _))

theorem writes_writeNearest (p : KadId × Bytes) : Writes (writeNearest p) (encodeNearest p) :=
  p.1.writes_writeBytes.seq (writes_writeString p.2)

theorem writes_write (m : FindNodeReply) : Writes m.write m.encode := by
  refine (writes_word Word.uint32 _).seq ?_
  exact writes_foldlM fun p _ => writes_writeNearest p

theorem reads_readNearest {p : KadId × Bytes} (hp : Readable p.2) (fresh : Fresh) (i : ℕ)
    (nearest : NearestMap) :
    Reads (readNearest fresh i nearest) (encodeNearest p) (nearest.set p.1 p.2) := by
  refine ((fresh.nearestId i).reads_readBytes p.1).bind ?_
  exact (reads_of_readable hp).map fun addr => nearest.set p.1 addr

theorem toNat_ofNat_size {n : ℕ} (h : n < 2 ^ 32) : (UInt32.ofNat n).toNat = n := by
  rw [UInt32.toNat_ofNat', Nat.mod_eq_of_lt h]

/-- The reader of a new message makes the map over again. -/
theorem reads_read_of_readable {m : FindNodeReply} (hsize : m.nearest.size < 2 ^ 32)
    (hm : ∀ p ∈ m.nearest.entries, Readable p.2) (fresh : Fresh) :
    Reads (read fresh ⟨∅⟩) m.encode m := by
  refine (reads_word Word.uint32 0 _).bind ?_
  have hloop := reads_times m.nearest.entries
    (fun p hp i nearest => reads_readNearest (hm p hp) fresh i nearest) 0 ∅
  have hset : m.nearest.entries.foldl (fun n p => n.set p.1 p.2) ∅ = m.nearest :=
    OrdMap.foldl_set_entries m.nearest
  rw [hset] at hloop
  rw [toNat_ofNat_size hsize]
  exact hloop.map FindNodeReply.mk

theorem reads_read {m : FindNodeReply} (hm : m.Clean) (fresh : Fresh) :
    Reads (read fresh ⟨∅⟩) m.encode m :=
  reads_read_of_readable hm.1 (fun p hp => (hm.2 p hp).readable) fresh

/-- The node that a round of the loop reads. -/
def readPair (fresh : Fresh) (i : ℕ) : Read (KadId × Bytes) := do
  let id ← (fresh.nearestId i).readBytes
  let addr ← readString
  return (id, addr)

/-- The nodes that `n` rounds read, in their order. -/
def pairs (fresh : Fresh) : ℕ → ℕ → SdsBytesBuf → List (KadId × Bytes)
  | 0, _, _ => []
  | n + 1, i, buf =>
      (readPair fresh i).value buf :: pairs fresh n (i + 1) ((readPair fresh i).final buf)

theorem length_pairs (fresh : Fresh) (n i : ℕ) (buf : SdsBytesBuf) :
    (pairs fresh n i buf).length = n := by
  induction n generalizing i buf with
  | zero => rfl
  | succ n ih => rw [pairs, List.length_cons, ih]

/-- The loop enters what its rounds read. -/
theorem value_times_readNearest (fresh : Fresh) (n i : ℕ) (nearest : NearestMap)
    (buf : SdsBytesBuf) : (Traced.times (readNearest fresh) n i nearest).value buf =
      nearest.setAll (pairs fresh n i buf) := by
  induction n generalizing i nearest buf with
  | zero => rfl
  | succ n ih =>
    rw [Traced.times_succ, Traced.value_bind, ih]
    rfl

/-- Rounds that read entries of the map from which the bytes are have read what was
written, one after the other. -/
theorem readable_of_pairs {m : NearestMap} (fresh : Fresh) :
    ∀ (es : List (KadId × Bytes)) (i : ℕ) (buf : SdsBytesBuf) (rest : Bytes),
      buf.At (es.flatMap encodeNearest ++ rest) → (∀ p ∈ es, p ∈ m.entries) →
      (∀ p ∈ pairs fresh es.length i buf, p ∈ m.entries) → ∀ p ∈ es, Readable p.2 := by
  intro es
  induction es with
  | nil => intro i buf rest _ _ _ p hp; cases hp
  | cons p es ih =>
    intro i buf rest hat hes hpairs
    rw [List.flatMap_cons, encodeNearest, List.append_assoc, List.append_assoc] at hat
    obtain ⟨hid, hfinal⟩ := (fresh.nearestId i).reads_readBytes p.1 buf _ hat
    have hat' := at_advance hat
    -- the id is read as it was written, so the map has one address for both
    have hpair : (readPair fresh i).value buf =
        (p.1, readString.value (buf.advance p.1.id.length)) := by
      simp only [readPair, Traced.value_bind, hid, hfinal]
      rfl
    have hread : readString.value (buf.advance p.1.id.length) = p.2 := by
      have hmem := hpairs _ List.mem_cons_self
      rw [hpair] at hmem
      have hequiv : KadId.order.Equiv p.1 p.1 := KadId.order_equiv_iff.mpr rfl
      exact congrArg Prod.snd (OrdMap.eq_of_equiv hmem (hes p List.mem_cons_self) hequiv)
    have hp : Readable p.2 := (value_readString_iff hat').mp hread
    have hrest : (readPair fresh i).final buf =
        (buf.advance p.1.id.length).advance (encodeString p.2).length := by
      simp only [readPair, Traced.final_bind, hid, hfinal]
      exact (reads_of_readable hp _ _ hat').2
    have hat'' := at_advance hat'
    rw [← hrest] at hat''
    have htail := ih (i + 1) _ rest hat'' (fun q hq => hes q (List.mem_cons_of_mem _ hq))
      fun q hq => hpairs q (List.mem_cons_of_mem _ hq)
    intro q hq
    rcases List.mem_cons.mp hq with rfl | hq
    · exact hp
    · exact htail q hq

/-- **A reply that is written comes back exactly where its addresses are
readable.** -/
theorem value_read_iff {m : FindNodeReply} (hsize : m.nearest.size < 2 ^ 32) (fresh : Fresh)
    {buf : SdsBytesBuf} (hat : buf.At m.encode) :
    (read fresh ⟨∅⟩).value buf = m ↔ ∀ p ∈ m.nearest.entries, Readable p.2 := by
  have hat₀ : buf.At (m.encode ++ []) := by rwa [List.append_nil]
  refine ⟨fun h => ?_, fun h => (reads_read_of_readable hsize h fresh buf [] hat₀).1⟩
  rw [encode] at hat
  obtain ⟨hword, hfinal⟩ := reads_word Word.uint32 0 (UInt32.ofNat m.nearest.size) buf _ hat
  have hvalue : (read fresh ⟨∅⟩).value buf = ⟨(∅ : NearestMap).setAll
      (pairs fresh m.nearest.entries.length 0 (buf.advance Word.uint32.width))⟩ := by
    have hcount : readUint32.value buf = UInt32.ofNat m.nearest.size := hword
    have hnext : readUint32.final buf = buf.advance Word.uint32.width := by
      rw [← Word.uint32.length_encode]
      exact hfinal
    simp only [read, Traced.value_bind, hcount, hnext, toNat_ofNat_size hsize,
      value_times_readNearest]
    rfl
  have hmap : (∅ : NearestMap).setAll
      (pairs fresh m.nearest.entries.length 0 (buf.advance Word.uint32.width)) = m.nearest :=
    congrArg FindNodeReply.nearest (hvalue.symm.trans h)
  -- as many rounds as nodes, so no round has read an id again
  have hgrow : ((∅ : NearestMap).setAll
      (pairs fresh m.nearest.entries.length 0 (buf.advance Word.uint32.width))).size =
        (∅ : NearestMap).size + (pairs fresh m.nearest.entries.length 0
          (buf.advance Word.uint32.width)).length := by
    rw [hmap, length_pairs]
    exact (Nat.zero_add _).symm
  have hat' := at_advance hat
  rw [Word.uint32.length_encode, ← List.append_nil (List.flatMap _ _)] at hat'
  refine readable_of_pairs fresh m.nearest.entries 0 _ [] hat' (fun p hp => hp) fun p hp => ?_
  rw [← hmap]
  exact OrdMap.mem_setAll_of_size hgrow (Or.inr hp)

end FindNodeReply

/-! ### Store result -/

section

variable [Hashing]

structure StoreResultArgs where
  se : SearchEntry
  deriving DecidableEq

namespace StoreResultArgs

def read (m : StoreResultArgs) : Read StoreResultArgs := do
  let se ← m.se.read
  return ⟨se⟩

def write (m : StoreResultArgs) : Write := m.se.write

def encode (m : StoreResultArgs) : Bytes := m.se.encode

theorem writes_write (m : StoreResultArgs) : Writes m.write m.encode := m.se.writes_write

theorem reads_read {m : StoreResultArgs} (hm : m.se.Clean) (old : StoreResultArgs) :
    Reads old.read m.encode m :=
  (SearchEntry.reads_read hm old.se).map StoreResultArgs.mk

end StoreResultArgs

end

/-! ### Find results -/

structure FindResultsArgs where
  query : Bytes
  deriving DecidableEq

namespace FindResultsArgs

def read : Read FindResultsArgs := do
  let query ← readString
  return ⟨query⟩

def write (m : FindResultsArgs) : Write := writeString m.query

def encode (m : FindResultsArgs) : Bytes := encodeString m.query

theorem writes_write (m : FindResultsArgs) : Writes m.write m.encode := writes_writeString m.query

theorem reads_read {m : FindResultsArgs} (hm : CleanString m.query) : Reads read m.encode m :=
  (reads_encodeString hm).map FindResultsArgs.mk

end FindResultsArgs

section

variable [Hashing]

structure FindResultsReply extends FindNodeReply where
  results : List SearchEntry
  deriving DecidableEq

namespace FindResultsReply

def hasResults (m : FindResultsReply) : Bool :=
  decide (0 < m.results.length) && m.nearest.entries.isEmpty

/-- One round of the loop of `read`. -/
def readResult (results : List SearchEntry) : Read (List SearchEntry) := do
  let se ← SearchEntry.default.read
  return results ++ [se]

def read (fresh : Fresh) (m : FindResultsReply) : Read FindResultsReply := do
  let nearest ← m.toFindNodeReply.read fresh
  let size ← readUint32
  let results ← Traced.times (fun _ => readResult) size.toNat 0 m.results
  return ⟨nearest, results⟩

def write (m : FindResultsReply) : Write := fun buf => do
  let buf ← m.toFindNodeReply.write buf
  let buf ← writeUint32 (UInt32.ofNat m.results.length) buf
  m.results.foldlM (fun buf se => se.write buf) buf

def encode (m : FindResultsReply) : Bytes :=
  m.toFindNodeReply.encode ++
    (Word.uint32.encode (UInt32.ofNat m.results.length) ++ m.results.flatMap SearchEntry.encode)

/-- Clean nodes and entries, and a number of entries that fits its field. -/
def Clean (m : FindResultsReply) : Prop :=
  m.toFindNodeReply.Clean ∧ m.results.length < 2 ^ 32 ∧ ∀ se ∈ m.results, se.Clean

instance (m : FindResultsReply) : Decidable m.Clean := inferInstanceAs (Decidable (_ ∧ _ ∧ _))

theorem writes_write (m : FindResultsReply) : Writes m.write m.encode := by
  refine m.toFindNodeReply.writes_write.seq ?_
  refine (writes_word Word.uint32 _).seq ?_
  exact writes_foldlM fun se _ => se.writes_write

theorem reads_readResult {se : SearchEntry} (hse : se.Clean) (results : List SearchEntry) :
    Reads (readResult results) se.encode (results ++ [se]) :=
  (SearchEntry.reads_read hse SearchEntry.default).map fun se => results ++ [se]

theorem reads_read {m : FindResultsReply} (hm : m.Clean) (fresh : Fresh) :
    Reads (read fresh ⟨⟨∅⟩, []⟩) m.encode m := by
  refine (FindNodeReply.reads_read hm.1 fresh).bind ?_
  refine (reads_word Word.uint32 0 _).bind ?_
  have hloop := reads_times m.results
    (fun se hse _ results => reads_readResult (hm.2.2 se hse) results) 0 []
  have happend : m.results.foldl (fun results se => results ++ [se]) [] = m.results := by
    rw [List.foldl_append_eq_append, ← List.flatMap_def, List.flatMap_singleton', List.nil_append]
  rw [happend] at hloop
  rw [FindNodeReply.toNat_ofNat_size hm.2.1]
  exact hloop.map fun results => FindResultsReply.mk m.toFindNodeReply results

end FindResultsReply

/-! ### Any message -/

/-- The messages that have a reader and a writer. -/
inductive MessageKind
  | pingArgs
  | pingReply
  | findNodeArgs
  | findNodeReply
  | storeResultArgs
  | findResultsArgs
  | findResultsReply
  deriving DecidableEq

inductive Message
  | pingArgs (m : PingArgs)
  | pingReply (m : PingReply)
  | findNodeArgs (m : FindNodeArgs)
  | findNodeReply (m : FindNodeReply)
  | storeResultArgs (m : StoreResultArgs)
  | findResultsArgs (m : FindResultsArgs)
  | findResultsReply (m : FindResultsReply)
  deriving DecidableEq

namespace Message

def kind : Message → MessageKind
  | pingArgs _ => .pingArgs
  | pingReply _ => .pingReply
  | findNodeArgs _ => .findNodeArgs
  | findNodeReply _ => .findNodeReply
  | storeResultArgs _ => .storeResultArgs
  | findResultsArgs _ => .findResultsArgs
  | findResultsReply _ => .findResultsReply

def write : Message → Write
  | pingArgs m => m.write
  | pingReply m => m.write
  | findNodeArgs m => m.write
  | findNodeReply m => m.write
  | storeResultArgs m => m.write
  | findResultsArgs m => m.write
  | findResultsReply m => m.write

def encode : Message → Bytes
  | pingArgs m => m.encode
  | pingReply m => m.encode
  | findNodeArgs m => m.encode
  | findNodeReply m => m.encode
  | storeResultArgs m => m.encode
  | findResultsArgs m => m.encode
  | findResultsReply m => m.encode

/-- The strings are clean, and the counts fit their fields. -/
def Clean : Message → Prop
  | pingArgs m => CleanString m.address
  | pingReply _ => True
  | findNodeArgs _ => True
  | findNodeReply m => m.Clean
  | storeResultArgs m => m.se.Clean
  | findResultsArgs m => CleanString m.query
  | findResultsReply m => m.Clean

end Message

/-- Read into a newly constructed message of a kind. -/
def MessageKind.read (fresh : Fresh) : MessageKind → Read Message
  | .pingArgs => do return .pingArgs (← PingArgs.read fresh)
  | .pingReply => do return .pingReply (← PingReply.read)
  | .findNodeArgs => do return .findNodeArgs (← FindNodeArgs.read fresh)
  | .findNodeReply => do return .findNodeReply (← FindNodeReply.read fresh ⟨∅⟩)
  | .storeResultArgs => do return .storeResultArgs (← StoreResultArgs.read ⟨SearchEntry.default⟩)
  | .findResultsArgs => do return .findResultsArgs (← FindResultsArgs.read)
  | .findResultsReply => do return .findResultsReply (← FindResultsReply.read fresh ⟨⟨∅⟩, []⟩)

namespace Message

theorem writes_write (m : Message) : Writes m.write m.encode := by
  cases m with
  | pingArgs m => exact m.writes_write
  | pingReply m => exact m.writes_write
  | findNodeArgs m => exact m.writes_write
  | findNodeReply m => exact m.writes_write
  | storeResultArgs m => exact m.writes_write
  | findResultsArgs m => exact m.writes_write
  | findResultsReply m => exact m.writes_write

theorem reads_read {m : Message} (hm : m.Clean) (fresh : Fresh) :
    Reads (m.kind.read fresh) m.encode m := by
  cases m with
  | pingArgs m => exact (PingArgs.reads_read hm fresh).map pingArgs
  | pingReply m => exact m.reads_read.map pingReply
  | findNodeArgs m => exact (m.reads_read fresh).map findNodeArgs
  | findNodeReply m => exact (FindNodeReply.reads_read hm fresh).map findNodeReply
  | storeResultArgs m => exact (StoreResultArgs.reads_read hm _).map storeResultArgs
  | findResultsArgs m => exact (FindResultsArgs.reads_read hm).map findResultsArgs
  | findResultsReply m => exact (FindResultsReply.reads_read hm fresh).map findResultsReply

/-- **A clean message that is written to a new buffer, rewound and read into a new
message comes back**, and the reader stops at the end of what was written. -/
theorem roundTrip (m : Message) (hm : m.Clean) (fresh : Fresh) (mem : ℕ → UInt8) :
    ∃ buf, m.write (SdsBytesBuf.empty mem) = some buf ∧
      (m.kind.read fresh).value buf.rewind = m ∧
      ((m.kind.read fresh).final buf.rewind).pos = buf.size := by
  obtain ⟨buf, hwrite, -, hvalue, hpos⟩ :=
    exists_write_read m.writes_write (reads_read hm fresh) mem
  exact ⟨buf, hwrite, hvalue, hpos⟩

/-- A reply that names two nodes and has an entry with two properties. -/
def fullReply : Message :=
  .findResultsReply
    { nearest := ((∅ : NearestMap).set (KadId.ofNat 1) [97]).set (KadId.ofNat 2) [98, 99]
      results := [.new [97, 98] [120] .SITE (((∅ : OrdMap propertyOrder Bytes).set 1 [121]).set 255
        [122, 122])] }

end Message

end

theorem Message.clean_fullReply :
    letI := Hashing.blank
    fullReply.Clean :=
  letI := Hashing.blank
  show FindResultsReply.Clean _ by decide +kernel

/-- Through a buffer in front of zeroed memory. -/
theorem Message.roundTrip_fullReply :
    letI := Hashing.blank
    ∃ buf, fullReply.write (SdsBytesBuf.empty fun _ => 0) = some buf ∧
      (fullReply.kind.read Fresh.zero).value buf.rewind = fullReply ∧
      ((fullReply.kind.read Fresh.zero).final buf.rewind).pos = buf.size :=
  letI := Hashing.blank
  Message.roundTrip fullReply clean_fullReply Fresh.zero fun _ => 0

end SniffDogSniff
