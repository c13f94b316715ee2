import SniffDogSniff.Kademlia.KadRoutingTable
import Mathlib.Data.List.TakeWhile

/-!
# The table file

`writeFile` saves the own id and, bucket by bucket, two counted lists of nodes;
`readFile` builds a table from such a file.  The writer saves an address of any
length behind its length modulo `2 ^ 16`.  The reader turns an empty address away
and reads every other one into a buffer of 512 bytes that also has to hold a
terminator, so what it reads back are the addresses of 1 to 511 bytes.

## Main definitions

* `KadRoutingTable.writeFile` — the bytes that reach a disk with some room left.
* `KadRoutingTable.readFile` — the table afterwards and the result, `none` where
  the source writes outside the address buffer.
* `KadRoutingTable.RoundTrips` — reading back what was written without error.
* `KadRoutingTable.AddressesFit` — the addresses that the reader can hold.

## Main results

* `roundTrips_iff_addressesFit` — **a table that a run reaches is read back
  exactly when its addresses fit.**
-/

namespace SniffDogSniff

open Bytes

/-- The size of the buffer that an address is read into. -/
def ADDRESS_BUFFER : ℕ := 512

namespace TableFile

/-! ### Writing -/

/-- A run of `fwrite` calls on a disk with `room` bytes left, stopping at the
first one that does not get all its bytes out: the result of the function, and
the bytes in the file.  The calls are not buffered here: with a buffer, the bytes of the
last calls reach the disk in `fclose`, whose result `writeFile` does not look at. -/
def fwriteAll (room : ℕ) : List Bytes → Bytes → ℤ × Bytes
  | [], file => (0, file)
  | c :: cs, file =>
      if file.length + c.length ≤ room then fwriteAll room cs (file ++ c)
      else (-1, (file ++ c).take room)

/-- The writes for one node. -/
def writeNode (kn : KadNode) : List Bytes :=
  [kn.id.id, Word.uint16.encode (UInt16.ofNat kn.address.length), kn.address,
    Word.int64.encode kn.lastSeen, Word.int32.encode kn.stales]

/-- The writes for one list of nodes. -/
def writeNodes (nodes : List KadNode) : List Bytes :=
  Word.int32.encode (Int32.ofNat nodes.length) :: nodes.flatMap writeNode

def writeBucket (b : KadBucket) : List Bytes := writeNodes b.nodes ++ writeNodes b.replacementNodes

/-! ### Reading -/

/-- Why reading stops: the file ends or has an empty address, and the function
returns -1; or the address buffer is overrun. -/
inductive Stop
  | failed
  | overrun
  deriving DecidableEq

/-- `fread` of `n` bytes, all of which are needed. -/
def fread (n : ℕ) (file : Bytes) : Except Stop (Bytes × Bytes) :=
  if n ≤ file.length then .ok (file.take n, file.drop n) else .error .failed

/-- Read an address of `addrLen` bytes into the buffer, put the terminator behind
it, and take the string that the buffer then holds. -/
def readAddress (addrLen : ℕ) (file : Bytes) : Except Stop (Bytes × Bytes) :=
  if addrLen = 0 then .error .failed
  -- what the file has goes into the buffer before the length is checked
  else if ADDRESS_BUFFER < min addrLen file.length then .error .overrun
  else if file.length < addrLen then .error .failed
  -- the terminator needs a place as well
  else if ADDRESS_BUFFER ≤ addrLen then .error .overrun
  else .ok ((file.take addrLen).takeWhile (· ≠ 0), file.drop addrLen)

/-- The body of both loops over nodes. -/
def readNode (file : Bytes) : Except Stop (KadNode × Bytes) := do
  let (id, file) ← fread KAD_ID_LENGTH file
  let (addrLen, file) ← fread 2 file
  let (address, file) ← readAddress (Word.uint16.decode addrLen).toNat file
  let (lastSeen, file) ← fread 8 file
  let (stales, file) ← fread 4 file
  return (⟨KadId.ofBytes id, address, Word.int64.decode lastSeen, Word.int32.decode stales⟩, file)

/-- `n` more nodes: the list as far as it got, and the rest of the file. -/
def readNodesLoop : ℕ → Bytes → List KadNode → List KadNode × Except Stop Bytes
  | 0, file, nodes => (nodes, .ok file)
  | n + 1, file, nodes =>
      match readNode file with
      | .error stop => (nodes, .error stop)
      | .ok (kn, file) => readNodesLoop n file (nodes ++ [kn])

/-- A counted list of nodes; a negative count is an empty list. -/
def readNodes (file : Bytes) : List KadNode × Except Stop Bytes :=
  match fread 4 file with
  | .error stop => ([], .error stop)
  | .ok (nodesCount, file) => readNodesLoop (Word.int32.decode nodesCount).toInt.toNat file []

def readBucket (file : Bytes) : KadBucket × Except Stop Bytes :=
  match readNodes file with
  | (nodes, .error stop) => (⟨nodes, []⟩, .error stop)
  | (nodes, .ok file) =>
      match readNodes file with
      | (replacementNodes, r) => (⟨nodes, replacementNodes⟩, r)

/-- Replace the listed buckets by what the file has for them. -/
def readBuckets : List (Fin KAD_ID_BIT_LENGTH) → (Fin KAD_ID_BIT_LENGTH → KadBucket) → Bytes →
    (Fin KAD_ID_BIT_LENGTH → KadBucket) × Except Stop Bytes
  | [], buckets, file => (buckets, .ok file)
  | i :: is, buckets, file =>
      match readBucket file with
      | (b, .error stop) => (Function.update buckets i b, .error stop)
      | (b, .ok file) => readBuckets is (Function.update buckets i b) file

/-! ### Reading what was written -/

/-- The reader can hold the address: it is not empty, and it leaves room for the
terminator. -/
def Fits (address : Bytes) : Prop := address ≠ [] ∧ address.length < ADDRESS_BUFFER

theorem fread_append {n : ℕ} {l : Bytes} (hl : l.length = n) (rest : Bytes) :
    fread n (l ++ rest) = .ok (l, rest) := by
  subst hl
  rw [fread, if_pos (by simp)]
  simp

/-- An address that fits is read back, the terminator coming from the reader. -/
theorem readAddress_append {a : Bytes} (ha : Fits a) (hnul : 0 ∉ a) (rest : Bytes) :
    readAddress a.length (a ++ rest) = .ok (a, rest) := by
  obtain ⟨hne, hlen⟩ := ha
  have hpos : a.length ≠ 0 := by simpa using hne
  have hmin : ¬ ADDRESS_BUFFER < min a.length (a ++ rest).length := by
    rw [List.length_append]
    omega
  rw [readAddress, if_neg hpos, if_neg hmin, if_neg (by simp), if_neg (by omega)]
  rw [List.take_left, List.drop_left, List.takeWhile_eq_self_iff.mpr]
  intro b hb
  simpa using ne_of_mem_of_not_mem hb hnul

/-- The length that the reader gets for an address. -/
theorem toNat_decode_length (a : Bytes) :
    (Word.uint16.decode (Word.uint16.encode (UInt16.ofNat a.length))).toNat =
      a.length % 2 ^ 16 := by
  rw [Word.decode_encode, UInt16.toNat_ofNat']

theorem flatten_writeNode_append (kn : KadNode) (rest : Bytes) :
    (writeNode kn).flatten ++ rest = kn.id.id ++
      (Word.uint16.encode (UInt16.ofNat kn.address.length) ++ (kn.address ++
        (Word.int64.encode kn.lastSeen ++ (Word.int32.encode kn.stales ++ rest)))) := by
  simp [writeNode]

/-- A written node up to its address. -/
theorem readNode_writeNode (kn : KadNode) (rest : Bytes) :
    readNode ((writeNode kn).flatten ++ rest) =
      (readAddress (kn.address.length % 2 ^ 16) (kn.address ++
        (Word.int64.encode kn.lastSeen ++ (Word.int32.encode kn.stales ++ rest)))).bind
      fun r => do
        let (lastSeen, file) ← fread 8 r.2
        let (stales, file) ← fread 4 file
        return (⟨kn.id, r.1, Word.int64.decode lastSeen, Word.int32.decode stales⟩, file) := by
  rw [flatten_writeNode_append, readNode, fread_append kn.id.length_id]
  simp only [bind, Except.bind]
  rw [fread_append (Word.length_encode _ _ : _ = 2)]
  simp only [toNat_decode_length, KadId.ofBytes_id]

/-- A node whose address fits is read back. -/
theorem readNode_writeNode_of_fits {kn : KadNode} (hfit : Fits kn.address)
    (hnul : 0 ∉ kn.address) (rest : Bytes) :
    readNode ((writeNode kn).flatten ++ rest) = .ok (kn, rest) := by
  have hmod : kn.address.length % 2 ^ 16 = kn.address.length :=
    Nat.mod_eq_of_lt (hfit.2.trans (by decide))
  rw [readNode_writeNode, hmod, readAddress_append hfit hnul]
  simp only [bind, Except.bind]
  rw [fread_append (Word.length_encode _ _ : _ = 8)]
  simp only
  rw [fread_append (Word.length_encode _ _ : _ = 4)]
  simp only [Word.decode_encode]
  rfl

/-- The reader gives up at a node with an empty address. -/
theorem readNode_writeNode_of_empty {kn : KadNode} (hempty : kn.address = []) (rest : Bytes) :
    readNode ((writeNode kn).flatten ++ rest) = .error .failed := by
  rw [readNode_writeNode, hempty]
  rfl

/-- Every address that the reader accepts is shorter than the buffer. -/
theorem length_address_of_readAddress {addrLen : ℕ} {file a rest : Bytes}
    (h : readAddress addrLen file = .ok (a, rest)) : a.length < ADDRESS_BUFFER := by
  unfold readAddress at h
  split_ifs at h with hzero hover hshort hterm
  obtain ⟨rfl, -⟩ := Prod.mk.inj (Except.ok.inj h)
  have hwhile := ((file.take addrLen).takeWhile_sublist (· ≠ 0)).length_le
  rw [List.length_take] at hwhile
  omega

theorem length_address_of_readNode {file rest : Bytes} {kn : KadNode}
    (h : readNode file = .ok (kn, rest)) : kn.address.length < ADDRESS_BUFFER := by
  simp only [readNode, bind, Except.bind] at h
  split at h
  · cases h
  split at h
  · cases h
  split at h
  · cases h
  rename_i a haddr
  split at h
  · cases h
  split at h
  · cases h
  cases h
  exact length_address_of_readAddress haddr

/-! ### Lists of nodes -/

/-- The nodes whose address survives the reader, given that it has no NUL. -/
theorem readNodesLoop_of_fits {nodes : List KadNode}
    (h : ∀ kn ∈ nodes, Fits kn.address ∧ 0 ∉ kn.address) (rest : Bytes) :
    ∀ acc, readNodesLoop nodes.length ((nodes.flatMap writeNode).flatten ++ rest) acc =
      (acc ++ nodes, .ok rest) := by
  induction nodes with
  | nil =>
    intro acc
    simp [readNodesLoop]
  | cons kn nodes ih =>
    intro acc
    obtain ⟨hfit, hnul⟩ := h kn List.mem_cons_self
    rw [List.flatMap_cons, List.flatten_append, List.append_assoc, List.length_cons, readNodesLoop,
      readNode_writeNode_of_fits hfit hnul]
    simp only
    rw [ih fun m hm => h m (List.mem_cons_of_mem _ hm)]
    simp

/-- The reader gives up at the first empty address, if it gets there. -/
theorem readNodesLoop_of_empty {nodes : List KadNode}
    (h : ∀ kn ∈ nodes, kn.address.length < ADDRESS_BUFFER ∧ 0 ∉ kn.address)
    (hempty : ∃ kn ∈ nodes, kn.address = []) (rest : Bytes) :
    ∀ acc, (readNodesLoop nodes.length ((nodes.flatMap writeNode).flatten ++ rest) acc).2 =
      .error .failed := by
  induction nodes with
  | nil =>
    obtain ⟨kn, hkn, -⟩ := hempty
    exact absurd hkn List.not_mem_nil
  | cons kn nodes ih =>
    intro acc
    rw [List.flatMap_cons, List.flatten_append, List.append_assoc, List.length_cons, readNodesLoop]
    by_cases hkn : kn.address = []
    · rw [readNode_writeNode_of_empty hkn]
    obtain ⟨hlen, hnul⟩ := h kn List.mem_cons_self
    rw [readNode_writeNode_of_fits ⟨hkn, hlen⟩ hnul]
    refine ih (fun m hm => h m (List.mem_cons_of_mem _ hm)) ?_ _
    -- the empty one is further down
    obtain ⟨m, hm, hmempty⟩ := hempty
    rcases List.mem_cons.mp hm with rfl | hm
    · exact absurd hmempty hkn
    · exact ⟨m, hm, hmempty⟩

theorem length_address_of_readNodesLoop {n : ℕ} {file : Bytes} {acc : List KadNode} {kn : KadNode}
    (h : kn ∈ (readNodesLoop n file acc).1) : kn ∈ acc ∨ kn.address.length < ADDRESS_BUFFER := by
  induction n generalizing file acc with
  | zero => exact Or.inl h
  | succ n ih =>
    rw [readNodesLoop] at h
    cases hr : readNode file with
    | error stop =>
      rw [hr] at h
      exact Or.inl h
    | ok r =>
      rw [hr] at h
      rcases ih h with hacc | hlen
      · rcases List.mem_append.mp hacc with hacc | hnew
        · exact Or.inl hacc
        · obtain rfl := List.mem_singleton.mp hnew
          exact Or.inr (length_address_of_readNode hr)
      · exact Or.inr hlen

theorem flatten_writeNodes_append (nodes : List KadNode) (rest : Bytes) :
    (writeNodes nodes).flatten ++ rest = Word.int32.encode (Int32.ofNat nodes.length) ++
      ((nodes.flatMap writeNode).flatten ++ rest) := by
  simp [writeNodes]

/-- A list as long as a bucket allows is read with its own length. -/
theorem readNodes_writeNodes {nodes : List KadNode} (hlen : nodes.length ≤ KAD_BUCKET_MAX)
    (rest : Bytes) : readNodes ((writeNodes nodes).flatten ++ rest) =
      readNodesLoop nodes.length ((nodes.flatMap writeNode).flatten ++ rest) [] := by
  have hcount : (Int32.ofNat nodes.length).toInt.toNat = nodes.length := by
    have hlt : nodes.length < 2 ^ 31 := hlen.trans_lt (by decide)
    rw [Int32.toInt_ofNat_of_lt hlt, Int.toNat_natCast]
  rw [flatten_writeNodes_append, readNodes, fread_append (Word.length_encode _ _ : _ = 4)]
  simp only [Word.decode_encode, hcount]

theorem length_address_of_readNodes {file : Bytes} {kn : KadNode} (h : kn ∈ (readNodes file).1) :
    kn.address.length < ADDRESS_BUFFER := by
  rw [readNodes] at h
  split at h
  · exact absurd h List.not_mem_nil
  · rcases length_address_of_readNodesLoop h with hnil | hlen
    · exact absurd hnil List.not_mem_nil
    · exact hlen

/-! ### Buckets -/

theorem readNodes_of_fits {nodes : List KadNode} (hlen : nodes.length ≤ KAD_BUCKET_MAX)
    (h : ∀ kn ∈ nodes, Fits kn.address ∧ 0 ∉ kn.address) (rest : Bytes) :
    readNodes ((writeNodes nodes).flatten ++ rest) = (nodes, .ok rest) := by
  rw [readNodes_writeNodes hlen, readNodesLoop_of_fits h, List.nil_append]

theorem readNodes_of_empty {nodes : List KadNode} (hlen : nodes.length ≤ KAD_BUCKET_MAX)
    (h : ∀ kn ∈ nodes, kn.address.length < ADDRESS_BUFFER ∧ 0 ∉ kn.address)
    (hempty : ∃ kn ∈ nodes, kn.address = []) (rest : Bytes) :
    (readNodes ((writeNodes nodes).flatten ++ rest)).2 = .error .failed := by
  rw [readNodes_writeNodes hlen, readNodesLoop_of_empty h hempty]

theorem flatten_writeBucket_append (b : KadBucket) (rest : Bytes) :
    (writeBucket b).flatten ++ rest =
      (writeNodes b.nodes).flatten ++ ((writeNodes b.replacementNodes).flatten ++ rest) := by
  rw [writeBucket, List.flatten_append, List.append_assoc]

theorem readBucket_of_fits {b : KadBucket} (hb : b.Inv)
    (h : ∀ kn ∈ b.entries, Fits kn.address ∧ 0 ∉ kn.address) (rest : Bytes) :
    readBucket ((writeBucket b).flatten ++ rest) = (b, .ok rest) := by
  have hnodes := readNodes_of_fits hb.nodes_le fun kn hkn => h kn (List.mem_append_left _ hkn)
  have hrepl := readNodes_of_fits hb.replacement_le fun kn hkn => h kn (List.mem_append_right _ hkn)
  rw [flatten_writeBucket_append, readBucket, hnodes]
  simp only
  rw [hrepl]

theorem readBucket_of_empty {b : KadBucket} (hb : b.Inv)
    (h : ∀ kn ∈ b.entries, kn.address.length < ADDRESS_BUFFER ∧ 0 ∉ kn.address)
    (hempty : ∃ kn ∈ b.entries, kn.address = []) (rest : Bytes) :
    (readBucket ((writeBucket b).flatten ++ rest)).2 = .error .failed := by
  have hnodes : ∀ kn ∈ b.nodes, kn.address.length < ADDRESS_BUFFER ∧ 0 ∉ kn.address :=
    fun kn hkn => h kn (List.mem_append_left _ hkn)
  rw [flatten_writeBucket_append, readBucket]
  by_cases hfirst : ∃ kn ∈ b.nodes, kn.address = []
  · -- the reader does not get past the first list
    have hstop := readNodes_of_empty hb.nodes_le hnodes hfirst
      ((writeNodes b.replacementNodes).flatten ++ rest)
    generalize readNodes _ = r at hstop
    obtain ⟨nodes, outcome⟩ := r
    obtain rfl : outcome = .error .failed := hstop
    rfl
  · push Not at hfirst
    rw [readNodes_of_fits hb.nodes_le fun kn hkn =>
      ⟨⟨hfirst kn hkn, (hnodes kn hkn).1⟩, (hnodes kn hkn).2⟩]
    refine readNodes_of_empty hb.replacement_le
      (fun kn hkn => h kn (List.mem_append_right _ hkn)) ?_ rest
    obtain ⟨kn, hkn, hkempty⟩ := hempty
    rcases List.mem_append.mp hkn with hkn | hkn
    · exact absurd hkempty (hfirst kn hkn)
    · exact ⟨kn, hkn, hkempty⟩

theorem length_address_of_readBucket {file : Bytes} {kn : KadNode}
    (h : kn ∈ (readBucket file).1.entries) : kn.address.length < ADDRESS_BUFFER := by
  rw [readBucket] at h
  split at h
  · rename_i nodes stop hnodes
    rcases List.mem_append.mp h with h | h
    · exact length_address_of_readNodes (by rw [hnodes]; exact h)
    · exact absurd h List.not_mem_nil
  · rename_i nodes file' hnodes
    rcases List.mem_append.mp h with h | h
    · exact length_address_of_readNodes (by rw [hnodes]; exact h)
    · exact length_address_of_readNodes h

/-- The listed buckets are read back and the others stay as they were. -/
theorem readBuckets_of_fits {bs : Fin KAD_ID_BIT_LENGTH → KadBucket} (hbs : ∀ i, (bs i).Inv)
    (h : ∀ i, ∀ kn ∈ (bs i).entries, Fits kn.address ∧ 0 ∉ kn.address) (rest : Bytes) :
    ∀ is old, readBuckets is old ((is.flatMap fun i => writeBucket (bs i)).flatten ++ rest) =
      ((fun i => if i ∈ is then bs i else old i), .ok rest) := by
  intro is
  induction is with
  | nil =>
    intro old
    simp [readBuckets]
  | cons i is ih =>
    intro old
    rw [List.flatMap_cons, List.flatten_append, List.append_assoc, readBuckets,
      readBucket_of_fits (hbs i) (h i)]
    simp only
    rw [ih]
    congr 1
    funext j
    by_cases hji : j = i
    · simp [hji]
    · simp [hji, List.mem_cons]

theorem readBuckets_of_empty {bs : Fin KAD_ID_BIT_LENGTH → KadBucket} (hbs : ∀ i, (bs i).Inv)
    (h : ∀ i, ∀ kn ∈ (bs i).entries, kn.address.length < ADDRESS_BUFFER ∧ 0 ∉ kn.address)
    (rest : Bytes) : ∀ is old, (∃ i ∈ is, ∃ kn ∈ (bs i).entries, kn.address = []) →
      (readBuckets is old ((is.flatMap fun i => writeBucket (bs i)).flatten ++ rest)).2 =
        .error .failed := by
  intro is
  induction is with
  | nil =>
    rintro old ⟨i, hi, -⟩
    exact absurd hi List.not_mem_nil
  | cons i is ih =>
    intro old hempty
    rw [List.flatMap_cons, List.flatten_append, List.append_assoc, readBuckets]
    by_cases hi : ∃ kn ∈ (bs i).entries, kn.address = []
    · have hstop := readBucket_of_empty (hbs i) (h i) hi
        ((is.flatMap fun i => writeBucket (bs i)).flatten ++ rest)
      generalize readBucket _ = r at hstop
      obtain ⟨b, outcome⟩ := r
      obtain rfl : outcome = .error .failed := hstop
      rfl
    · push Not at hi
      rw [readBucket_of_fits (hbs i) fun kn hkn =>
        ⟨⟨hi kn hkn, (h i kn hkn).1⟩, (h i kn hkn).2⟩]
      refine ih _ ?_
      obtain ⟨j, hj, kn, hkn, hkempty⟩ := hempty
      rcases List.mem_cons.mp hj with rfl | hj
      · exact absurd hkempty (hi kn hkn)
      · exact ⟨j, hj, kn, hkn, hkempty⟩

/-- A bucket that is read, or was short of long addresses before, has none. -/
theorem length_address_of_readBuckets {is : List (Fin KAD_ID_BIT_LENGTH)}
    {old : Fin KAD_ID_BIT_LENGTH → KadBucket} {file : Bytes}
    (hok : ∃ rest, (readBuckets is old file).2 = .ok rest) {i : Fin KAD_ID_BIT_LENGTH}
    (hi : i ∈ is ∨ ∀ kn ∈ (old i).entries, kn.address.length < ADDRESS_BUFFER) :
    ∀ kn ∈ ((readBuckets is old file).1 i).entries, kn.address.length < ADDRESS_BUFFER := by
  induction is generalizing old file with
  | nil =>
    rcases hi with hi | hold
    · exact absurd hi List.not_mem_nil
    · exact hold
  | cons j is ih =>
    rw [readBuckets] at hok ⊢
    split at hok
    · obtain ⟨rest, hrest⟩ := hok
      cases hrest
    · rename_i b file' hb
      refine ih hok ?_
      by_cases hij : i = j
      · right
        intro kn hkn
        rw [hij, Function.update_self] at hkn
        exact length_address_of_readBucket (by rw [hb]; exact hkn)
      · rw [Function.update_of_ne hij]
        exact hi.imp_left fun hi => (List.mem_cons.mp hi).resolve_left hij

/-! ### Writing without error -/

theorem fwriteAll_eq_zero {room : ℕ} {cs : List Bytes} {file : Bytes}
    (h : (fwriteAll room cs file).1 = 0) : (fwriteAll room cs file).2 = file ++ cs.flatten := by
  induction cs generalizing file with
  | nil => simp [fwriteAll]
  | cons c cs ih =>
    rw [fwriteAll] at h ⊢
    split at h
    · rename_i hroom
      rw [if_pos hroom, ih h]
      simp
    · cases h

theorem fwriteAll_of_room {room : ℕ} {cs : List Bytes} {file : Bytes}
    (h : (file ++ cs.flatten).length ≤ room) : (fwriteAll room cs file).1 = 0 := by
  induction cs generalizing file with
  | nil => rfl
  | cons c cs ih =>
    rw [List.flatten_cons, ← List.append_assoc] at h
    have hroom : file.length + c.length ≤ room := by
      rw [List.length_append, List.length_append] at h
      omega
    rw [fwriteAll, if_pos hroom]
    exact ih h

end TableFile

open TableFile

namespace KadRoutingTable

/-- The writes for a table. -/
def writes (t : KadRoutingTable) : List Bytes :=
  t.selfNode.id.id :: (List.finRange KAD_ID_BIT_LENGTH).flatMap fun i => writeBucket (t.buckets i)

/-- `writeFile` on a disk with some room left, `none` where the file does not open:
its result, and the file; the stream has no buffer that `fclose` could fail to write. -/
def writeFile (t : KadRoutingTable) : Option ℕ → ℤ × Option Bytes
  | none => (-1, none)
  | some room => ((fwriteAll room t.writes []).1, some (fwriteAll room t.writes []).2)

/-- The result of `readFile`; `none` where it overruns the address buffer. -/
def readResult : Except Stop Bytes → Option ℤ
  | .ok _ => some 0
  | .error .failed => some (-1)
  | .error .overrun => none

/-- `readFile` of a file with the given bytes, `none` for a file that does not open. -/
def readFile (t : KadRoutingTable) (file : Option Bytes) : KadRoutingTable × Option ℤ :=
  match file with
  | none => (t, some (-1))
  | some file =>
      match fread KAD_ID_LENGTH file with
      | .error _ =>
          -- the bytes that are there have replaced the front of the own id
          let id := KadId.ofBytes (file ++ t.selfNode.id.id.drop file.length)
          ({ t with selfNode := { t.selfNode with id := id } }, some (-1))
      | .ok (id, file) =>
          let r := readBuckets (List.finRange KAD_ID_BIT_LENGTH) t.buckets file
          (⟨{ t.selfNode with id := KadId.ofBytes id }, r.1⟩, readResult r.2)

/-- Whatever is written without error is read back, into a new table, as it was. -/
def RoundTrips (t : KadRoutingTable) : Prop :=
  ∀ disk freshId, (t.writeFile disk).1 = 0 →
    ∃ t', (init freshId).readFile (t.writeFile disk).2 = (t', some 0) ∧
      t'.selfNode.id = t.selfNode.id ∧ t'.buckets = t.buckets

/-- The reader can hold every address of the table. -/
def AddressesFit (t : KadRoutingTable) : Prop :=
  ∀ h, ∀ kn ∈ (t.buckets h).entries, Fits kn.address

/-- No address of the table has a NUL. -/
def NulFree (t : KadRoutingTable) : Prop := ∀ h, ∀ kn ∈ (t.buckets h).entries, 0 ∉ kn.address

theorem readResult_eq_zero {r : Except Stop Bytes} (h : readResult r = some 0) :
    ∃ rest, r = .ok rest := by
  cases r with
  | ok rest => exact ⟨rest, rfl⟩
  | error stop => cases stop <;> simp [readResult] at h

/-- A file without errors holds the own id and then the buckets. -/
theorem writeFile_eq_zero {t : KadRoutingTable} {disk : Option ℕ} (h : (t.writeFile disk).1 = 0) :
    (t.writeFile disk).2 = some t.writes.flatten := by
  cases disk with
  | none => cases h
  | some room =>
    have hw : (fwriteAll room t.writes []).2 = [] ++ t.writes.flatten := fwriteAll_eq_zero h
    rw [writeFile, hw, List.nil_append]

theorem exists_writeFile_eq_zero (t : KadRoutingTable) : ∃ disk, (t.writeFile disk).1 = 0 :=
  ⟨some t.writes.flatten.length,
    fwriteAll_of_room (Nat.le_of_eq (congrArg List.length (List.nil_append _)))⟩

/-- Reading a file without errors. -/
theorem readFile_flatten_writes (t t₀ : KadRoutingTable) :
    t₀.readFile (some t.writes.flatten) =
      let r := readBuckets (List.finRange KAD_ID_BIT_LENGTH) t₀.buckets
        (((List.finRange KAD_ID_BIT_LENGTH).flatMap fun i => writeBucket (t.buckets i)).flatten ++ [])
      (⟨{ t₀.selfNode with id := t.selfNode.id }, r.1⟩, readResult r.2) := by
  rw [readFile, writes, List.flatten_cons, fread_append t.selfNode.id.length_id, List.append_nil]
  simp only [KadId.ofBytes_id]

theorem roundTrips_of_fits {t : KadRoutingTable} (ht : ∀ h, (t.buckets h).Inv) (hnul : t.NulFree)
    (hfit : t.AddressesFit) : t.RoundTrips := by
  intro disk freshId hwrite
  rw [writeFile_eq_zero hwrite, readFile_flatten_writes,
    readBuckets_of_fits ht fun h kn hkn => ⟨hfit h kn hkn, hnul h kn hkn⟩]
  refine ⟨_, rfl, rfl, ?_⟩
  funext h
  exact if_pos (List.mem_finRange h)

/-- What comes back has short addresses only, and an empty one does not come back. -/
theorem fits_of_roundTrips {t : KadRoutingTable} (ht : ∀ h, (t.buckets h).Inv) (hnul : t.NulFree)
    (hround : t.RoundTrips) : t.AddressesFit := by
  obtain ⟨disk, hwrite⟩ := t.exists_writeFile_eq_zero
  obtain ⟨t', hread, -, hbuckets⟩ := hround disk (KadId.ofNat 0) hwrite
  rw [writeFile_eq_zero hwrite, readFile_flatten_writes] at hread
  generalize hr : readBuckets _ _ _ = r at hread
  obtain ⟨rfl, hresult⟩ := Prod.mk.inj hread
  have hr' : r.1 = t.buckets := hbuckets
  have hok : ∃ rest, r.2 = .ok rest := readResult_eq_zero hresult
  have hshort : ∀ h, ∀ kn ∈ (t.buckets h).entries, kn.address.length < ADDRESS_BUFFER := by
    intro h
    rw [← hr', ← hr]
    exact length_address_of_readBuckets (hr.symm ▸ hok) (Or.inl (List.mem_finRange h))
  intro h kn hkn
  refine ⟨fun hempty => ?_, hshort h kn hkn⟩
  have hstop := readBuckets_of_empty ht (fun i m hm => ⟨hshort i m hm, hnul i m hm⟩) []
    (List.finRange KAD_ID_BIT_LENGTH) (init (KadId.ofNat 0)).buckets
    ⟨h, List.mem_finRange h, kn, hkn, hempty⟩
  obtain ⟨rest, hrest⟩ := hok
  rw [← hr, hstop] at hrest
  cases hrest

/-- Nodes pushed without a NUL in their address leave none in the table. -/
theorem nulFree_reached (std : StdSort) (selfId : KadId) {calls : List Call}
    (hnul : ∀ now kn, Call.pushNode now kn ∈ calls → 0 ∉ kn.address) :
    (reached std selfId calls).NulFree := by
  refine Runs.run_induction_of_mem (K := fun call => ∀ now kn, call = .pushNode now kn →
    0 ∉ kn.address) (P := NulFree) ?_ calls ?_ ?_
  · intro t call hcall ht
    refine entries_step (P := fun _ _ address => 0 ∉ address) std t call ht ?_
    exact fun now kn hpush _ _ => hcall now kn hpush
  · rintro _ hmem now kn rfl
    exact hnul now kn hmem
  · intro h kn hkn
    exact absurd hkn List.not_mem_nil

/-- **A table that a run reaches is read back exactly when its addresses fit.** -/
theorem roundTrips_iff_addressesFit (std : StdSort) (selfId : KadId) (calls : List Call)
    (hnul : ∀ now kn, Call.pushNode now kn ∈ calls → 0 ∉ kn.address) :
    (reached std selfId calls).RoundTrips ↔ (reached std selfId calls).AddressesFit := by
  have ht := (wellFormed_reached std selfId calls).1
  have hn := nulFree_reached std selfId hnul
  exact ⟨fits_of_roundTrips ht hn, roundTrips_of_fits ht hn⟩

/-- One node, known by an address of the given length. -/
def oneNodeCalls (addressLength : ℕ) : List Call :=
  [.pushNode 0 (KadNode.new (KadId.ofNat 1) (List.replicate addressLength 97))]

theorem nulFree_oneNodeCalls (addressLength : ℕ) :
    ∀ now kn, Call.pushNode now kn ∈ oneNodeCalls addressLength → 0 ∉ kn.address := by
  intro now kn hpush
  obtain ⟨-, rfl⟩ := Call.pushNode.inj (List.mem_singleton.mp hpush)
  intro hnul
  exact absurd (List.eq_of_mem_replicate hnul) (by decide)

/-- An I2P destination of 516 characters is written but not read back. -/
theorem oneNodeCalls_516_not_roundTrips :
    ¬ (reached StdSort.insertion (KadId.ofNat 0) (oneNodeCalls 516)).RoundTrips := by
  intro hround
  have ht := (wellFormed_reached StdSort.insertion (KadId.ofNat 0) (oneNodeCalls 516)).1
  have hn := nulFree_reached StdSort.insertion (KadId.ofNat 0) (nulFree_oneNodeCalls 516)
  have hfit := fits_of_roundTrips ht hn hround ⟨0, by decide⟩
  have hlong : ∃ kn ∈ ((reached StdSort.insertion (KadId.ofNat 0) (oneNodeCalls 516)).buckets
      ⟨0, by decide⟩).entries, ADDRESS_BUFFER ≤ kn.address.length := by decide +kernel
  obtain ⟨kn, hkn, hlen⟩ := hlong
  exact absurd (hfit kn hkn).2 (not_lt.mpr hlen)

/-- An onion address of 56 characters is among those that are read back. -/
theorem roundTrips_oneNodeCalls_56 :
    (∀ now kn, Call.pushNode now kn ∈ oneNodeCalls 56 → 0 ∉ kn.address) ∧
      ((reached StdSort.insertion (KadId.ofNat 0) (oneNodeCalls 56)).RoundTrips ↔
        (reached StdSort.insertion (KadId.ofNat 0) (oneNodeCalls 56)).AddressesFit) :=
  ⟨nulFree_oneNodeCalls 56, roundTrips_iff_addressesFit StdSort.insertion (KadId.ofNat 0)
    (oneNodeCalls 56) (nulFree_oneNodeCalls 56)⟩

end KadRoutingTable

end SniffDogSniff
