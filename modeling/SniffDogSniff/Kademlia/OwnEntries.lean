import SniffDogSniff.Kademlia.TableFile
import Mathlib.Tactic.Tauto

/-!
# The own node in its table

A node that finds itself in its own table sends calls to itself.  A push turns the own id
and the own address away, as they are at that moment.  The address is set later than the
table is filled, and a table that is read from a file brings its own id along, and whatever
addresses it was written with.

## Main definitions

* `TableFile.fileBuckets` — the buckets that a file has, as far as it can be read.
* `KadRoutingTable.Foreign` — no entry has the own id or the own address.
* `KadRoutingTable.Event`, `KadRoutingTable.follow` — the runs, with files that are read.
* `KadRoutingTable.KeepsForeign` — what an event must not bring in.

## Main results

* `forall_readBuckets_iff`, `forall_entries_readBuckets_iff` — the buckets and the entries
  of a table that was read.
* `foreign_step` — a push or a removal never enters the own node.
* `always_foreign_iff` — **no entry is the own node all along a run exactly where no event
  makes it one.**
* `fileKeeps_writes_iff` — for a file that another table was written to.
-/

namespace SniffDogSniff

namespace TableFile

/-- Up to `n` buckets of a file; the last one may be cut short. -/
def fileBuckets : ℕ → Bytes → List KadBucket × Except Stop Bytes
  | 0, file => ([], .ok file)
  | n + 1, file =>
      match readBucket file with
      | (b, .error stop) => ([b], .error stop)
      | (b, .ok file) => (b :: (fileBuckets n file).1, (fileBuckets n file).2)

theorem length_fileBuckets_le (n : ℕ) (file : Bytes) : (fileBuckets n file).1.length ≤ n := by
  induction n generalizing file with
  | zero => exact le_rfl
  | succ n ih =>
    rw [fileBuckets]
    rcases readBucket file with ⟨b, stop | file⟩
    · exact Nat.succ_le_succ (Nat.zero_le n)
    · exact Nat.succ_le_succ (ih file)

/-- **The buckets of a table that was read** are those of the file, and behind them the old
ones. -/
theorem forall_readBuckets_iff (P : Fin KAD_ID_BIT_LENGTH → KadBucket → Prop)
    {is : List (Fin KAD_ID_BIT_LENGTH)} (hnodup : is.Nodup)
    (old : Fin KAD_ID_BIT_LENGTH → KadBucket) (file : Bytes) :
    (readBuckets is old file).2 = (fileBuckets is.length file).2 ∧
      ((∀ i, P i ((readBuckets is old file).1 i)) ↔
        (∀ p ∈ is.zip (fileBuckets is.length file).1, P p.1 p.2) ∧
          ∀ i ∉ is.take (fileBuckets is.length file).1.length, P i (old i)) := by
  induction is generalizing old file with
  | nil => simp [readBuckets, fileBuckets]
  | cons i is ih =>
    obtain ⟨hi, his⟩ := List.nodup_cons.mp hnodup
    rw [readBuckets, List.length_cons, fileBuckets]
    rcases readBucket file with ⟨b, stop | file⟩
    · refine ⟨rfl, ?_⟩
      rw [Function.forall_update_iff old P]
      simp
    · obtain ⟨hstop, hiff⟩ := ih his (Function.update old i b) file
      refine ⟨hstop, hiff.trans ?_⟩
      have hupdate : (∀ j ∉ is.take (fileBuckets is.length file).1.length,
          P j (Function.update old i b j)) ↔
          P i b ∧ ∀ j ∉ i :: is.take (fileBuckets is.length file).1.length, P j (old j) := by
        rw [Function.forall_update_iff old
          fun j b => j ∉ is.take (fileBuckets is.length file).1.length → P j b]
        simp only [List.mem_cons, not_or, and_imp]
        exact and_congr_left fun _ => ⟨fun h => h fun hmem => hi (List.mem_of_mem_take hmem),
          fun h _ => h⟩
      rw [hupdate, List.zip_cons_cons, List.forall_mem_cons, List.length_cons,
        List.take_succ_cons]
      tauto

/-- **The entries of a table that was read** are those of the file, and behind them the old
ones. -/
theorem forall_entries_readBuckets_iff (P : KadNode → Prop) {is : List (Fin KAD_ID_BIT_LENGTH)}
    (hnodup : is.Nodup) (old : Fin KAD_ID_BIT_LENGTH → KadBucket) (file : Bytes) :
    (readBuckets is old file).2 = (fileBuckets is.length file).2 ∧
      ((∀ i, ∀ kn ∈ ((readBuckets is old file).1 i).entries, P kn) ↔
        (∀ b ∈ (fileBuckets is.length file).1, ∀ kn ∈ b.entries, P kn) ∧
          ∀ i ∉ is.take (fileBuckets is.length file).1.length, ∀ kn ∈ (old i).entries, P kn) := by
  obtain ⟨hstop, hiff⟩ := forall_readBuckets_iff (fun _ b => ∀ kn ∈ b.entries, P kn) hnodup old file
  refine ⟨hstop, hiff.trans (and_congr_left fun _ => ?_)⟩
  have hall : (∀ b ∈ (is.zip (fileBuckets is.length file).1).map Prod.snd, ∀ kn ∈ b.entries, P kn) ↔
      ∀ p ∈ is.zip (fileBuckets is.length file).1, ∀ kn ∈ p.2.entries, P kn := List.forall_mem_map
  rw [List.map_snd_zip (length_fileBuckets_le is.length file)] at hall
  exact hall.symm

/-- A file that a table was written to has its buckets. -/
theorem fileBuckets_of_fits {bs : Fin KAD_ID_BIT_LENGTH → KadBucket} (hbs : ∀ i, (bs i).Inv)
    (h : ∀ i, ∀ kn ∈ (bs i).entries, Fits kn.address ∧ 0 ∉ kn.address)
    (is : List (Fin KAD_ID_BIT_LENGTH)) (rest : Bytes) :
    fileBuckets is.length ((is.flatMap fun i => writeBucket (bs i)).flatten ++ rest) =
      (is.map bs, .ok rest) := by
  induction is with
  | nil => simp [fileBuckets]
  | cons i is ih =>
    rw [List.flatMap_cons, List.flatten_append, List.append_assoc, List.length_cons, fileBuckets,
      readBucket_of_fits (hbs i) (h i)]
    simp only
    rw [ih, List.map_cons]

end TableFile

open TableFile

namespace KadRoutingTable

/-! ### Runs with files -/

/-- A call, or a file that is read. -/
inductive Event
  | call (call : Call)
  | readFile (file : Option Bytes)

/-- The table behind an event; `none` when the reader has overrun its buffer. -/
def follow (std : StdSort) : Option KadRoutingTable → Event → Option KadRoutingTable
  | none, _ => none
  | some t, .call call => some (t.step std call)
  | some t, .readFile file => if (t.readFile file).2 = none then none else some (t.readFile file).1

/-- The entry is not the own node, neither by its id nor by its address. -/
def IsForeign (selfNode kn : KadNode) : Prop := kn.id ≠ selfNode.id ∧ kn.address ≠ selfNode.address

/-- **No entry has the own id or the own address.** -/
def Foreign (t : KadRoutingTable) : Prop :=
  ∀ h, ∀ kn ∈ (t.buckets h).entries, IsForeign t.selfNode kn

/-- What a file must not bring in: none of its nodes has the id at its front or the own
address, and none of the nodes behind the place where reading stops has this id.  A file
without a whole id replaces the front of the own one. -/
def FileKeeps (t : KadRoutingTable) (file : Bytes) : Prop :=
  if file.length < KAD_ID_LENGTH then
    ∀ h, ∀ kn ∈ (t.buckets h).entries,
      kn.id ≠ KadId.ofBytes (file ++ t.selfNode.id.id.drop file.length)
  else
    let r := fileBuckets KAD_ID_BIT_LENGTH (file.drop KAD_ID_LENGTH)
    r.2 ≠ .error .overrun ∧
      (∀ b ∈ r.1, ∀ kn ∈ b.entries,
        kn.id ≠ KadId.ofBytes (file.take KAD_ID_LENGTH) ∧ kn.address ≠ t.selfNode.address) ∧
      ∀ h ∉ (List.finRange KAD_ID_BIT_LENGTH).take r.1.length, ∀ kn ∈ (t.buckets h).entries,
        kn.id ≠ KadId.ofBytes (file.take KAD_ID_LENGTH)

/-- What an event must not bring in: the address that is set is not the one of an entry. -/
def KeepsForeign (t : KadRoutingTable) : Event → Prop
  | .call (.pushNode _ _) => True
  | .call (.removeNode _) => True
  | .call (.setSelfNodeAddress address) => ∀ h, ∀ kn ∈ (t.buckets h).entries, kn.address ≠ address
  | .readFile none => True
  | .readFile (some file) => t.FileKeeps file

theorem foreign_init (selfId : KadId) : (init selfId).Foreign :=
  fun _ _ hkn => absurd hkn List.not_mem_nil

/-- The own node changes with its address only. -/
theorem selfNode_step (std : StdSort) (t : KadRoutingTable) {call : Call}
    (hcall : ∀ address, call ≠ .setSelfNodeAddress address) :
    (t.step std call).selfNode = t.selfNode := by
  cases call with
  | pushNode now kn =>
    simp only [step, pushNode]
    split <;> rfl
  | removeNode id =>
    simp only [step, removeNode]
    split <;> rfl
  | setSelfNodeAddress address => exact absurd rfl (hcall address)

/-- **A push or a removal never enters the own node.** -/
theorem foreign_step (std : StdSort) {t : KadRoutingTable} (ht : t.Foreign) {call : Call}
    (hcall : ∀ address, call ≠ .setSelfNodeAddress address) : (t.step std call).Foreign := by
  rw [Foreign, selfNode_step std t hcall]
  exact entries_step (P := fun _ id address => id ≠ t.selfNode.id ∧ address ≠ t.selfNode.address)
    std t call ht fun _ _ _ hid haddr => ⟨hid.symm, haddr.symm⟩

theorem foreign_setSelfNodeAddress_iff {t : KadRoutingTable} (ht : t.Foreign) (address : Bytes) :
    (t.setSelfNodeAddress address).Foreign ↔
      ∀ h, ∀ kn ∈ (t.buckets h).entries, kn.address ≠ address :=
  forall₃_congr fun h kn hkn => and_iff_right (ht h kn hkn).1

theorem readResult_ne_none_iff (r : Except Stop Bytes) :
    readResult r ≠ none ↔ r ≠ .error .overrun := by
  cases r with
  | ok rest => simp [readResult]
  | error stop => cases stop <;> simp [readResult]

/-- **What reading a file brings in.** -/
theorem foreign_readFile_iff {t : KadRoutingTable} (ht : t.Foreign) (file : Bytes) :
    ((t.readFile (some file)).2 ≠ none ∧ (t.readFile (some file)).1.Foreign) ↔ t.FileKeeps file := by
  rw [readFile, FileKeeps]
  by_cases hlen : file.length < KAD_ID_LENGTH
  · have hfread : fread KAD_ID_LENGTH file = .error .failed := if_neg (not_le.mpr hlen)
    rw [if_pos hlen, hfread]
    constructor
    · exact fun h i kn hkn => (h.2 i kn hkn).1
    · intro h
      exact ⟨Option.some_ne_none _, fun i kn hkn => ⟨h i kn hkn, (ht i kn hkn).2⟩⟩
  · have hfread : fread KAD_ID_LENGTH file =
        .ok (file.take KAD_ID_LENGTH, file.drop KAD_ID_LENGTH) := if_pos (not_lt.mp hlen)
    obtain ⟨hstop, hentries⟩ := forall_entries_readBuckets_iff
      (fun kn => kn.id ≠ KadId.ofBytes (file.take KAD_ID_LENGTH) ∧
        kn.address ≠ t.selfNode.address)
      (List.nodup_finRange KAD_ID_BIT_LENGTH) t.buckets (file.drop KAD_ID_LENGTH)
    rw [List.length_finRange] at hstop hentries
    rw [if_neg hlen, hfread]
    refine and_congr ?_ (hentries.trans (and_congr_right fun _ => ?_))
    · rw [← hstop]
      exact readResult_ne_none_iff _
    -- the entries that are left have not had the own address before
    · exact forall₂_congr fun i _ => forall₂_congr fun kn hkn => and_iff_left (ht i kn hkn).2

/-- The table is there, and no entry is the own node. -/
def SomeForeign (s : Option KadRoutingTable) : Prop := ∃ t, s = some t ∧ t.Foreign

/-- The event does not make an entry the own node. -/
def SomeKeeps (s : Option KadRoutingTable) (e : Event) : Prop := ∃ t, s = some t ∧ t.KeepsForeign e

theorem someForeign_follow_iff (std : StdSort) {s : Option KadRoutingTable} (e : Event)
    (hs : SomeForeign s) : SomeForeign (follow std s e) ↔ SomeKeeps s e := by
  obtain ⟨t, rfl, ht⟩ := hs
  have hkeeps : SomeKeeps (some t) e ↔ t.KeepsForeign e := by simp [SomeKeeps]
  rw [hkeeps]
  cases e with
  | call call =>
    have hfollow : SomeForeign (follow std (some t) (.call call)) ↔ (t.step std call).Foreign := by
      simp [SomeForeign, follow]
    rw [hfollow]
    cases call with
    | pushNode now kn => exact iff_of_true (foreign_step std ht fun _ => Call.noConfusion) trivial
    | removeNode id => exact iff_of_true (foreign_step std ht fun _ => Call.noConfusion) trivial
    | setSelfNodeAddress address => exact foreign_setSelfNodeAddress_iff ht address
  | readFile file =>
    have hfollow : SomeForeign (follow std (some t) (.readFile file)) ↔
        (t.readFile file).2 ≠ none ∧ (t.readFile file).1.Foreign := by
      simp only [SomeForeign, follow]
      split
      · next hnone => simp [hnone]
      · next hsome => simp [hsome]
    rw [hfollow]
    cases file with
    | none => exact iff_of_true ⟨Option.some_ne_none _, ht⟩ trivial
    | some file => exact foreign_readFile_iff ht file

/-- **No entry is the own node all along a run exactly where no event makes it one**: no
address is set that an entry has, and no file brings one in. -/
theorem always_foreign_iff (std : StdSort) (selfId : KadId) (events : List Event) :
    Runs.Always (follow std) SomeForeign (some (init selfId)) events ↔
      Runs.Along (follow std) SomeKeeps (some (init selfId)) events := by
  have hinv : ∀ (s : Option KadRoutingTable) (e : Event), True → True := fun _ _ h => h
  exact Runs.always_iff_along hinv (fun _ e _ hs => someForeign_follow_iff std e hs) events _
    trivial ⟨_, rfl, foreign_init selfId⟩

/-- A node is pushed, and then its address is set as the own one. -/
theorem not_always_foreign : ¬ ∀ (std : StdSort) (selfId : KadId) (events : List Event),
    Runs.Always (follow std) SomeForeign (some (init selfId)) events := by
  intro h
  obtain ⟨-, -, t, ht, hforeign⟩ := h StdSort.insertion (KadId.ofNat 0)
    [.call (.pushNode 0 (KadNode.new (KadId.ofNat 1) [98])), .call (.setSelfNodeAddress [98])]
  obtain rfl := Option.some.inj ht
  exact (hforeign ⟨0, by decide⟩ (KadNode.new (KadId.ofNat 1) [98]) (by decide +kernel)).2 rfl

/-- For a file that another table was written to, with addresses that can be read back: none
of the nodes there may have its id or the own address. -/
theorem fileKeeps_writes_iff {t w : KadRoutingTable} (hw : ∀ h, (w.buckets h).Inv)
    (hnul : w.NulFree) (hfit : w.AddressesFit) : t.FileKeeps w.writes.flatten ↔
      ∀ h, ∀ kn ∈ (w.buckets h).entries,
        kn.id ≠ w.selfNode.id ∧ kn.address ≠ t.selfNode.address := by
  have hlen := w.selfNode.id.length_id
  have hbuckets := fileBuckets_of_fits hw (fun h kn hkn => ⟨hfit h kn hkn, hnul h kn hkn⟩)
    (List.finRange KAD_ID_BIT_LENGTH) []
  rw [List.length_finRange, List.append_nil] at hbuckets
  have hshort : ¬ w.writes.flatten.length < KAD_ID_LENGTH := by
    rw [writes, List.flatten_cons, List.length_append, hlen]
    omega
  rw [FileKeeps, if_neg hshort, writes, List.flatten_cons, List.take_left' hlen,
    List.drop_left' hlen, hbuckets, KadId.ofBytes_id]
  have htake : (List.finRange KAD_ID_BIT_LENGTH).take
      ((List.finRange KAD_ID_BIT_LENGTH).map w.buckets).length =
      List.finRange KAD_ID_BIT_LENGTH := by
    rw [List.length_map, List.take_length]
  simp only [htake, List.forall_mem_map]
  constructor
  · rintro ⟨-, h, -⟩ i
    exact h i (List.mem_finRange i)
  · intro h
    exact ⟨by simp, fun i _ => h i, fun i hi => absurd (List.mem_finRange i) hi⟩

end KadRoutingTable

end SniffDogSniff
