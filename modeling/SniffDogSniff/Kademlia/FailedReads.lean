import SniffDogSniff.Kademlia.OwnEntries

/-!
# Files that cannot be read

`readFile` reads into the live table: the own id first, then bucket by bucket, each one
emptied before its nodes arrive.  Wherever it stops, what it has read so far stays.  The
caller takes the result -1 for an empty table and goes on with what is left.

## Main definitions

* `KadRoutingTable.FailsCleanly` — when reading fails, the table is as before.
* `KadRoutingTable.Repeats` — a file has nothing that the table does not have.

## Main results

* `failsCleanly_iff` — **when reading fails without a trace.**
-/

namespace SniffDogSniff

open TableFile

namespace KadRoutingTable

/-- When the file cannot be read, the table is as before. -/
def FailsCleanly (t : KadRoutingTable) (file : Option Bytes) : Prop :=
  (t.readFile file).2 = some (-1) → (t.readFile file).1 = t

/-- A file that cannot be read has nothing, as far as it goes, that the table does not have:
its id, or the bytes in place of one, are those of the own id, and its buckets, with the last
one cut short, are the first ones of the table. -/
def Repeats (t : KadRoutingTable) : Option Bytes → Prop
  | none => True
  | some file =>
      if file.length < KAD_ID_LENGTH then file <+: t.selfNode.id.id
      else
        let r := fileBuckets KAD_ID_BIT_LENGTH (file.drop KAD_ID_LENGTH)
        r.2 = .error .failed → file.take KAD_ID_LENGTH = t.selfNode.id.id ∧
          ∀ p ∈ (List.finRange KAD_ID_BIT_LENGTH).zip r.1, p.2 = t.buckets p.1

/-- The table with another id and other buckets is the same when these are. -/
theorem mk_eq_iff {t : KadRoutingTable} {id : KadId}
    {buckets : Fin KAD_ID_BIT_LENGTH → KadBucket} :
    KadRoutingTable.mk { t.selfNode with id := id } buckets = t ↔
      id = t.selfNode.id ∧ ∀ h, buckets h = t.buckets h := by
  constructor
  · intro heq
    have hself := congrArg (fun t => t.selfNode.id) heq
    have hbuckets := congrArg KadRoutingTable.buckets heq
    exact ⟨hself, fun h => congrFun hbuckets h⟩
  · rintro ⟨rfl, hbuckets⟩
    rw [funext hbuckets]

theorem readResult_eq_neg_one_iff (r : Except Stop Bytes) :
    readResult r = some (-1) ↔ r = .error .failed := by
  cases r with
  | ok rest => simp [readResult]
  | error stop => cases stop <;> simp [readResult]

/-- A file that is too short for an id replaces the front of the own one. -/
theorem ofBytes_append_drop_eq_iff {bs : Bytes} {id : KadId} (hlen : bs.length < KAD_ID_LENGTH) :
    KadId.ofBytes (bs ++ id.id.drop bs.length) = id ↔ bs <+: id.id := by
  have hid := id.length_id
  rw [KadId.ofBytes_eq_iff (by rw [List.length_append, List.length_drop]; omega)]
  constructor
  · intro heq
    exact ⟨_, heq⟩
  · rintro ⟨rest, hrest⟩
    rw [← hrest, List.drop_left]

/-- **When reading fails without a trace**: exactly when the file, as far as it could be read,
has nothing that the table does not have. -/
theorem failsCleanly_iff (t : KadRoutingTable) (file : Option Bytes) :
    t.FailsCleanly file ↔ t.Repeats file := by
  cases file with
  | none => exact iff_of_true (fun _ => rfl) trivial
  | some file =>
    rw [FailsCleanly, readFile, Repeats]
    by_cases hlen : file.length < KAD_ID_LENGTH
    · have hfread : fread KAD_ID_LENGTH file = .error .failed := if_neg (not_le.mpr hlen)
      rw [if_pos hlen, hfread]
      simp only [forall_const]
      rw [mk_eq_iff, ofBytes_append_drop_eq_iff hlen]
      exact and_iff_left fun _ => rfl
    · have hfread : fread KAD_ID_LENGTH file =
          .ok (file.take KAD_ID_LENGTH, file.drop KAD_ID_LENGTH) := if_pos (not_lt.mp hlen)
      obtain ⟨hstop, hbuckets⟩ := forall_readBuckets_iff (fun i b => b = t.buckets i)
        (List.nodup_finRange KAD_ID_BIT_LENGTH) t.buckets (file.drop KAD_ID_LENGTH)
      rw [List.length_finRange] at hstop hbuckets
      rw [if_neg hlen, hfread]
      simp only
      rw [readResult_eq_neg_one_iff, hstop, mk_eq_iff, hbuckets, KadId.ofBytes_eq_iff
        (by rw [List.length_take]; omega), and_iff_left (fun _ _ => rfl)]

/-- A new table and a file that ends inside its first bucket. -/
theorem not_forall_failsCleanly :
    ¬ ∀ (t : KadRoutingTable) (file : Option Bytes), t.FailsCleanly file := by
  intro h
  have hsame := h (init (KadId.ofNat 0)) (some (List.replicate KAD_ID_LENGTH 1)) (by decide)
  have hid := congrArg (fun t => t.selfNode.id) hsame
  exact absurd hid (by decide)

end KadRoutingTable

end SniffDogSniff
