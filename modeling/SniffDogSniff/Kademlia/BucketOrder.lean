import SniffDogSniff.Kademlia.ClosestTo

/-!
# The order of the buckets

Seen from the own id, the bucket of another id is the height of their distance.  Ids of
one bucket can be at any distance of a target, but the buckets come one behind the
other: the one of the target, those below it, and those above it one by one.

## Main definitions

* `bucketRank` — the place of a bucket in this order.
* `NearerByBucket` — two ids, by their buckets.
* `OrderedByBucket` — the same, and ids in the order of their distances.

## Main results

* `lt_of_bucketRank_lt` — a bucket in front has the nearer ids.
* `lt_iff_testBit` — which one of two buckets has them; below that of the target, it can be
  either one.
* `orderedByBucket` — **the order of the buckets is that of the distances.**
-/

namespace SniffDogSniff

namespace KadId

/-- The place of the bucket `k` for a target in the bucket `h`: the buckets below `h` share
one. -/
def bucketRank (h k : ℕ) : ℕ := if k = h then 0 else if k < h then 1 else k - h + 1

/-- Which one of two ids is nearer to `t`, as far as their buckets say so. -/
structure NearerByBucket (s t a b : KadId) : Prop where
  own : (s - a).height = (s - t).height → (s - b).height ≠ (s - t).height →
    lt? (a - t) (b - t) = some true
  below : (s - a).height < (s - t).height → (s - t).height < (s - b).height →
    lt? (a - t) (b - t) = some true
  above : (s - t).height < (s - a).height → (s - a).height < (s - b).height →
    lt? (a - t) (b - t) = some true

/-- Ids are in the order of their distances to `t` where their buckets are in order, and the
distance decides between those that share a place. -/
structure OrderedByBucket (s t : KadId) : Prop where
  nearer : ∀ a b, a ≠ s → b ≠ s → NearerByBucket s t a b
  sorted_iff : ∀ l : List KadId, s ∉ l →
    ((l.Pairwise fun a b => lt (b - t) (a - t) = false) ↔
      l.Pairwise fun a b =>
        bucketRank (s - t).height (s - a).height < bucketRank (s - t).height (s - b).height ∨
          bucketRank (s - t).height (s - a).height = bucketRank (s - t).height (s - b).height ∧
            lt (b - t) (a - t) = false)

section

variable {s t a b : KadId}

theorem lt?_eq_some_true_iff : lt? a b = some true ↔ lt a b = true := by
  rw [lt_iff, lt?, ltFrom_iff, val, val]

/-- **A bucket in front has the nearer ids.** -/
theorem lt_of_bucketRank_lt (ht : t ≠ s) (ha : a ≠ s) (hb : b ≠ s)
    (h : bucketRank (s - t).height (s - a).height < bucketRank (s - t).height (s - b).height) :
    lt (a - t) (b - t) = true := by
  refine KadRoutingTable.distance_lt_of_shell ht.symm ha.symm hb.symm ?_
  rw [KadRoutingTable.shell_eq ht.symm ha.symm, KadRoutingTable.shell_eq ht.symm hb.symm]
  exact h

/-- Of two buckets, the lower one has the nearer ids where the distance of the target lacks
the bit of the higher one. -/
theorem lt_iff_testBit (ha : a ≠ s) (hb : b ≠ s) (h : (s - a).height < (s - b).height) :
    lt (a - t) (b - t) = true ↔ (s - t).val.testBit (s - b).height = false := by
  have hbval := val_sub_ne_zero hb.symm
  rw [height_eq_log2 (val_sub_ne_zero ha.symm), height_eq_log2 hbval] at h
  rw [lt_iff, KadRoutingTable.val_sub_eq_xor s a t, KadRoutingTable.val_sub_eq_xor s b t,
    height_eq_log2 hbval]
  exact XorMetric.xor_lt_xor_iff_testBit hbval h

theorem nearerByBucket (ht : t ≠ s) (ha : a ≠ s) (hb : b ≠ s) : NearerByBucket s t a b := by
  have hrank := lt_of_bucketRank_lt ht ha hb
  rw [← lt?_eq_some_true_iff] at hrank
  unfold bucketRank at hrank
  constructor
  · intro hown hother
    refine hrank ?_
    rw [if_pos hown, if_neg hother]
    split
    · exact Nat.one_pos
    · exact Nat.succ_pos _
  · intro hbelow habove
    refine hrank ?_
    rw [if_neg hbelow.ne, if_pos hbelow, if_neg habove.ne', if_neg habove.asymm]
    omega
  · intro habove hfarther
    refine hrank ?_
    rw [if_neg habove.ne', if_neg habove.asymm, if_neg (by omega), if_neg (by omega)]
    omega

/-- One id is not behind another where its bucket is in front, or where they share a place
and the distances say so. -/
theorem lt_eq_false_iff (ht : t ≠ s) (ha : a ≠ s) (hb : b ≠ s) :
    lt (b - t) (a - t) = false ↔
      bucketRank (s - t).height (s - a).height < bucketRank (s - t).height (s - b).height ∨
        bucketRank (s - t).height (s - a).height = bucketRank (s - t).height (s - b).height ∧
          lt (b - t) (a - t) = false := by
  constructor
  · intro hnot
    rcases Nat.lt_trichotomy (bucketRank (s - t).height (s - a).height)
      (bucketRank (s - t).height (s - b).height) with hlt | heq | hgt
    · exact Or.inl hlt
    · exact Or.inr ⟨heq, hnot⟩
    · rw [lt_of_bucketRank_lt ht hb ha hgt] at hnot
      cases hnot
  · rintro (hlt | ⟨-, hnot⟩)
    · exact Comparator.asymm (c := order) (lt_of_bucketRank_lt ht ha hb hlt)
    · exact hnot

end

/-- **The buckets come in the order of the distances**: the bucket of the target, those below
it together, and then those above it. -/
theorem orderedByBucket {s t : KadId} (ht : t ≠ s) : OrderedByBucket s t := by
  refine ⟨fun a b ha hb => nearerByBucket ht ha hb, fun l hs => ?_⟩
  refine List.Pairwise.iff_of_mem fun {a b} ha hb => ?_
  exact lt_eq_false_iff ht (ne_of_mem_of_not_mem ha hs) (ne_of_mem_of_not_mem hb hs)

/-- The ids 5, 1 and 8, seen from 0 and towards 4. -/
theorem orderedByBucket_four :
    lt? (ofNat 5 - ofNat 4) (ofNat 1 - ofNat 4) = some true ∧
      lt? (ofNat 1 - ofNat 4) (ofNat 8 - ofNat 4) = some true :=
  have h : OrderedByBucket (ofNat 0) (ofNat 4) := orderedByBucket (by decide)
  ⟨(h.nearer (ofNat 5) (ofNat 1) (by decide) (by decide)).own (by decide) (by decide),
    (h.nearer (ofNat 1) (ofNat 8) (by decide) (by decide)).below (by decide) (by decide)⟩

end KadId

end SniffDogSniff
