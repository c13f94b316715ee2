import SniffDogSniff.Kademlia.BucketPush
import Mathlib.Logic.Function.Basic

/-!
# What a bucket knows about its nodes

A bucket in use is pushed to when a node answers and removed from when one fails.  Its
entries are to record that history: `lastSeen` the last answer, `stales` the failures
since.  The history itself is kept here next to the bucket, to compare the entries with.

## Main definitions

* `KadBucket.Call` — a push or a removal.
* `KadBucket.Watched` — a bucket with the last push and the later removals of every id.
* `Watched.KeepsOut` — the call brings no node into `nodes` that failed.
* `Watched.SparesCandidates` — it does not remove a node that is a candidate.
* `Watched.Records` — the entries agree with the history.
* `Watched.Recording` — the call leaves them so.

## Main results

* `keepsOut_of_sparesCandidates` — **failed nodes stay out as long as no candidate is
  removed**, and `exists_promotion`, not much longer.
* `always_records_iff` — **exactly when the entries agree with the history.**
-/

namespace SniffDogSniff

namespace KadBucket

/-- A call of one of the two operations; a push reads the clock. -/
inductive Call
  | pushNode (now : Int64) (kn : KadNode)
  | removeNode (id : KadId)

/-- The time that a call reads. -/
def Call.time? : Call → Option Int64
  | .pushNode now _ => some now
  | .removeNode _ => none

/-- A bucket with the history of its nodes: the time of the last push of an id, and the
number of removals of it since. -/
structure Watched where
  bucket : KadBucket
  lastPush : KadId → Option Int64
  removals : KadId → ℕ

namespace Watched

/-- A bucket that nothing is known about. -/
def ofBucket (b : KadBucket) : Watched := ⟨b, fun _ => none, fun _ => 0⟩

/-- The bucket and the history after a call. -/
def step (std : StdSort) (w : Watched) : Call → Watched
  | .pushNode now kn =>
      { bucket := (w.bucket.pushNode std now kn).1
        lastPush := Function.update w.lastPush kn.id (some now)
        removals := Function.update w.removals kn.id 0 }
  | .removeNode id =>
      { bucket := (w.bucket.removeNode std id).1
        lastPush := w.lastPush
        removals := Function.update w.removals id (w.removals id + 1) }

section History

variable (std : StdSort) (w : Watched) (now : Int64) (kn : KadNode) {id id' : KadId}

@[simp] theorem removals_pushNode_self :
    (w.step std (.pushNode now kn)).removals kn.id = 0 := Function.update_self _ _ _

theorem removals_pushNode_of_ne (h : id ≠ kn.id) :
    (w.step std (.pushNode now kn)).removals id = w.removals id := Function.update_of_ne h _ _

@[simp] theorem lastPush_pushNode_self :
    (w.step std (.pushNode now kn)).lastPush kn.id = some now := Function.update_self _ _ _

theorem lastPush_pushNode_of_ne (h : id ≠ kn.id) :
    (w.step std (.pushNode now kn)).lastPush id = w.lastPush id := Function.update_of_ne h _ _

@[simp] theorem removals_removeNode_self :
    (w.step std (.removeNode id)).removals id = w.removals id + 1 := Function.update_self _ _ _

theorem removals_removeNode_of_ne (h : id' ≠ id) :
    (w.step std (.removeNode id)).removals id' = w.removals id' := Function.update_of_ne h _ _

@[simp] theorem lastPush_removeNode :
    (w.step std (.removeNode id)).lastPush = w.lastPush := rfl

end History

/-- `removeNode` was called with the id, and `pushNode` not since. -/
def Failed (w : Watched) (id : KadId) : Prop := 0 < w.removals id

/-- The call brings no failed node into `nodes`, unless it pushes it. -/
def KeepsOut (std : StdSort) (w : Watched) (call : Call) : Prop :=
  ∀ id, w.Failed id → (∀ now kn, call = .pushNode now kn → kn.id ≠ id) →
    id ∉ w.bucket.ids → id ∉ (w.step std call).bucket.ids

/-- The call does not remove a node that is a candidate. -/
def SparesCandidates (w : Watched) : Call → Prop
  | .pushNode _ _ => True
  | .removeNode id => id ∉ w.bucket.replacementIds

end Watched

/-! ### Which ids a call brings in -/

section Ids

variable {b : KadBucket} {std : StdSort} {id id' : KadId}

/-- The ids after a push are old ones, in their lists, and the new one. -/
theorem mem_ids_pushNode {now : Int64} {kn : KadNode}
    (h : id ∈ (b.pushNode std now kn).1.ids) : id = kn.id ∨ id ∈ b.ids := by
  obtain ⟨b', found, hp, heq⟩ := b.pushNode_cases std now kn
  rw [heq, mem_ids_reorder] at h
  cases hp with
  | refresh hid => exact Or.inr ((List.Perm.of_eq (map_id_refresh _ now _)).mem_iff.mp h)
  | append hid hroom =>
    rw [ids, List.map_append, List.mem_append] at h
    exact h.symm.imp_left List.mem_singleton.mp
  | evict hid hfull i hi =>
    rw [ids, List.map_append, List.mem_append] at h
    refine h.symm.imp List.mem_singleton.mp fun hold => ?_
    exact ((List.eraseIdx_sublist _ _).map KadNode.id).subset hold
  | refreshReplacement hid hfull hstale hr => exact Or.inr h
  | appendReplacement hid hfull hstale hr hroom => exact Or.inr h
  | overflow hid hfull hstale hr hroom => exact Or.inr h

theorem mem_replacementIds_pushNode {now : Int64} {kn : KadNode}
    (h : id ∈ (b.pushNode std now kn).1.replacementIds) : id = kn.id ∨ id ∈ b.replacementIds := by
  obtain ⟨b', found, hp, heq⟩ := b.pushNode_cases std now kn
  rw [heq, mem_replacementIds_reorder] at h
  cases hp with
  | refresh hid => exact Or.inr h
  | append hid hroom => exact Or.inr h
  | evict hid hfull i hi => exact Or.inr h
  | refreshReplacement hid hfull hstale hr =>
    exact Or.inr ((List.Perm.of_eq (map_id_seenNow _ now _)).mem_iff.mp h)
  | appendReplacement hid hfull hstale hr hroom =>
    rw [replacementIds, List.map_append, List.mem_append] at h
    exact h.symm.imp_left List.mem_singleton.mp
  | overflow hid hfull hstale hr hroom =>
    rw [replacementIds, List.map_append, List.mem_append] at h
    refine h.symm.imp List.mem_singleton.mp fun hold => ?_
    exact ((List.dropLast_sublist _).map KadNode.id).subset hold

/-- A removal brings in the head of the candidates, if any. -/
theorem mem_ids_removeNode (h : id' ∈ (b.removeNode std id).1.ids) :
    id' ∈ b.ids ∨ id' ∈ b.replacementIds := by
  have hr := b.removeNode_cases std id
  generalize (b.removeNode std id).1 = b' at hr h
  cases hr with
  | promote hid first rest hr =>
    rw [mem_ids_reorder, ids, List.map_append, List.mem_append] at h
    rcases h with h | h
    · exact Or.inl (((List.eraseP_sublist).map KadNode.id).subset h)
    · rw [List.mem_singleton.mp h, replacementIds, hr]
      exact Or.inr List.mem_cons_self
  | stale hid hr =>
    exact Or.inl ((List.Perm.of_eq (map_id_incrementStales _ _)).mem_iff.mp h)
  | absent hid => exact Or.inl h

theorem mem_replacementIds_removeNode (h : id' ∈ (b.removeNode std id).1.replacementIds) :
    id' ∈ b.replacementIds := by
  have hr := b.removeNode_cases std id
  generalize (b.removeNode std id).1 = b' at hr h
  cases hr with
  | promote hid first rest hr =>
    rw [mem_replacementIds_reorder] at h
    rw [replacementIds, hr]
    exact List.mem_cons_of_mem _ h
  | stale hid hr => exact h
  | absent hid => exact h

end Ids

namespace Watched

/-! ### Failed nodes stay out -/

variable {std : StdSort} {w : Watched}

/-- No candidate has failed. -/
def CandidatesAlive (w : Watched) : Prop := ∀ id, w.Failed id → id ∉ w.bucket.replacementIds

theorem candidatesAlive_ofBucket (b : KadBucket) : (ofBucket b).CandidatesAlive :=
  fun _ h => absurd h (Nat.lt_irrefl 0)

theorem candidatesAlive_step {call : Call} (hw : w.CandidatesAlive)
    (hcall : w.SparesCandidates call) : (w.step std call).CandidatesAlive := by
  intro id hfailed hmem
  unfold Failed at hfailed
  cases call with
  | pushNode now kn =>
    by_cases hid : id = kn.id
    · rw [hid, removals_pushNode_self] at hfailed
      exact absurd hfailed (Nat.lt_irrefl 0)
    · rw [removals_pushNode_of_ne std w now kn hid] at hfailed
      exact hw id hfailed ((mem_replacementIds_pushNode hmem).resolve_left hid)
  | removeNode rid =>
    by_cases hid : id = rid
    · exact hcall (hid ▸ mem_replacementIds_removeNode hmem)
    · rw [removals_removeNode_of_ne std w hid] at hfailed
      exact hw id hfailed (mem_replacementIds_removeNode hmem)

theorem keepsOut_step {call : Call} (hw : w.CandidatesAlive) : w.KeepsOut std call := by
  intro id hfailed hpush hout hin
  cases call with
  | pushNode now kn =>
    rcases mem_ids_pushNode hin with heq | hin
    · exact hpush now kn rfl heq.symm
    · exact hout hin
  | removeNode rid =>
    rcases mem_ids_removeNode hin with hin | hin
    · exact hout hin
    · exact hw id hfailed hin

/-- **Failed nodes stay out of `nodes` as long as no candidate is removed.** -/
theorem keepsOut_of_sparesCandidates (std : StdSort) (b : KadBucket) (calls : List Call)
    (h : Runs.Along (step std) SparesCandidates (ofBucket b) calls) :
    Runs.Along (step std) (KeepsOut std) (ofBucket b) calls :=
  Runs.along_of_along (fun _ _ hw hcall => candidatesAlive_step hw hcall)
    (fun _ _ hw _ => keepsOut_step hw) calls (ofBucket b) (candidatesAlive_ofBucket b) h

section Promote

variable {b : KadBucket} {id : KadId} {first : KadNode} {rest : List KadNode}

/-- A removal that promotes a candidate. -/
theorem removeNode_of_promote (hid : id ∈ b.ids) (hr : b.replacementNodes = first :: rest) :
    (b.removeNode std id).1 = (KadBucket.mk
      (b.nodes.eraseP (fun n => decide (n.id = id)) ++ [first]) rest).reorder std := by
  rw [removeNode, if_pos (any_id_iff.mpr hid), hr]

/-- The first candidate enters `nodes`, and no other one does. -/
theorem first_mem_ids_of_promote (hid : id ∈ b.ids) (hr : b.replacementNodes = first :: rest) :
    first.id ∈ (b.removeNode std id).1.ids := by
  rw [removeNode_of_promote hid hr, mem_ids_reorder, ids, List.map_append]
  exact List.mem_append_right _ (List.mem_singleton_self _)

theorem mem_ids_of_promote (hid : id ∈ b.ids) (hr : b.replacementNodes = first :: rest)
    {id' : KadId} (h : id' ∈ (b.removeNode std id).1.ids) : id' ∈ b.ids ∨ id' = first.id := by
  rw [removeNode_of_promote hid hr, mem_ids_reorder, ids, List.map_append, List.mem_append] at h
  exact h.imp (fun hold => ((List.eraseP_sublist).map KadNode.id).subset hold) List.mem_singleton.mp

end Promote

/-- A candidate that failed enters `nodes` after removals of other nodes alone: each brings it
closer to the head. -/
theorem exists_promotion (std : StdSort) {c : KadId} : ∀ (k : ℕ) (w : Watched),
    w.bucket.replacementNodes.length = k → w.Failed c → c ∈ w.bucket.replacementIds →
      c ∉ w.bucket.ids → w.bucket.nodes ≠ [] →
        ∃ calls : List Call, (∀ call ∈ calls, ∃ id ≠ c, call = .removeNode id) ∧
          ¬ Runs.Along (step std) (KeepsOut std) w calls := by
  intro k
  induction k with
  | zero =>
    intro w hlen _ hc _ _
    rw [replacementIds, List.eq_nil_of_length_eq_zero hlen] at hc
    exact absurd hc List.not_mem_nil
  | succ k ih =>
    intro w hlen hfailed hc hout hne
    obtain ⟨n, hn⟩ := List.exists_mem_of_ne_nil _ hne
    have hnid : n.id ∈ w.bucket.ids := List.mem_map_of_mem hn
    have hnc : n.id ≠ c := fun h => hout (h ▸ hnid)
    obtain ⟨first, rest, hr⟩ := List.exists_cons_of_length_eq_add_one hlen
    by_cases hfirst : first.id = c
    · refine ⟨[.removeNode n.id], fun call hcall => ⟨n.id, hnc, List.mem_singleton.mp hcall⟩, ?_⟩
      rintro ⟨hkeeps, -⟩
      refine hkeeps c hfailed (fun now kn h => by cases h) hout ?_
      exact hfirst ▸ first_mem_ids_of_promote hnid hr
    -- the candidate is one of the others, and one place further in front
    · have hstep : (w.step std (.removeNode n.id)).bucket = _ := removeNode_of_promote hnid hr
      have hlen' : (w.step std (.removeNode n.id)).bucket.replacementNodes.length = k := by
        rw [hstep, length_replacementNodes_reorder]
        rw [hr, List.length_cons] at hlen
        exact Nat.succ.inj hlen
      have hfailed' : (w.step std (.removeNode n.id)).Failed c := by
        rwa [Failed, removals_removeNode_of_ne std w hnc.symm]
      have hc' : c ∈ (w.step std (.removeNode n.id)).bucket.replacementIds := by
        rw [replacementIds, hr, List.map_cons, List.mem_cons] at hc
        rw [hstep, mem_replacementIds_reorder]
        exact hc.resolve_left fun h => hfirst h.symm
      have hout' : c ∉ (w.step std (.removeNode n.id)).bucket.ids := fun hin =>
        (mem_ids_of_promote hnid hr hin).elim hout fun h => hfirst h.symm
      have hne' : (w.step std (.removeNode n.id)).bucket.nodes ≠ [] := by
        apply List.ne_nil_of_length_pos
        rw [step, length_removeNode]
        exact List.length_pos_of_mem hn
      obtain ⟨calls, hcalls, hnot⟩ := ih _ hlen' hfailed' hc' hout' hne'
      refine ⟨.removeNode n.id :: calls, ?_, fun h => hnot h.2⟩
      exact List.forall_mem_cons.mpr ⟨⟨n.id, hnc, rfl⟩, hcalls⟩

/-- Twenty nodes, and a candidate with the next id. -/
def fullBucket : KadBucket :=
  ⟨(List.range KAD_BUCKET_MAX).map fun i => KadNode.new (KadId.ofNat i) [97],
    [KadNode.new (KadId.ofNat KAD_BUCKET_MAX) [97]]⟩

/-- The candidate of `fullBucket` fails, and then another node. -/
theorem not_forall_keepsOut : ¬ ∀ (std : StdSort) (b : KadBucket) (calls : List Call),
    Runs.Along (step std) (KeepsOut std) (ofBucket b) calls := by
  intro h
  obtain ⟨-, hkeeps, -⟩ := h StdSort.insertion fullBucket
    [.removeNode (KadId.ofNat KAD_BUCKET_MAX), .removeNode (KadId.ofNat 0)]
  refine hkeeps (KadId.ofNat KAD_BUCKET_MAX) ?_ (fun now kn h => by cases h) ?_ ?_
  · show 0 < _
    rw [removals_removeNode_self]
    exact Nat.succ_pos _
  · decide +kernel
  · decide +kernel

/-- Two nodes of `fullBucket` fail; the candidate takes the place of the first. -/
theorem keepsOut_fullBucket :
    Runs.Along (step StdSort.insertion) (KeepsOut StdSort.insertion) (ofBucket fullBucket)
      [.removeNode (KadId.ofNat 0), .removeNode (KadId.ofNat 1)] :=
  keepsOut_of_sparesCandidates StdSort.insertion fullBucket
    [.removeNode (KadId.ofNat 0), .removeNode (KadId.ofNat 1)]
    ⟨(by decide +kernel : KadId.ofNat 0 ∉ _), (by decide +kernel : KadId.ofNat 1 ∉ _), trivial⟩

/-! ### The entries and the history -/

/-- The clock of a push is past every push that is on record. -/
def InOrder (w : Watched) : Call → Prop
  | .pushNode now _ => ∀ id t, w.lastPush id = some t → t.toInt < now.toInt
  | .removeNode _ => True

/-- The entries agree with the history: each was last seen when it was last pushed, a node is
as stale as it was removed since, and both lists are in the order of the pushes. -/
structure Records (w : Watched) : Prop where
  lastSeen : ∀ n ∈ w.bucket.entries, w.lastPush n.id = some n.lastSeen
  stales : ∀ n ∈ w.bucket.nodes, n.stales.toInt = w.removals n.id
  nodes_sorted : w.bucket.nodes.Pairwise fun m n =>
    ∀ s t, w.lastPush m.id = some s → w.lastPush n.id = some t → t.toInt ≤ s.toInt
  replacement_sorted : w.bucket.replacementNodes.Pairwise fun m n =>
    ∀ s t, w.lastPush m.id = some s → w.lastPush n.id = some t → t.toInt ≤ s.toInt

/-- The call leaves the entries in agreement: a node that enters a list brings the time of the
push with it, and into `nodes` no stales; it is not entered next to a candidate with its id; a
candidate that is promoted has been as stale as it was removed; and the stales can be counted. -/
def Recording (w : Watched) : Call → Prop
  | .pushNode now kn => kn.id ∉ w.bucket.ids →
      if w.bucket.nodes.length < KAD_BUCKET_MAX ∨ w.bucket.HasStale then
        kn.lastSeen = now ∧ kn.stales = 0 ∧ kn.id ∉ w.bucket.replacementIds
      else kn.id ∉ w.bucket.replacementIds → kn.lastSeen = now
  | .removeNode id => id ∈ w.bucket.ids →
      match w.bucket.replacementNodes with
      | first :: _ => first.stales.toInt = w.removals first.id
      | [] => w.removals id + 1 < 2 ^ 31

/-- What holds of a watched bucket besides: capacity and order, and every id once. -/
structure Sound (w : Watched) : Prop where
  inv : w.bucket.Inv
  nodup : w.bucket.heldIds.Nodup

/-- The first two parts of `Records`, of a bucket and a history. -/
structure Agrees (b : KadBucket) (lastPush : KadId → Option Int64) (removals : KadId → ℕ) :
    Prop where
  nodes : ∀ n ∈ b.nodes, lastPush n.id = some n.lastSeen ∧ n.stales.toInt = removals n.id
  replacement : ∀ n ∈ b.replacementNodes, lastPush n.id = some n.lastSeen

/-- The other two parts follow from the order of the lists. -/
theorem records_iff (hinv : w.bucket.Inv) :
    w.Records ↔ Agrees w.bucket w.lastPush w.removals := by
  constructor
  · intro h
    exact ⟨fun n hn => ⟨h.lastSeen n (List.mem_append_left _ hn), h.stales n hn⟩,
      fun n hn => h.lastSeen n (List.mem_append_right _ hn)⟩
  · intro h
    have hsorted : ∀ l : List KadNode, (∀ n ∈ l, w.lastPush n.id = some n.lastSeen) →
        (l.Pairwise fun m n => n.lastSeen.toInt ≤ m.lastSeen.toInt) →
          l.Pairwise fun m n =>
            ∀ s t, w.lastPush m.id = some s → w.lastPush n.id = some t → t.toInt ≤ s.toInt := by
      intro l hl hpair
      refine hpair.imp_of_mem fun {m n} hm hn hle s t hms hnt => ?_
      rw [hl m hm, Option.some_inj] at hms
      rw [hl n hn, Option.some_inj] at hnt
      exact hms ▸ hnt ▸ hle
    exact ⟨List.forall_mem_append.mpr ⟨fun n hn => (h.nodes n hn).1, h.replacement⟩,
      fun n hn => (h.nodes n hn).2, hsorted _ (fun n hn => (h.nodes n hn).1) hinv.nodes_sorted,
      hsorted _ h.replacement hinv.replacement_sorted⟩

section Agrees

variable {b : KadBucket} {lastPush : KadId → Option Int64} {removals : KadId → ℕ}

theorem agrees_reorder : Agrees (b.reorder std) lastPush removals ↔ Agrees b lastPush removals := by
  have hnodes : ∀ n, n ∈ (b.reorder std).nodes ↔ n ∈ b.nodes := fun n => (std.perm _ _).mem_iff
  have hreplacement : ∀ n, n ∈ (b.reorder std).replacementNodes ↔ n ∈ b.replacementNodes :=
    fun n => (std.perm _ _).mem_iff
  constructor
  · exact fun h => ⟨fun n hn => h.nodes n ((hnodes n).mpr hn),
      fun n hn => h.replacement n ((hreplacement n).mpr hn)⟩
  · exact fun h => ⟨fun n hn => h.nodes n ((hnodes n).mp hn),
      fun n hn => h.replacement n ((hreplacement n).mp hn)⟩

/-- An entry at the end of either list is one more that has to agree. -/
theorem agrees_append_iff {l r : List KadNode} {kn : KadNode} :
    Agrees ⟨l ++ [kn], r⟩ lastPush removals ↔ Agrees ⟨l, r⟩ lastPush removals ∧
      lastPush kn.id = some kn.lastSeen ∧ kn.stales.toInt = removals kn.id := by
  constructor
  · intro h
    obtain ⟨hold, hkn⟩ := List.forall_mem_append.mp h.nodes
    exact ⟨⟨hold, h.replacement⟩, hkn kn (List.mem_singleton_self kn)⟩
  · rintro ⟨h, hkn⟩
    exact ⟨List.forall_mem_append.mpr ⟨h.nodes, List.forall_mem_singleton.mpr hkn⟩, h.replacement⟩

theorem agrees_appendReplacement_iff {l r : List KadNode} {kn : KadNode} :
    Agrees ⟨l, r ++ [kn]⟩ lastPush removals ↔
      Agrees ⟨l, r⟩ lastPush removals ∧ lastPush kn.id = some kn.lastSeen := by
  constructor
  · intro h
    obtain ⟨hold, hkn⟩ := List.forall_mem_append.mp h.replacement
    exact ⟨⟨h.nodes, hold⟩, hkn kn (List.mem_singleton_self kn)⟩
  · rintro ⟨h, hkn⟩
    exact ⟨h.nodes, List.forall_mem_append.mpr ⟨h.replacement, List.forall_mem_singleton.mpr hkn⟩⟩

/-- Old entries with other ids agree with the history after a push. -/
theorem Agrees.pushed {l r : List KadNode} {id : KadId} (h : Agrees b lastPush removals)
    (now : Int64) (hl : l ⊆ b.nodes) (hr : r ⊆ b.replacementNodes) (hid : id ∉ l.map KadNode.id)
    (hid' : id ∉ r.map KadNode.id) :
    Agrees ⟨l, r⟩ (Function.update lastPush id (some now)) (Function.update removals id 0) := by
  constructor
  · intro n hn
    have hne : n.id ≠ id := fun heq => hid (heq ▸ List.mem_map_of_mem hn)
    rw [Function.update_of_ne hne, Function.update_of_ne hne]
    exact h.nodes n (hl hn)
  · intro n hn
    have hne : n.id ≠ id := fun heq => hid' (heq ▸ List.mem_map_of_mem hn)
    rw [Function.update_of_ne hne]
    exact h.replacement n (hr hn)

/-- A node that is found agrees: both are brought up to date. -/
theorem Agrees.refresh {now : Int64} {kn : KadNode} (h : Agrees b lastPush removals)
    (hd : b.heldIds.Nodup) (hid : kn.id ∈ b.ids) :
    Agrees ⟨b.nodes.updateFirst (·.eqv kn) fun n => (n.seenNow now).resetStales,
      b.replacementNodes⟩ (Function.update lastPush kn.id (some now))
        (Function.update removals kn.id 0) := by
  obtain ⟨hdn, -, hdisjoint⟩ := List.nodup_append.mp hd
  have hnot : kn.id ∉ b.replacementIds := fun hmem => hdisjoint _ hid _ hmem rfl
  refine ⟨fun n hn => ?_, (h.pushed now (List.nil_subset _) (List.Subset.refl _) List.not_mem_nil
    hnot).replacement⟩
  rcases List.mem_updateFirst_of_nodup (fun _ => KadNode.eqv_iff) hdn hn with
    ⟨hn, hnid⟩ | ⟨m, -, hm, rfl⟩
  · rw [Function.update_of_ne hnid, Function.update_of_ne hnid]
    exact h.nodes n hn
  · have hmid : ((m.seenNow now).resetStales).id = kn.id := hm
    rw [hmid, Function.update_self, Function.update_self]
    exact ⟨rfl, rfl⟩

theorem Agrees.refreshReplacement {now : Int64} {kn : KadNode} (h : Agrees b lastPush removals)
    (hd : b.heldIds.Nodup) (hid : kn.id ∉ b.ids) :
    Agrees ⟨b.nodes, b.replacementNodes.updateFirst (·.eqv kn) (·.seenNow now)⟩
      (Function.update lastPush kn.id (some now)) (Function.update removals kn.id 0) := by
  obtain ⟨-, hdr, -⟩ := List.nodup_append.mp hd
  refine ⟨(h.pushed now (List.Subset.refl _) (List.nil_subset _) hid List.not_mem_nil).nodes,
    fun n hn => ?_⟩
  rcases List.mem_updateFirst_of_nodup (fun _ => KadNode.eqv_iff) hdr hn with
    ⟨hn, hnid⟩ | ⟨m, -, hm, rfl⟩
  · rw [Function.update_of_ne hnid]
    exact h.replacement n hn
  · have hmid : (m.seenNow now).id = kn.id := hm
    rw [hmid, Function.update_self]
    rfl

/-- Candidates that agree with a push have another id: one with the same id would have been
pushed just now. -/
theorem Agrees.not_mem_replacementIds {now : Int64} {id : KadId} (h : Agrees b lastPush removals)
    (hclock : ∀ id t, lastPush id = some t → t.toInt < now.toInt)
    (h' : ∀ n ∈ b.replacementNodes, Function.update lastPush id (some now) n.id = some n.lastSeen) :
    id ∉ b.replacementIds := by
  intro hmem
  obtain ⟨m, hm, hmid⟩ := List.mem_map.mp hmem
  have hnow := h' m hm
  rw [hmid, Function.update_self, Option.some_inj] at hnow
  have hlt := hclock _ _ (h.replacement m hm)
  rw [hnow] at hlt
  exact lt_irrefl _ hlt

/-- **Which pushes leave the entries in agreement.** -/
theorem agrees_pushed_iff {now : Int64} {kn : KadNode} {b' : KadBucket} {found : Bool}
    (hinv : b.Inv) (hd : b.heldIds.Nodup) (h : Agrees b lastPush removals)
    (hclock : ∀ id t, lastPush id = some t → t.toInt < now.toInt) (hp : Pushed now b kn b' found) :
    Agrees b' (Function.update lastPush kn.id (some now)) (Function.update removals kn.id 0) ↔
      (kn.id ∉ b.ids →
        if b.nodes.length < KAD_BUCKET_MAX ∨ b.HasStale then
          kn.lastSeen = now ∧ kn.stales = 0 ∧ kn.id ∉ b.replacementIds
        else kn.id ∉ b.replacementIds → kn.lastSeen = now) := by
  have hseen : Function.update lastPush kn.id (some now) kn.id = some kn.lastSeen ↔
      kn.lastSeen = now := by
    rw [Function.update_self, Option.some_inj, eq_comm]
  have hstales : kn.stales.toInt = (Function.update removals kn.id 0 kn.id : ℕ) ↔
      kn.stales = 0 := by
    rw [Function.update_self, Nat.cast_zero, ← Int32.toInt_inj, Int32.toInt_zero]
  cases hp with
  | refresh hid => exact iff_of_true (h.refresh hd hid) fun hnot => absurd hid hnot
  | append hid hroom =>
    have hnil : b.replacementNodes = [] := by
      by_contra hne
      have := hinv.full_of_replacement hne
      omega
    have hnot : kn.id ∉ b.replacementIds := by simp [replacementIds, hnil]
    rw [imp_iff_right hid, if_pos (Or.inl hroom), agrees_append_iff, hseen, hstales,
      and_iff_left hnot]
    exact and_iff_right (h.pushed now (List.Subset.refl _) (List.Subset.refl _) hid hnot)
  | evict hid hfull i hi =>
    rw [imp_iff_right hid, if_pos (Or.inr (hasStale_of_stalest hi)), agrees_append_iff, hseen,
      hstales, and_comm, and_assoc]
    refine and_congr_right fun _ => and_congr_right fun _ => ⟨fun h' => ?_, fun hnot => ?_⟩
    · exact h.not_mem_replacementIds hclock h'.replacement
    · have hsub := List.eraseIdx_sublist b.nodes i
      exact h.pushed now hsub.subset (List.Subset.refl _)
        (fun hmem => hid ((hsub.map KadNode.id).subset hmem)) hnot
  | refreshReplacement hid hfull hstale hr =>
    rw [imp_iff_right hid, if_neg (not_or.mpr ⟨Nat.not_lt.mpr hfull, hstale⟩)]
    exact iff_of_true (h.refreshReplacement hd hid) fun hnot => absurd hr hnot
  | appendReplacement hid hfull hstale hr hroom =>
    rw [imp_iff_right hid, if_neg (not_or.mpr ⟨Nat.not_lt.mpr hfull, hstale⟩), imp_iff_right hr,
      agrees_appendReplacement_iff, hseen]
    exact and_iff_right (h.pushed now (List.Subset.refl _) (List.Subset.refl _) hid hr)
  | overflow hid hfull hstale hr hroom =>
    have hsub := List.dropLast_sublist b.replacementNodes
    rw [imp_iff_right hid, if_neg (not_or.mpr ⟨Nat.not_lt.mpr hfull, hstale⟩), imp_iff_right hr,
      agrees_appendReplacement_iff, hseen]
    exact and_iff_right (h.pushed now (List.Subset.refl _) hsub.subset hid
      fun hmem => hr ((hsub.map KadNode.id).subset hmem))

/-- The nodes that are left when one is erased have other ids. -/
theorem id_ne_of_mem_eraseP {id : KadId} {n : KadNode} (hd : b.ids.Nodup)
    (hn : n ∈ b.nodes.eraseP fun n => decide (n.id = id)) : n.id ≠ id := by
  have hids : (b.nodes.eraseP fun n => decide (n.id = id)).map KadNode.id = b.ids.erase id := by
    rw [ids, List.erase_eq_eraseP, List.eraseP_map]
    congr 2
    funext n
    rw [Function.comp, Bool.eq_iff_iff, decide_eq_true_iff, beq_iff_eq, eq_comm]
  have hmem : n.id ∈ b.ids.erase id := hids ▸ List.mem_map_of_mem hn
  exact (hd.mem_erase_iff.mp hmem).1

theorem toInt_incrementStales {n : KadNode} {k : ℕ} (h : n.stales.toInt = k) :
    n.incrementStales.stales.toInt = (k + 1 : ℕ) ↔ k + 1 < 2 ^ 31 := by
  have hadd : n.incrementStales.stales.toInt = (n.stales.toInt + 1).bmod (2 ^ 32) :=
    Int32.toInt_add n.stales 1
  have hlt := n.incrementStales.stales.toInt_lt
  constructor
  · intro heq
    rw [heq] at hlt
    omega
  · intro hk
    rw [hadd, h, Int.bmod_eq_of_le (by omega) (by omega)]
    rfl

/-- The other nodes are not affected by a removal. -/
theorem Agrees.node_of_ne {id : KadId} (h : Agrees b lastPush removals) {n : KadNode}
    (hn : n ∈ b.nodes) (hid : n.id ≠ id) : lastPush n.id = some n.lastSeen ∧
      n.stales.toInt = (Function.update removals id (removals id + 1) n.id : ℕ) := by
  rw [Function.update_of_ne hid]
  exact h.nodes n hn

/-- A node that is one step more stale agrees as long as its counter does not overflow. -/
theorem agrees_incrementStales_iff {id : KadId} (hdn : b.ids.Nodup)
    (h : Agrees b lastPush removals) (hid : id ∈ b.ids) (hr : b.replacementNodes = []) :
    Agrees { b with nodes := b.nodes.updateFirst (fun n => decide (n.id = id)) (·.incrementStales) }
        lastPush (Function.update removals id (removals id + 1)) ↔
      removals id + 1 < 2 ^ 31 := by
  constructor
  · intro h'
    obtain ⟨n, hn, hnid⟩ := List.mem_map.mp hid
    obtain ⟨m, hm, hmid, hmem⟩ := List.exists_mem_updateFirst KadNode.incrementStales hn
      (p := fun n => decide (n.id = id)) (decide_eq_true hnid)
    have hmid : m.id = id := of_decide_eq_true hmid
    have hcount := (h'.nodes _ hmem).2
    have hid' : m.incrementStales.id = id := hmid
    rw [hid', Function.update_self] at hcount
    exact (toInt_incrementStales (hmid ▸ (h.nodes m hm).2)).mp hcount
  · intro hlt
    refine ⟨fun n hn => ?_, fun n hn => absurd (hr ▸ hn) List.not_mem_nil⟩
    rcases List.mem_updateFirst_of_nodup (fun _ => decide_eq_true_iff) hdn hn with
      ⟨hn, hnid⟩ | ⟨m, hm, hmid, rfl⟩
    · exact h.node_of_ne hn hnid
    · have hid' : m.incrementStales.id = id := hmid
      rw [hid', Function.update_self]
      exact ⟨hmid ▸ (h.nodes m hm).1, (toInt_incrementStales (hmid ▸ (h.nodes m hm).2)).mpr hlt⟩

/-- **Which removals leave the entries in agreement.** -/
theorem agrees_removed_iff {id : KadId} {b' : KadBucket} (hd : b.heldIds.Nodup)
    (h : Agrees b lastPush removals) (hr : Removed std b id b') :
    Agrees b' lastPush (Function.update removals id (removals id + 1)) ↔
      (id ∈ b.ids →
        match b.replacementNodes with
        | first :: _ => first.stales.toInt = removals first.id
        | [] => removals id + 1 < 2 ^ 31) := by
  obtain ⟨hdn, -, hdisjoint⟩ := List.nodup_append.mp hd
  cases hr with
  | promote hid first rest hr =>
    have hfirst : first.id ≠ id := by
      refine fun heq => hdisjoint _ hid first.id ?_ heq.symm
      rw [replacementIds, hr]
      exact List.mem_cons_self
    have hcandidate := h.replacement
    rw [hr, List.forall_mem_cons] at hcandidate
    rw [agrees_reorder, imp_iff_right hid, hr, agrees_append_iff, and_iff_right hcandidate.1,
      Function.update_of_ne hfirst]
    refine and_iff_right ⟨fun n hn => ?_, hcandidate.2⟩
    exact h.node_of_ne (List.mem_of_mem_eraseP hn) (id_ne_of_mem_eraseP hdn hn)
  | stale hid hr =>
    rw [agrees_incrementStales_iff hdn h hid hr, imp_iff_right hid, hr]
  | absent hid =>
    refine iff_of_true ⟨fun n hn => ?_, h.replacement⟩ fun hin => absurd hin hid
    exact h.node_of_ne hn fun heq => hid (heq ▸ List.mem_map_of_mem hn)

end Agrees

/-! ### Runs -/

theorem inv_bucket_step {call : Call} (hinv : w.bucket.Inv) : (w.step std call).bucket.Inv := by
  cases call with
  | pushNode now kn => exact inv_pushNode std now kn hinv
  | removeNode id => exact inv_removeNode std id hinv

/-- **Which calls leave the entries in agreement with the history.** -/
theorem records_step_iff {call : Call} (hs : w.Sound) (hr : w.Records) (hin : w.InOrder call) :
    (w.step std call).Records ↔ w.Recording call := by
  have hagrees := (records_iff hs.inv).mp hr
  rw [records_iff (inv_bucket_step hs.inv)]
  cases call with
  | pushNode now kn =>
    obtain ⟨b', found, hp, heq⟩ := w.bucket.pushNode_cases std now kn
    rw [step, heq, agrees_reorder]
    exact agrees_pushed_iff hs.inv hs.nodup hagrees hin hp
  | removeNode id => exact agrees_removed_iff hs.nodup hagrees (w.bucket.removeNode_cases std id)

theorem sound_step {call : Call} (hs : w.Sound) (hcall : w.Recording call) :
    (w.step std call).Sound := by
  refine ⟨inv_bucket_step hs.inv, ?_⟩
  cases call with
  | pushNode now kn =>
    refine (nodup_pushNode_iff std now hs.inv hs.nodup).mpr fun hheld => ?_
    obtain ⟨hid, hfull, hstale, hmem⟩ := hheld
    have hentered := hcall hid
    rw [if_pos (Or.inr hstale)] at hentered
    exact hentered.2.2 hmem
  | removeNode id =>
    obtain ⟨old, hsub, hperm⟩ := w.bucket.heldIds_removeNode std id
    exact hperm.nodup_iff.mpr (hs.nodup.sublist hsub)

/-- The pushes on record are no later than those in a list. -/
theorem along_inOrder (std : StdSort) : ∀ (calls : List Call) (w : Watched),
    (∀ id t, w.lastPush id = some t → ∀ now ∈ calls.filterMap Call.time?, t.toInt < now.toInt) →
      ((calls.filterMap Call.time?).Pairwise fun s t => s.toInt < t.toInt) →
        Runs.Along (step std) InOrder w calls := by
  intro calls
  induction calls with
  | nil => exact fun w _ _ => trivial
  | cons call calls ih =>
    intro w hpast hpair
    cases call with
    | pushNode now kn =>
      rw [List.filterMap_cons_some (show Call.time? (.pushNode now kn) = some now from rfl)]
        at hpast hpair
      obtain ⟨hnow, hpair⟩ := List.pairwise_cons.mp hpair
      refine ⟨fun id t ht => hpast id t ht now List.mem_cons_self, ih _ (fun id t ht => ?_) hpair⟩
      by_cases hid : id = kn.id
      · rw [hid, lastPush_pushNode_self, Option.some_inj] at ht
        exact ht ▸ hnow
      · rw [lastPush_pushNode_of_ne std w now kn hid] at ht
        exact fun s hs => hpast id t ht s (List.mem_cons_of_mem _ hs)
    | removeNode id =>
      rw [List.filterMap_cons_none (show Call.time? (.removeNode id) = none from rfl)]
        at hpast hpair
      exact ⟨trivial, ih _ hpast hpair⟩

theorem sound_empty : (ofBucket empty).Sound := ⟨inv_empty, List.nodup_nil⟩

theorem records_empty : (ofBucket empty).Records :=
  (records_iff inv_empty).mpr
    ⟨fun _ hn => absurd hn List.not_mem_nil, fun _ hn => absurd hn List.not_mem_nil⟩

/-- **Exactly when the entries agree with the history** all along a run on an empty bucket
whose clock increases between the pushes. -/
theorem always_records_iff (std : StdSort) (calls : List Call)
    (hclock : (calls.filterMap Call.time?).Pairwise fun s t => s.toInt < t.toInt) :
    Runs.Always (step std) Records (ofBucket empty) calls ↔
      Runs.Along (step std) Recording (ofBucket empty) calls :=
  Runs.always_iff_along_of (fun w _ (hs : w.Sound) _ _ hcall => sound_step hs hcall)
    (fun _ _ hs hr hin => records_step_iff hs hr hin) calls (ofBucket empty) sound_empty
    records_empty (along_inOrder std calls _ (fun _ _ h => by cases h) hclock)

/-- A node as its constructor leaves it is pushed at time 1. -/
def freshPush : List Call := [.pushNode 1 (KadNode.new (KadId.ofNat 1) [97])]

/-- It is stored with the `lastSeen` that it came with. -/
theorem not_forall_always_records : ¬ ∀ (std : StdSort) (calls : List Call),
    ((calls.filterMap Call.time?).Pairwise fun s t => s.toInt < t.toInt) →
      Runs.Always (step std) Records (ofBucket empty) calls := by
  intro h
  have hrecords := (h StdSort.insertion freshPush (List.pairwise_singleton _ _)).2
  have hseen := hrecords.lastSeen (KadNode.new (KadId.ofNat 1) [97]) (by decide)
  exact absurd hseen (by decide)

/-- Two nodes are pushed, one of them comes again, and the other one fails. -/
def comesAgain : List Call :=
  let a := KadNode.new (KadId.ofNat 1) [97]
  let b := KadNode.new (KadId.ofNat 2) [98]
  [.pushNode 1 { a with lastSeen := 1 }, .pushNode 2 b, .pushNode 5 a, .removeNode (KadId.ofNat 2),
    .pushNode 9 b]

theorem always_records_comesAgain :
    Runs.Always (step StdSort.insertion) Records (ofBucket empty) comesAgain ↔
      Runs.Along (step StdSort.insertion) Recording (ofBucket empty) comesAgain :=
  always_records_iff StdSort.insertion comesAgain (by decide)

end Watched

end KadBucket

end SniffDogSniff
