import SniffDogSniff.Kademlia.KadBucket
import SniffDogSniff.Base.Runs
import Mathlib.Data.Finset.Card

/-!
# What a push forgets, and how a bucket fills

A push into a full bucket may cost an entry its place.  The node that leaves `nodes`
is the one with the most stales, and only when these reach `STALES_THR`; the candidate
that leaves `replacementNodes` is the last one of a full list.  With nodes that never
fail, nothing is forgotten before both lists are full.

## Main definitions

* `KadBucket.PushKeeps` — what may be lost for a node that is pushed.
* `KadBucket.pushAll` — a list of pushes.
* `KadBucket.Filled` — a bucket after pushes of nodes without stales.

## Main results

* `pushKeeps_pushNode` — **what a push may forget.**
* `filled_pushAll`, `lengths_pushAll` — **how many entries any list of pushes leaves.**
-/

namespace SniffDogSniff

namespace KadBucket

variable {b : KadBucket}

/-! ### What a push may forget -/

/-- What a push of `kn` may do to the lists: no live node is lost, the node that makes room is
the stalest one, the candidate that makes room is the last one of a full list, and `kn` is
held afterwards. -/
structure PushKeeps (b b' : KadBucket) (kn : KadNode) : Prop where
  live : ∀ n ∈ b.nodes, n.stales.toInt < STALES_THR → n.id ∈ b'.ids
  nodes : b'.ids.Perm b.ids ∨ b'.nodes.Perm (kn :: b.nodes) ∨
    ∃ n rest, b.nodes.Perm (n :: rest) ∧ b'.nodes.Perm (kn :: rest) ∧
      STALES_THR ≤ n.stales.toInt ∧ ∀ k ∈ b.nodes, k.stales.toInt ≤ n.stales.toInt
  replacement : b'.replacementIds.Perm b.replacementIds ∨
    b'.replacementNodes.Perm (kn :: b.replacementNodes) ∨
      b.replacementNodes.length = KAD_BUCKET_MAX ∧ ∃ front last,
        b.replacementNodes = front ++ [last] ∧ b'.replacementNodes.Perm (kn :: front)
  held : kn.id ∈ b'.heldIds

theorem mem_ids_reorder {std : StdSort} {id : KadId} : id ∈ (b.reorder std).ids ↔ id ∈ b.ids :=
  ((std.perm _ _).map _).mem_iff

theorem mem_replacementIds_reorder {std : StdSort} {id : KadId} :
    id ∈ (b.reorder std).replacementIds ↔ id ∈ b.replacementIds :=
  ((std.perm _ _).map _).mem_iff

theorem PushKeeps.reorder {b' : KadBucket} {kn : KadNode} (std : StdSort)
    (h : PushKeeps b b' kn) : PushKeeps b (b'.reorder std) kn where
  live n hn hlt := mem_ids_reorder.mpr (h.live n hn hlt)
  nodes := by
    have hperm : (b'.reorder std).nodes.Perm b'.nodes := std.perm _ _
    rcases h.nodes with hids | hadd | ⟨n, rest, hold, hnew, hstale⟩
    · exact Or.inl ((hperm.map _).trans hids)
    · exact Or.inr (Or.inl (hperm.trans hadd))
    · exact Or.inr (Or.inr ⟨n, rest, hold, hperm.trans hnew, hstale⟩)
  replacement := by
    have hperm : (b'.reorder std).replacementNodes.Perm b'.replacementNodes := std.perm _ _
    rcases h.replacement with hids | hadd | ⟨hfull, front, last, hold, hnew⟩
    · exact Or.inl ((hperm.map _).trans hids)
    · exact Or.inr (Or.inl (hperm.trans hadd))
    · exact Or.inr (Or.inr ⟨hfull, front, last, hold, hperm.trans hnew⟩)
  held := (b'.perm_heldIds_reorder std).mem_iff.mpr h.held

/-- A node of the list other than the one at index `i` survives the erasure. -/
theorem mem_eraseIdx_of_ne {l : List KadNode} {i : ℕ} {m n : KadNode} (hi : l[i]? = some m)
    (hn : n ∈ l) (hne : n ≠ m) : n ∈ l.eraseIdx i := by
  rw [List.mem_eraseIdx_iff_getElem?]
  obtain ⟨j, hj⟩ := List.mem_iff_getElem?.mp hn
  refine ⟨j, fun hij => hne ?_, hj⟩
  rw [← hij, hj, Option.some_inj] at hi
  exact hi

/-- The node that is pushed is held. -/
theorem id_mem_heldIds_of_pushed {now : Int64} {kn : KadNode} {b' : KadBucket} {found : Bool}
    (h : Pushed now b kn b' found) : kn.id ∈ b'.heldIds := by
  cases h with
  | refresh h =>
    rw [heldIds_mk, map_id_refresh]
    exact List.mem_append_left _ h
  | append h hroom => exact (perm_heldIds_append _ _ kn).mem_iff.mpr List.mem_cons_self
  | evict h hfull i hi => exact (perm_heldIds_append _ _ kn).mem_iff.mpr List.mem_cons_self
  | refreshReplacement h hfull hstale hr =>
    rw [heldIds_mk, map_id_seenNow]
    exact List.mem_append_right _ hr
  | appendReplacement h hfull hstale hr hroom =>
    exact (perm_heldIds_appendReplacement _ _ kn).mem_iff.mpr List.mem_cons_self
  | overflow h hfull hstale hr hroom =>
    exact (perm_heldIds_appendReplacement _ _ kn).mem_iff.mpr List.mem_cons_self

/-- Each branch of `pushNode` keeps what it has to. -/
theorem pushKeeps_of_pushed {now : Int64} {kn : KadNode} {b' : KadBucket} {found : Bool}
    (hmax : b.replacementNodes.length ≤ KAD_BUCKET_MAX) (h : Pushed now b kn b' found) :
    PushKeeps b b' kn := by
  have hheld := id_mem_heldIds_of_pushed h
  have hlive : ∀ n ∈ b.nodes, n.stales.toInt < STALES_THR → n.id ∈ b.ids :=
    fun n hn _ => List.mem_map_of_mem hn
  cases h with
  | refresh h =>
    have hids : (b.nodes.updateFirst (·.eqv kn) fun n => (n.seenNow now).resetStales).map
        KadNode.id = b.ids := map_id_refresh _ now _
    refine ⟨fun n hn hlt => ?_, Or.inl (List.Perm.of_eq hids), Or.inl (List.Perm.refl _), hheld⟩
    exact (List.Perm.of_eq hids).mem_iff.mpr (hlive n hn hlt)
  | append h hroom =>
    refine ⟨fun n hn hlt => ?_, Or.inr (Or.inl (List.perm_append_singleton _ _)),
      Or.inl (List.Perm.refl _), hheld⟩
    exact List.mem_map_of_mem (List.mem_append_left _ hn)
  | evict h hfull i hi =>
    obtain ⟨n, hn, hthr, hle⟩ := stalest_spec hi
    obtain ⟨hlt, hget⟩ := List.getElem?_eq_some_iff.mp hn
    refine ⟨fun m hm hlive => ?_, Or.inr (Or.inr ⟨n, b.nodes.eraseIdx i, ?_,
      List.perm_append_singleton _ _, hthr, hle⟩), Or.inl (List.Perm.refl _), hheld⟩
    · have hne : m ≠ n := fun heq => absurd (heq ▸ hlive) (Int.not_lt.mpr hthr)
      exact List.mem_map_of_mem (List.mem_append_left _ (mem_eraseIdx_of_ne hn hm hne))
    · rw [← hget]
      exact (List.getElem_cons_eraseIdx_perm hlt).symm
  | refreshReplacement h hfull hstale hr =>
    have hids : (b.replacementNodes.updateFirst (·.eqv kn) (·.seenNow now)).map KadNode.id =
        b.replacementIds := map_id_seenNow _ now _
    exact ⟨hlive, Or.inl (List.Perm.refl _), Or.inl (List.Perm.of_eq hids), hheld⟩
  | appendReplacement h hfull hstale hr hroom =>
    exact ⟨hlive, Or.inl (List.Perm.refl _), Or.inr (Or.inl (List.perm_append_singleton _ _)),
      hheld⟩
  | overflow h hfull hstale hr hroom =>
    have hne : b.replacementNodes ≠ [] := by
      apply List.ne_nil_of_length_pos
      have hpos : 0 < KAD_BUCKET_MAX := by decide
      omega
    refine ⟨hlive, Or.inl (List.Perm.refl _), Or.inr (Or.inr ⟨Nat.le_antisymm hmax hroom,
      b.replacementNodes.dropLast, b.replacementNodes.getLast hne, ?_,
      List.perm_append_singleton _ _⟩), hheld⟩
    exact (List.dropLast_append_getLast hne).symm

/-- **What a push may forget.** -/
theorem pushKeeps_pushNode (std : StdSort) (now : Int64) (kn : KadNode)
    (hreplacement : b.replacementNodes.length ≤ KAD_BUCKET_MAX) :
    PushKeeps b (b.pushNode std now kn).1 kn := by
  obtain ⟨b', found, hp, heq⟩ := b.pushNode_cases std now kn
  rw [heq]
  exact (pushKeeps_of_pushed hreplacement hp).reorder std

/-- Twenty nodes, all of them stale. -/
def staleBucket : KadBucket :=
  ⟨(List.range KAD_BUCKET_MAX).map fun i => ⟨KadId.ofNat i, [97], 0, 5⟩, []⟩

theorem pushKeeps_staleBucket :
    PushKeeps staleBucket
      (staleBucket.pushNode StdSort.insertion 1 (KadNode.new (KadId.ofNat 20) [98])).1
      (KadNode.new (KadId.ofNat 20) [98]) :=
  pushKeeps_pushNode StdSort.insertion 1 (KadNode.new (KadId.ofNat 20) [98]) (by decide)

/-! ### How a bucket fills -/

/-- The bucket after a list of pushes, each with its time. -/
def pushAll (std : StdSort) (b : KadBucket) (pushes : List (Int64 × KadNode)) : KadBucket :=
  Runs.run (fun b (p : Int64 × KadNode) => (b.pushNode std p.1 p.2).1) b pushes

/-- The ids of a list of pushes. -/
def pushedIds (pushes : List (Int64 × KadNode)) : Finset KadId :=
  (pushes.map fun p => p.2.id).toFinset

/-- A bucket after pushes of nodes without stales, whose ids are `pushed`. -/
structure Filled (b : KadBucket) (pushed : Finset KadId) : Prop where
  fresh : ∀ n ∈ b.nodes, n.stales = 0
  subset : ∀ id ∈ b.heldIds, id ∈ pushed
  length_nodes : b.nodes.length = min pushed.card KAD_BUCKET_MAX
  length_replacement : b.replacementNodes.length =
    min (pushed.card - min pushed.card KAD_BUCKET_MAX) KAD_BUCKET_MAX
  held : pushed.card ≤ 2 * KAD_BUCKET_MAX → ∀ id ∈ pushed, id ∈ b.heldIds

theorem filled_empty : Filled empty ∅ where
  fresh := by simp [empty]
  subset := by simp [empty, heldIds, ids, replacementIds]
  length_nodes := by simp [empty]
  length_replacement := by simp [empty]
  held := by simp

theorem Filled.reorder {pushed : Finset KadId} (std : StdSort) (h : Filled b pushed) :
    Filled (b.reorder std) pushed where
  fresh n hn := h.fresh n ((std.perm _ _).mem_iff.mp hn)
  subset id hid := h.subset id ((b.perm_heldIds_reorder std).mem_iff.mp hid)
  length_nodes := by rw [length_nodes_reorder, h.length_nodes]
  length_replacement := by rw [length_replacementNodes_reorder, h.length_replacement]
  held hle id hid := (b.perm_heldIds_reorder std).mem_iff.mpr (h.held hle id hid)

theorem Filled.not_hasStale {pushed : Finset KadId} (h : Filled b pushed) : ¬ b.HasStale := by
  rintro ⟨n, hn, hthr⟩
  rw [h.fresh n hn] at hthr
  exact absurd hthr (by decide)

/-- A push that keeps the ids that are held keeps a filled bucket filled. -/
theorem Filled.of_ids {b' : KadBucket} {pushed : Finset KadId} {id : KadId} (h : Filled b pushed)
    (hid : id ∈ pushed) (hfresh : ∀ n ∈ b'.nodes, n.stales = 0)
    (hnodes : b'.ids = b.ids) (hreplacement : b'.replacementIds = b.replacementIds) :
    Filled b' (insert id pushed) := by
  have hheld : b'.heldIds = b.heldIds := by rw [heldIds, hnodes, hreplacement, heldIds]
  have hlen : b'.nodes.length = b.nodes.length := by
    simpa [ids] using congrArg List.length hnodes
  have hlen' : b'.replacementNodes.length = b.replacementNodes.length := by
    simpa [replacementIds] using congrArg List.length hreplacement
  rw [Finset.insert_eq_of_mem hid]
  refine ⟨hfresh, hheld ▸ h.subset, hlen.trans h.length_nodes, hlen'.trans h.length_replacement, ?_⟩
  exact hheld ▸ h.held

/-- While there is room in one of the lists, everything pushed is held, so a node that is not is
a new one. -/
theorem Filled.of_new {b' : KadBucket} {kn : KadNode} {pushed : Finset KadId} (h : Filled b pushed)
    (hnew : kn.id ∉ b.heldIds) (hcard : pushed.card < 2 * KAD_BUCKET_MAX)
    (hids : b'.heldIds.Perm (kn.id :: b.heldIds)) (hfresh : ∀ n ∈ b'.nodes, n.stales = 0)
    (hlen : b'.nodes.length = min (pushed.card + 1) KAD_BUCKET_MAX)
    (hlen' : b'.replacementNodes.length =
      min (pushed.card + 1 - min (pushed.card + 1) KAD_BUCKET_MAX) KAD_BUCKET_MAX) :
    Filled b' (insert kn.id pushed) := by
  have hnot : kn.id ∉ pushed := fun hmem => hnew (h.held hcard.le _ hmem)
  have hcard' := Finset.card_insert_of_notMem hnot
  refine ⟨hfresh, fun id hmem => ?_, hcard'.symm ▸ hlen, hcard'.symm ▸ hlen', fun _ id hmem => ?_⟩
  · rcases List.mem_cons.mp (hids.mem_iff.mp hmem) with rfl | hmem
    · exact Finset.mem_insert_self _ _
    · exact Finset.mem_insert_of_mem (h.subset id hmem)
  · rw [hids.mem_iff, List.mem_cons]
    exact (Finset.mem_insert.mp hmem).imp_right (h.held hcard.le id)

/-- Where both lists are full, a node that is not held may have been pushed and forgotten
before. -/
theorem Filled.overflow {kn : KadNode} {pushed : Finset KadId} (h : Filled b pushed)
    (hnew : kn.id ∉ b.heldIds) (hroom : KAD_BUCKET_MAX ≤ b.replacementNodes.length) :
    Filled ⟨b.nodes, b.replacementNodes.dropLast ++ [kn]⟩ (insert kn.id pushed) := by
  have hmax : KAD_BUCKET_MAX = 20 := rfl
  have hlen := h.length_nodes
  have hlen' := h.length_replacement
  have hcard : 2 * KAD_BUCKET_MAX ≤ pushed.card := by omega
  have hlarge : 2 * KAD_BUCKET_MAX < (insert kn.id pushed).card := by
    by_cases hmem : kn.id ∈ pushed
    · rw [Finset.insert_eq_of_mem hmem]
      by_contra hle
      exact hnew (h.held (Nat.le_of_not_lt hle) _ hmem)
    · rw [Finset.card_insert_of_notMem hmem]
      omega
  refine ⟨h.fresh, fun id hmem => ?_, ?_, ?_, fun hle => absurd hle (Nat.not_le_of_lt hlarge)⟩
  · have hsub : (KadBucket.mk b.nodes b.replacementNodes.dropLast).heldIds.Sublist b.heldIds :=
      (List.Sublist.refl _).append ((List.dropLast_sublist _).map _)
    rcases List.mem_cons.mp ((perm_heldIds_appendReplacement _ _ kn).mem_iff.mp hmem) with
      rfl | hmem
    · exact Finset.mem_insert_self _ _
    · exact Finset.mem_insert_of_mem (h.subset id (hsub.subset hmem))
  · show b.nodes.length = _
    omega
  · rw [List.length_append, List.length_dropLast, List.length_singleton]
    omega

theorem filled_of_pushed {now : Int64} {kn : KadNode} {b' : KadBucket} {found : Bool}
    {pushed : Finset KadId} (h : Filled b pushed) (hkn : kn.stales = 0)
    (hp : Pushed now b kn b' found) : Filled b' (insert kn.id pushed) := by
  have hmax : KAD_BUCKET_MAX = 20 := rfl
  have hlen := h.length_nodes
  have hlen' := h.length_replacement
  have hnew : kn.id ∉ b.ids → kn.id ∉ b.replacementIds → kn.id ∉ b.heldIds :=
    fun hid hr hmem => (mem_heldIds.mp hmem).elim hid hr
  cases hp with
  | refresh hid =>
    refine h.of_ids (h.subset _ (mem_heldIds.mpr (Or.inl hid))) (fun n hn => ?_) ?_ rfl
    · rcases List.mem_updateFirst hn with hn | ⟨m, -, rfl⟩
      · exact h.fresh n hn
      · rfl
    · exact map_id_refresh _ now _
  | append hid hroom =>
    -- with room in `nodes` there are no candidates
    have hnil : b.replacementNodes = [] := by
      apply List.eq_nil_of_length_eq_zero
      omega
    have hr : kn.id ∉ b.replacementIds := by simp [replacementIds, hnil]
    refine h.of_new (hnew hid hr) (by omega) (perm_heldIds_append _ _ kn) (fun n hn => ?_) ?_ ?_
    · rcases List.mem_append.mp hn with hn | hn
      · exact h.fresh n hn
      · rwa [List.mem_singleton.mp hn]
    · rw [List.length_append, List.length_singleton]
      omega
    · rw [hnil, List.length_nil]
      omega
  | evict hid hfull i hi => exact absurd (hasStale_of_stalest hi) h.not_hasStale
  | refreshReplacement hid hfull hstale hr =>
    refine h.of_ids (h.subset _ (mem_heldIds.mpr (Or.inr hr))) h.fresh rfl ?_
    exact map_id_seenNow _ now _
  | appendReplacement hid hfull hstale hr hroom =>
    refine h.of_new (hnew hid hr) (by omega) (perm_heldIds_appendReplacement _ _ kn) h.fresh ?_ ?_
    · show b.nodes.length = _
      omega
    · rw [List.length_append, List.length_singleton]
      omega
  | overflow hid hfull hstale hr hroom => exact h.overflow (hnew hid hr) hroom

/-- **How a bucket fills**, in a run of pushes of nodes without stales. -/
theorem filled_pushAll (std : StdSort) (pushes : List (Int64 × KadNode)) (b : KadBucket)
    (pushed : Finset KadId) (hb : Filled b pushed) (hfresh : ∀ p ∈ pushes, p.2.stales = 0) :
    Filled (pushAll std b pushes) (pushed ∪ pushedIds pushes) := by
  induction pushes generalizing b pushed with
  | nil => simpa [pushAll, pushedIds] using hb
  | cons p pushes ih =>
    obtain ⟨b', found, hp, heq⟩ := b.pushNode_cases std p.1 p.2
    have hstep := (filled_of_pushed hb (hfresh p List.mem_cons_self) hp).reorder std
    have hrun := ih _ _ hstep fun q hq => hfresh q (List.mem_cons_of_mem _ hq)
    rw [pushAll, Runs.run_cons, heq, pushedIds, List.map_cons, List.toFinset_cons,
      Finset.union_insert, ← Finset.insert_union]
    exact hrun

/-- **How many entries any list of pushes into an empty bucket leaves**, for nodes without
stales: `nodes` fills first, then `replacementNodes`, and no id is forgotten before both are
full. -/
theorem lengths_pushAll (std : StdSort) (pushes : List (Int64 × KadNode)) {d : ℕ}
    (hfresh : ∀ p ∈ pushes, p.2.stales = 0) (hd : (pushedIds pushes).card = d) :
    (pushAll std empty pushes).nodes.length = min d KAD_BUCKET_MAX ∧
      (pushAll std empty pushes).replacementNodes.length =
        min (d - min d KAD_BUCKET_MAX) KAD_BUCKET_MAX ∧
      (d ≤ 2 * KAD_BUCKET_MAX →
        ∀ id ∈ pushedIds pushes, id ∈ (pushAll std empty pushes).heldIds) := by
  have hrun := filled_pushAll std pushes empty ∅ filled_empty hfresh
  rw [Finset.empty_union] at hrun
  subst hd
  exact ⟨hrun.length_nodes, hrun.length_replacement, hrun.held⟩

/-- Two ids, one of them pushed twice. -/
theorem lengths_pushAll_three :
    let pushes := [(1, KadNode.new (KadId.ofNat 1) [97]), (2, KadNode.new (KadId.ofNat 2) [98]),
      (3, KadNode.new (KadId.ofNat 1) [97])]
    (pushAll StdSort.insertion empty pushes).nodes.length = min 2 KAD_BUCKET_MAX ∧
      (pushAll StdSort.insertion empty pushes).replacementNodes.length =
        min (2 - min 2 KAD_BUCKET_MAX) KAD_BUCKET_MAX ∧
      (2 ≤ 2 * KAD_BUCKET_MAX →
        ∀ id ∈ pushedIds pushes, id ∈ (pushAll StdSort.insertion empty pushes).heldIds) :=
  lengths_pushAll StdSort.insertion _ (by decide) (by decide)

end KadBucket

end SniffDogSniff
