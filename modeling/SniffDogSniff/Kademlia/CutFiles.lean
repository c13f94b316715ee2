import SniffDogSniff.Kademlia.TableFile

/-!
# Files that are cut off

A disk that is full cuts the file of the table off.  The reader then stops somewhere, and
keeps what it has read so far: the buckets in front, and of the next one the front of its
lists.  Nothing in it is made up, and the bounds of the buckets still hold.

## Main definitions

* `ReadsCut` — what is read of a text, whole or cut off.
* `KadBucket.Cut` — what is left of a bucket.

## Main results

* `readFile_take` — **what is read of the front of a file.**
* `writeFile_eq_take` — what is written to a disk is such a front.
-/

namespace SniffDogSniff

open Bytes

namespace TableFile

/-! ### One read after the other -/

section

variable {α β : Type} {f : Bytes → Except Stop (α × Bytes)} {a : α} {l : Bytes}

/-- The value is read where the text is whole, and the reader fails where it is cut off. -/
def ReadsCut (f : Bytes → Except Stop (α × Bytes)) (l : Bytes) (a : α) : Prop :=
  ∀ rest k, f ((l ++ rest).take k) =
    if l.length ≤ k then .ok (a, rest.take (k - l.length)) else .error .failed

theorem take_append_of_le {k : ℕ} (h : l.length ≤ k) (rest : Bytes) :
    (l ++ rest).take k = l ++ rest.take (k - l.length) := by
  rw [List.take_append, List.take_of_length_le h]

/-- Two texts, one behind the other. -/
theorem ReadsCut.bind {g : α → Bytes → Except Stop (β × Bytes)} {b : β} {l' : Bytes}
    (hf : ReadsCut f l a) (hg : ReadsCut (g a) l' b) :
    ReadsCut (fun file => f file >>= fun r => g r.1 r.2) (l ++ l') b := by
  intro rest k
  rw [List.append_assoc, List.length_append]
  dsimp only
  rw [hf]
  by_cases hl : l.length ≤ k
  · rw [if_pos hl]
    refine (hg rest (k - l.length)).trans ?_
    by_cases hl' : l'.length ≤ k - l.length
    · rw [if_pos hl', if_pos (by omega), Nat.sub_sub]
    · rw [if_neg hl', if_neg (by omega)]
  · rw [if_neg hl, if_neg (by omega)]
    rfl

/-- The value that is read is put together of several ones. -/
theorem ReadsCut.map (hf : ReadsCut f l a) (g : α → β) :
    ReadsCut (fun file => f file >>= fun r => .ok (g r.1, r.2)) l (g a) := by
  intro rest k
  dsimp only
  rw [hf]
  split <;> rfl

theorem readsCut_fread {n : ℕ} (hl : l.length = n) : ReadsCut (fread n) l l := by
  intro rest k
  subst hl
  by_cases hk : l.length ≤ k
  · rw [if_pos hk, take_append_of_le hk, fread_append rfl]
  · rw [if_neg hk, fread, if_neg]
    rw [List.length_take]
    omega

theorem readsCut_readAddress {address : Bytes} (ha : Fits address) (hnul : 0 ∉ address) :
    ReadsCut (readAddress address.length) address address := by
  intro rest k
  obtain ⟨hne, hlen⟩ := ha
  by_cases hk : address.length ≤ k
  · rw [if_pos hk, take_append_of_le hk, readAddress_append ⟨hne, hlen⟩ hnul]
  · have hpos : address.length ≠ 0 := by simpa using hne
    have hlength : ((address ++ rest).take k).length < address.length := by
      rw [List.length_take]
      omega
    rw [if_neg hk, readAddress, if_neg hpos, if_neg (by omega), if_pos hlength]

end

/-- **A node is read or not read.** -/
theorem readsCut_readNode {kn : KadNode} (hfit : Fits kn.address) (hnul : 0 ∉ kn.address) :
    ReadsCut readNode (writeNode kn).flatten kn := by
  have hmod : (Word.uint16.decode (Word.uint16.encode (UInt16.ofNat kn.address.length))).toNat =
      kn.address.length :=
    (toNat_decode_length _).trans (Nat.mod_eq_of_lt (hfit.2.trans (by decide)))
  have haddress : ReadsCut (readAddress
      (Word.uint16.decode (Word.uint16.encode (UInt16.ofNat kn.address.length))).toNat)
      kn.address kn.address := by
    rw [hmod]
    exact readsCut_readAddress hfit hnul
  -- field by field, from the last one on
  have hstales := (readsCut_fread (Word.length_encode Word.int32 kn.stales)).map
    fun b => KadNode.mk (KadId.ofBytes kn.id.id) kn.address
      (Word.int64.decode (Word.int64.encode kn.lastSeen)) (Word.int32.decode b)
  have hlastSeen := (readsCut_fread (Word.length_encode Word.int64 kn.lastSeen)).bind
    (g := fun lastSeen file => fread 4 file >>= fun r => .ok
      (KadNode.mk (KadId.ofBytes kn.id.id) kn.address (Word.int64.decode lastSeen)
        (Word.int32.decode r.1), r.2)) hstales
  have hrest := haddress.bind
    (g := fun address file => fread 8 file >>= fun r => fread 4 r.2 >>= fun r' => .ok
      (KadNode.mk (KadId.ofBytes kn.id.id) address (Word.int64.decode r.1)
        (Word.int32.decode r'.1), r'.2)) hlastSeen
  have hsized := (readsCut_fread (Word.length_encode Word.uint16 _)).bind
    (g := fun addrLen file => readAddress (Word.uint16.decode addrLen).toNat file >>= fun r =>
      fread 8 r.2 >>= fun r' => fread 4 r'.2 >>= fun r'' => .ok
        (KadNode.mk (KadId.ofBytes kn.id.id) r.1 (Word.int64.decode r'.1)
          (Word.int32.decode r''.1), r''.2)) hrest
  have hall := (readsCut_fread kn.id.length_id).bind
    (g := fun id file => fread 2 file >>= fun r =>
      readAddress (Word.uint16.decode r.1).toNat r.2 >>= fun r' =>
        fread 8 r'.2 >>= fun r'' => fread 4 r''.2 >>= fun r''' => .ok
          (KadNode.mk (KadId.ofBytes id) r'.1 (Word.int64.decode r''.1)
            (Word.int32.decode r'''.1), r'''.2)) hsized
  have htext := flatten_writeNode_append kn []
  simp only [List.append_nil] at htext
  rw [KadId.ofBytes_id, Word.decode_encode, Word.decode_encode] at hall
  rw [htext]
  exact hall

/-! ### Lists and buckets -/

/-- A list that is cut off is read up to some node. -/
theorem readNodesLoop_cut {nodes : List KadNode}
    (h : ∀ kn ∈ nodes, Fits kn.address ∧ 0 ∉ kn.address) :
    ∀ k acc, k < (nodes.flatMap writeNode).flatten.length →
      ∃ front, front <+: nodes ∧
        readNodesLoop nodes.length ((nodes.flatMap writeNode).flatten.take k) acc =
          (acc ++ front, .error .failed) := by
  induction nodes with
  | nil => exact fun k acc hk => absurd hk (Nat.not_lt_zero k)
  | cons kn nodes ih =>
    intro k acc hk
    obtain ⟨hfit, hnul⟩ := h kn List.mem_cons_self
    rw [List.flatMap_cons, List.flatten_append] at hk ⊢
    rw [List.length_append] at hk
    rw [List.length_cons, readNodesLoop, readsCut_readNode hfit hnul]
    by_cases hle : (writeNode kn).flatten.length ≤ k
    · rw [if_pos hle]
      obtain ⟨front, hfront, hread⟩ := ih (fun x hx => h x (List.mem_cons_of_mem _ hx))
        (k - (writeNode kn).flatten.length) (acc ++ [kn]) (by omega)
      refine ⟨kn :: front, (List.prefix_cons_inj kn).mpr hfront, ?_⟩
      dsimp only
      rw [hread, List.append_assoc]
      rfl
    · rw [if_neg hle]
      exact ⟨[], List.nil_prefix, by rw [List.append_nil]⟩

theorem readNodes_cut {nodes : List KadNode} (hlen : nodes.length ≤ KAD_BUCKET_MAX)
    (h : ∀ kn ∈ nodes, Fits kn.address ∧ 0 ∉ kn.address) {k : ℕ}
    (hk : k < (writeNodes nodes).flatten.length) :
    ∃ front, front <+: nodes ∧
      readNodes ((writeNodes nodes).flatten.take k) = (front, .error .failed) := by
  have htext := flatten_writeNodes_append nodes []
  simp only [List.append_nil] at htext
  have hcount : (Int32.ofNat nodes.length).toInt.toNat = nodes.length := by
    have hlt : nodes.length < 2 ^ 31 := hlen.trans_lt (by decide)
    rw [Int32.toInt_ofNat_of_lt hlt, Int.toNat_natCast]
  have hfour : (Word.int32.encode (Int32.ofNat nodes.length)).length = 4 :=
    Word.length_encode _ _
  rw [htext, List.length_append] at hk
  rw [htext, readNodes, readsCut_fread hfour]
  by_cases hle : (Word.int32.encode (Int32.ofNat nodes.length)).length ≤ k
  · rw [if_pos hle]
    dsimp only
    rw [Word.decode_encode, hcount]
    exact readNodesLoop_cut h _ [] (by omega)
  · rw [if_neg hle]
    exact ⟨[], List.nil_prefix, rfl⟩

end TableFile

/-- What is left of a bucket: the fronts of its lists, and of the second one only behind the
whole first one. -/
structure KadBucket.Cut (b' b : KadBucket) : Prop where
  nodes : b'.nodes <+: b.nodes
  replacementNodes : b'.replacementNodes <+: b.replacementNodes
  whole : b'.replacementNodes ≠ [] → b'.nodes = b.nodes

namespace KadBucket

variable {b' b : KadBucket}

theorem cut_refl (b : KadBucket) : b.Cut b :=
  ⟨List.prefix_rfl, List.prefix_rfl, fun _ => rfl⟩

theorem cut_empty (b : KadBucket) : empty.Cut b :=
  ⟨List.nil_prefix, List.nil_prefix, fun h => absurd rfl h⟩

theorem Cut.mem_entries (h : b'.Cut b) {kn : KadNode} (hkn : kn ∈ b'.entries) : kn ∈ b.entries :=
  (List.mem_append.mp hkn).elim (fun hkn => List.mem_append_left _ (h.nodes.subset hkn))
    fun hkn => List.mem_append_right _ (h.replacementNodes.subset hkn)

/-- **The bounds of a bucket hold for what is left of it.** -/
theorem Cut.inv (h : b'.Cut b) (hb : b.Inv) : b'.Inv where
  nodes_le := h.nodes.length_le.trans hb.nodes_le
  replacement_le := h.replacementNodes.length_le.trans hb.replacement_le
  full_of_replacement hne := by
    rw [h.whole hne]
    refine hb.full_of_replacement fun hnil => hne ?_
    exact List.prefix_nil.mp (hnil ▸ h.replacementNodes)
  nodes_sorted := hb.nodes_sorted.sublist h.nodes.sublist
  replacement_sorted := hb.replacement_sorted.sublist h.replacementNodes.sublist

end KadBucket

namespace TableFile

theorem readBucket_cut {b : KadBucket} (hb : b.Inv)
    (h : ∀ kn ∈ b.entries, Fits kn.address ∧ 0 ∉ kn.address) {k : ℕ}
    (hk : k < (writeBucket b).flatten.length) :
    ∃ b' : KadBucket, b'.Cut b ∧
      readBucket ((writeBucket b).flatten.take k) = (b', .error .failed) := by
  have hnodes : ∀ kn ∈ b.nodes, Fits kn.address ∧ 0 ∉ kn.address :=
    fun kn hkn => h kn (List.mem_append_left _ hkn)
  have hrepl : ∀ kn ∈ b.replacementNodes, Fits kn.address ∧ 0 ∉ kn.address :=
    fun kn hkn => h kn (List.mem_append_right _ hkn)
  rw [writeBucket, List.flatten_append] at hk ⊢
  rw [List.length_append] at hk
  rw [readBucket]
  by_cases hle : (writeNodes b.nodes).flatten.length ≤ k
  · obtain ⟨front, hfront, hread⟩ := readNodes_cut hb.replacement_le hrepl
      (k := k - (writeNodes b.nodes).flatten.length) (by omega)
    rw [take_append_of_le hle, readNodes_of_fits hb.nodes_le hnodes]
    dsimp only
    rw [hread]
    exact ⟨⟨b.nodes, front⟩, ⟨List.prefix_rfl, hfront, fun _ => rfl⟩, rfl⟩
  · obtain ⟨front, hfront, hread⟩ := readNodes_cut hb.nodes_le hnodes (not_le.mp hle)
    rw [List.take_append_of_le_length (not_le.mp hle).le, hread]
    exact ⟨⟨front, []⟩, ⟨hfront, List.nil_prefix, fun hne => absurd rfl hne⟩, rfl⟩

theorem readBuckets_cut {bs : Fin KAD_ID_BIT_LENGTH → KadBucket} (hbs : ∀ i, (bs i).Inv)
    (h : ∀ i, ∀ kn ∈ (bs i).entries, Fits kn.address ∧ 0 ∉ kn.address) :
    ∀ (is : List (Fin KAD_ID_BIT_LENGTH)) (old : Fin KAD_ID_BIT_LENGTH → KadBucket) (k : ℕ),
      (∀ i, (old i).Cut (bs i)) → k < (is.flatMap fun i => writeBucket (bs i)).flatten.length →
        ∃ bs', (∀ i, (bs' i).Cut (bs i)) ∧
          readBuckets is old ((is.flatMap fun i => writeBucket (bs i)).flatten.take k) =
            (bs', .error .failed) := by
  intro is
  induction is with
  | nil => exact fun old k _ hk => absurd hk (Nat.not_lt_zero k)
  | cons i is ih =>
    intro old k hold hk
    have hupdate : ∀ b' : KadBucket, b'.Cut (bs i) →
        ∀ j, (Function.update old i b' j).Cut (bs j) := by
      intro b' hb' j
      by_cases hj : j = i
      · subst hj
        rw [Function.update_self]
        exact hb'
      · rw [Function.update_of_ne hj]
        exact hold j
    rw [List.flatMap_cons, List.flatten_append] at hk ⊢
    rw [List.length_append] at hk
    rw [readBuckets]
    by_cases hle : (writeBucket (bs i)).flatten.length ≤ k
    · rw [take_append_of_le hle, readBucket_of_fits (hbs i) (h i)]
      exact ih _ _ (hupdate _ (KadBucket.cut_refl _)) (by omega)
    · obtain ⟨b', hb', hread⟩ := readBucket_cut (hbs i) (h i) (not_le.mp hle)
      rw [List.take_append_of_le_length (not_le.mp hle).le, hread]
      exact ⟨_, hupdate b' hb', rfl⟩

/-- What is written to a disk, up to where it is full. -/
theorem fwriteAll_eq_take {room : ℕ} {cs : List Bytes} {file : Bytes} (h : file.length ≤ room) :
    (fwriteAll room cs file).2 = (file ++ cs.flatten).take room := by
  induction cs generalizing file with
  | nil =>
    rw [fwriteAll, List.flatten_nil, List.append_nil, List.take_of_length_le h]
  | cons c cs ih =>
    rw [fwriteAll, List.flatten_cons, ← List.append_assoc]
    split
    · next hroom => exact ih (by rwa [List.length_append])
    · next hroom =>
      refine (List.take_append_of_le_length ?_).symm
      rw [List.length_append]
      omega

end TableFile

/-! ### Tables -/

namespace KadRoutingTable

open TableFile

/-- What is left of a table whose file is cut off: of the own address nothing, and of the own
id nothing but with empty buckets. -/
structure CutOff (t' t : KadRoutingTable) : Prop where
  buckets : ∀ h, (t'.buckets h).Cut (t.buckets h)
  id : t'.selfNode.id = t.selfNode.id ∨ t'.buckets = fun _ => KadBucket.empty
  address : t'.selfNode.address = []

variable {t t' : KadRoutingTable}

theorem CutOff.wellFormed (h : t'.CutOff t) (ht : t.WellFormed) : t'.WellFormed := by
  refine ⟨fun b => (h.buckets b).inv (ht.1 b), fun b kn hkn => ?_⟩
  rcases h.id with hid | hempty
  · rw [hid]
    exact ht.2 b kn ((h.buckets b).mem_entries hkn)
  · rw [hempty] at hkn
    exact absurd hkn List.not_mem_nil

theorem writeFile_of_room (t : KadRoutingTable) :
    (t.writeFile (some t.writes.flatten.length)).1 = 0 :=
  fwriteAll_of_room (Nat.le_of_eq (congrArg List.length (List.nil_append _)))

/-- **What is read of the front of a file**: the reader does not overrun its buffer, and the
table is what is left of the one that was written; it is all of it if the file is whole. -/
theorem readFile_take (ht : ∀ h, (t.buckets h).Inv) (hnul : t.NulFree) (hfit : t.AddressesFit)
    (freshId : KadId) (k : ℕ) :
    ∃ t' r, (init freshId).readFile (some (t.writes.flatten.take k)) = (t', some r) ∧ t'.CutOff t ∧
      (t.writes.flatten.length ≤ k → r = 0 ∧ t'.selfNode.id = t.selfNode.id ∧
        t'.buckets = t.buckets) := by
  have hboth : ∀ h, ∀ kn ∈ (t.buckets h).entries, Fits kn.address ∧ 0 ∉ kn.address :=
    fun h kn hkn => ⟨hfit h kn hkn, hnul h kn hkn⟩
  by_cases hwhole : t.writes.flatten.length ≤ k
  · have hwrite := t.writeFile_of_room
    obtain ⟨t', hread, hid, hbuckets⟩ := roundTrips_of_fits ht hnul hfit _ freshId hwrite
    rw [writeFile_eq_zero hwrite] at hread
    rw [List.take_of_length_le hwhole]
    refine ⟨t', 0, hread, ⟨fun h => hbuckets ▸ KadBucket.cut_refl _, Or.inl hid, ?_⟩,
      fun _ => ⟨rfl, hid, hbuckets⟩⟩
    rw [readFile_flatten_writes] at hread
    rw [← (Prod.mk.inj hread).1]
    rfl
  · have hwrites : t.writes.flatten = t.selfNode.id.id ++
        ((List.finRange KAD_ID_BIT_LENGTH).flatMap fun i => writeBucket (t.buckets i)).flatten := by
      rw [writes, List.flatten_cons]
    rw [hwrites, List.length_append] at hwhole
    rw [hwrites, readFile, readsCut_fread t.selfNode.id.length_id]
    by_cases hid : t.selfNode.id.id.length ≤ k
    · obtain ⟨bs', hcut, hread⟩ := readBuckets_cut ht hboth (List.finRange KAD_ID_BIT_LENGTH)
        (init freshId).buckets (k - t.selfNode.id.id.length) (fun i => KadBucket.cut_empty _)
        (by omega)
      rw [if_pos hid]
      dsimp only
      rw [hread]
      refine ⟨_, -1, rfl, ⟨hcut, Or.inl (KadId.ofBytes_id _), rfl⟩, fun hle => ?_⟩
      rw [List.length_append] at hle
      exact absurd hle hwhole
    · rw [if_neg hid]
      refine ⟨_, -1, rfl, ⟨fun h => KadBucket.cut_empty _, Or.inr rfl, rfl⟩, fun hle => ?_⟩
      rw [List.length_append] at hle
      exact absurd hle hwhole

/-- **What is written to a disk is a front of the file.** -/
theorem writeFile_eq_take (t : KadRoutingTable) (room : ℕ) :
    (t.writeFile (some room)).2 = some (t.writes.flatten.take room) := by
  rw [writeFile, fwriteAll_eq_take (Nat.zero_le room), List.nil_append]

end KadRoutingTable

end SniffDogSniff
