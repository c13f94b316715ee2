import SniffDogSniff.P2P.P2PCommon

/-!
# What the readers look at

A reader of fixed width moves as a whole or not at all, so it never leaves the
buffer.  `readString` does: without a byte in front of it, it still steps over a
terminator, and without a NUL behind its first byte it goes on to the byte behind
the buffer.  Which of the two happens depends on the bytes alone.  A `Layout`
walks over them the way a reader does and gives up at the first such string.

## Main definitions

* `InBounds` — a look below the size of the buffer, a position at most there.
* `Layout`, `MessageKind.layout` — the walk over the bytes of a message.
* `Follows` — a reader stays inside exactly as far as the layout gets.

## Main results

* `follows_readString`, `Follows.bind`, `follows_counted` — the readers and their
  combinations.
* `MessageKind.inBounds_iff` — **a reader stays inside the buffer exactly when the
  layout of its message gets through.**
-/

namespace SniffDogSniff

open Bytes SdsBytesBuf

/-- An index of the buffer, or a position up to its end. -/
def InBounds (bufferSize : ℕ) : Access → Prop
  | .look i => i < bufferSize
  | .moveTo p => p ≤ bufferSize

instance (bufferSize : ℕ) : DecidablePred (InBounds bufferSize) := fun e =>
  match e with
  | .look _ => inferInstanceAs (Decidable (_ < _))
  | .moveTo _ => inferInstanceAs (Decidable (_ ≤ _))

/-! ### Layouts -/

/-- A walk over bytes: what is left, or `none` at a string that leads outside. -/
abbrev Layout := Bytes → Option Bytes

namespace Layout

/-- `n` bytes, as a whole or not at all. -/
def fixed (n : ℕ) : Layout := fun s => some (if n ≤ s.length then s.drop n else s)

/-- A byte, and then a NUL somewhere behind it. -/
def str : Layout
  | [] => none
  | _ :: s => if 0 ∈ s then some (s.dropWhile (· ≠ 0)).tail else none

def seq (l m : Layout) : Layout := fun s => (l s).bind m

/-- The number in front, 0 where there are too few bytes for one. -/
def count (s : Bytes) : ℕ :=
  if 4 ≤ s.length then (Word.uint32.decode (s.take 4)).toNat else 0

def times (l : Layout) : ℕ → Layout
  | 0 => some
  | n + 1 => seq l (times l n)

/-- A number, and then so many times `l`. -/
def counted (l : Layout) : Layout := fun s => seq (fixed 4) (times l (count s)) s

end Layout

/-! ### Readers along a layout -/

/-- What a reader does where its layout leaves `o`: it stays inside and stops in
front of the bytes that are left, or it goes outside. -/
def Stays {α : Type} (r : Read α) (buf : SdsBytesBuf) : Option Bytes → Prop
  | some rest => (∀ e ∈ r.events buf, InBounds buf.bufferSize e) ∧ (r.final buf).At rest ∧
      (r.final buf).bufferSize = buf.bufferSize
  | none => ∃ e ∈ r.events buf, ¬ InBounds buf.bufferSize e

/-- The reader stays inside exactly as far as the layout gets. -/
def Follows {α : Type} (r : Read α) (l : Layout) : Prop :=
  ∀ buf rest, buf.At rest → Stays r buf (l rest)

section

variable {α β γ : Type}

/-- A second reader in the state that a first one leaves. -/
theorem Stays.bind {r : Read α} {f : α → Read β} {buf : SdsBytesBuf} {o : Option Bytes}
    {l : Layout} (h : Stays r buf o)
    (h' : ∀ rest, o = some rest → Stays (f (r.value buf)) (r.final buf) (l rest)) :
    Stays (r >>= f) buf (o.bind l) := by
  cases o with
  | none =>
    -- the first one is outside already
    obtain ⟨e, he, hout⟩ := h
    exact ⟨e, List.mem_append_left _ he, hout⟩
  | some rest =>
    obtain ⟨hin, -, hsize⟩ := h
    have hsecond := h' rest rfl
    rw [Option.bind_some]
    cases hl : l rest with
    | none =>
      rw [hl] at hsecond
      obtain ⟨e, he, hout⟩ := hsecond
      rw [hsize] at hout
      exact ⟨e, List.mem_append_right _ he, hout⟩
    | some rest' =>
      rw [hl] at hsecond
      obtain ⟨hin', hat', hsize'⟩ := hsecond
      refine ⟨?_, hat', hsize'.trans hsize⟩
      intro e he
      rcases List.mem_append.mp he with he | he
      · exact hin e he
      · exact hsize ▸ hin' e he

/-- One reader after the other. -/
theorem Follows.bind {r : Read α} {f : α → Read β} {l m : Layout} (h : Follows r l)
    (h' : ∀ a, Follows (f a) m) : Follows (r >>= f) (l.seq m) := by
  intro buf rest hat
  have hfirst := h buf rest hat
  refine hfirst.bind fun rest' hrest' => h' _ _ _ ?_
  rw [hrest'] at hfirst
  exact hfirst.2.1

theorem follows_pure (a : α) : Follows (pure a) some := by
  intro buf rest hat
  exact ⟨fun e he => absurd he List.not_mem_nil, hat, rfl⟩

/-- A computation on the value does not touch the buffer. -/
theorem Follows.map {r : Read α} {l : Layout} (h : Follows r l) (f : α → β) :
    Follows (r >>= fun a => pure (f a)) l := by
  have hbind := h.bind fun a => follows_pure (f a)
  have hseq : l.seq some = l := by
    funext s
    exact Option.bind_fun_some (l s)
  rwa [hseq] at hbind

theorem inBounds_looks {p n size : ℕ} (h : p + n ≤ size) : ∀ e ∈ looks p n, InBounds size e := by
  intro e he
  obtain ⟨i, hi, rfl⟩ := List.mem_map.mp he
  have hlt := List.mem_range.mp hi
  show p + i < size
  omega

/-- **The primitive reader never leaves the buffer.** -/
theorem follows_read (n : ℕ) : Follows (SdsBytesBuf.read n) (Layout.fixed n) := by
  intro buf rest hat
  have hrem := remaining_of_at hat
  rw [Layout.fixed]
  by_cases hle : n ≤ rest.length
  · have hend := hat.1
    rw [if_pos hle]
    rw [← hrem] at hle
    refine ⟨?_, ?_, ?_⟩
    · rw [events_read hle]
      intro e he
      rcases List.mem_append.mp he with he | he
      · exact inBounds_looks (by omega) e he
      · obtain rfl := List.mem_singleton.mp he
        show buf.pos + n ≤ buf.bufferSize
        omega
    · rw [final_read hle]
      rw [← List.take_append_drop n rest] at hat
      have hadv := at_advance hat
      rwa [List.length_take, Nat.min_eq_left (hrem ▸ hle)] at hadv
    · rw [final_read hle]
      rfl
  · rw [if_neg hle]
    rw [← hrem] at hle
    obtain ⟨hevents, -, hfinal⟩ := read_of_lt hle
    refine ⟨?_, ?_, ?_⟩
    · rw [hevents]
      exact fun e he => absurd he List.not_mem_nil
    · rw [hfinal]
      exact hat
    · rw [hfinal]

theorem follows_readBytes {n : ℕ} (hn : n ≠ 0) : Follows (readBytes n) (Layout.fixed n) := by
  rw [readBytes, if_neg hn]
  exact follows_read n

theorem follows_readId (old : KadId) : Follows old.readBytes (Layout.fixed KAD_ID_LENGTH) :=
  (follows_readBytes (by decide)).map _

theorem follows_word {α : Type} (w : Word α) (zero : α) :
    Follows (readWord w zero) (Layout.fixed w.width) := (follows_read w.width).map _

/-- Bytes with a NUL, around the first one. -/
theorem exists_split_of_mem {s : Bytes} (h : 0 ∈ s) :
    ∃ front, 0 ∉ front ∧ s = front ++ 0 :: (s.dropWhile (· ≠ 0)).tail := by
  induction s with
  | nil => exact absurd h List.not_mem_nil
  | cons c s ih =>
    by_cases hc : c = 0
    · exact ⟨[], List.not_mem_nil, by simp [hc]⟩
    · obtain ⟨front, hfront, hsplit⟩ := ih ((List.mem_cons.mp h).resolve_left (Ne.symm hc))
      refine ⟨c :: front, ?_, ?_⟩
      · simp [hfront, Ne.symm hc]
      · rw [List.dropWhile_cons_of_pos (by simpa using hc), List.cons_append, ← hsplit]

/-- **Strings leave the buffer where they are not followed by a NUL.** -/
theorem follows_readString : Follows readString Layout.str := by
  intro buf rest hat
  have hend := hat.1
  cases rest with
  | nil =>
    -- the loop does not start, and the position passes the end
    refine ⟨.moveTo (buf.pos + buf.nextLength + 1), ?_, ?_⟩
    · rw [events_readString]
      exact List.mem_append_right _ List.mem_cons_self
    · show ¬ buf.pos + buf.nextLength + 1 ≤ buf.bufferSize
      rw [List.length_nil] at hend
      omega
  | cons c s =>
    rw [Layout.str]
    rw [List.length_cons] at hend
    by_cases hnul : 0 ∈ s
    · rw [if_pos hnul]
      obtain ⟨front, hfront, hsplit⟩ := exists_split_of_mem hnul
      generalize (s.dropWhile (· ≠ 0)).tail = rest at hsplit
      subst hsplit
      have hlen : buf.nextLength = front.length + 1 :=
        nextLength_of_at (List.cons_ne_nil c front) hfront hat
      rw [List.length_append, List.length_cons] at hend
      refine ⟨?_, ?_, ?_⟩
      · rw [events_readString, hlen]
        intro e he
        rcases List.mem_append.mp he with he | he
        · rcases List.mem_append.mp he with he | he
          · exact inBounds_looks (by omega) e he
          · exact inBounds_looks (by omega) e he
        · obtain rfl := List.mem_singleton.mp he
          show buf.pos + (front.length + 1) + 1 ≤ buf.bufferSize
          omega
      · rw [final_readString, hlen]
        have hadv : (buf.advance ((c :: front) ++ [0]).length).At rest := by
          apply at_advance
          rwa [List.append_assoc]
        rwa [List.length_append] at hadv
      · rw [final_readString]
        rfl
    · rw [if_neg hnul]
      -- the loop uses up its rounds, and the last one looks behind the buffer
      refine ⟨.look (buf.pos + 1 + s.length), ?_, ?_⟩
      · rw [events_readString, nextLength_of_not_mem hnul hat]
        apply List.mem_append_left
        apply List.mem_append_left
        exact List.mem_map.mpr ⟨s.length, List.mem_range.mpr (Nat.lt_succ_self _), rfl⟩
      · show ¬ buf.pos + 1 + s.length < buf.bufferSize
        omega

/-- A loop whose rounds all follow `l`. -/
theorem follows_times {f : ℕ → α → Read α} {l : Layout} (h : ∀ i a, Follows (f i a) l) :
    ∀ n i a, Follows (Traced.times f n i a) (l.times n) := by
  intro n
  induction n with
  | zero => exact fun i a => follows_pure a
  | succ n ih => exact fun i a => (h i a).bind fun a' => ih (i + 1) a'

/-- What `readUint32` makes of the bytes in front of it. -/
theorem toNat_readUint32 {buf : SdsBytesBuf} {rest : Bytes} (hat : buf.At rest) :
    (readUint32.value buf).toNat = Layout.count rest := by
  have hrem := remaining_of_at hat
  show ((((SdsBytesBuf.read 4).value buf).map Word.uint32.decode).getD 0).toNat = _
  rw [Layout.count]
  by_cases hle : 4 ≤ rest.length
  · rw [if_pos hle, value_read (hrem ▸ hle)]
    rw [← List.take_append_drop 4 rest] at hat
    have hslice := (slice_of_at hat).1
    rw [List.length_take, Nat.min_eq_left hle] at hslice
    rw [hslice]
    rfl
  · rw [if_neg hle, (read_of_lt (hrem ▸ hle)).2.1]
    rfl

/-- A counted loop, and what follows it. -/
theorem follows_counted {f : ℕ → α → Read α} {k : α → Read β} {l m : Layout}
    (h : ∀ i a, Follows (f i a) l) (hk : ∀ a, Follows (k a) m) (a : α) :
    Follows (do
      let size ← readUint32
      let a ← Traced.times f size.toNat 0 a
      k a) (l.counted.seq m) := by
  intro buf rest hat
  have hsize := follows_word Word.uint32 0 buf rest hat
  have hloop := (follows_times h (Layout.count rest) 0 a).bind hk
  have hassoc : l.counted.seq m rest =
      (Layout.fixed 4 rest).bind ((l.times (Layout.count rest)).seq m) := by
    show ((Layout.fixed 4 rest).bind (l.times (Layout.count rest))).bind m = _
    rw [Option.bind_assoc]
    rfl
  rw [hassoc]
  refine hsize.bind fun rest' hrest' => ?_
  rw [show ((readWord Word.uint32 0).value buf).toNat = Layout.count rest from toNat_readUint32 hat]
  apply hloop
  have hstays : Stays (readWord Word.uint32 0) buf (some rest') := hrest' ▸ hsize
  exact hstays.2.1

end

/-! ### The messages -/

namespace Layout

/-- A property: a key and a value. -/
def property : Layout := seq (fixed 1) str

/-- A search entry. -/
def searchEntry : Layout :=
  seq (fixed 16) (seq str (seq str (seq (fixed 1) (counted property))))

/-- A named node: an id and an address. -/
def nearestNode : Layout := seq (fixed 16) str

end Layout

/-- The fields of a message in the order in which its reader takes them. -/
def MessageKind.layout : MessageKind → Layout
  | .pingArgs => .seq (.fixed 8) (.seq .str (.fixed 16))
  | .pingReply => .fixed 8
  | .findNodeArgs => .fixed 16
  | .findNodeReply => .counted .nearestNode
  | .storeResultArgs => .searchEntry
  | .findResultsArgs => .str
  | .findResultsReply => .seq (.counted .nearestNode) (.counted .searchEntry)

theorem follows_readProperty (properties : OrdMap propertyOrder Bytes) :
    Follows (readProperty properties) .property :=
  (follows_word Word.uint8 0).bind fun _ => follows_readString.map _

theorem Layout.seq_some (l : Layout) : l.seq some = l := by
  funext s
  exact Option.bind_fun_some (l s)

theorem follows_readNearest (fresh : Fresh) (i : ℕ) (nearest : NearestMap) :
    Follows (FindNodeReply.readNearest fresh i nearest) .nearestNode :=
  (follows_readId _).bind fun _ => follows_readString.map _

theorem follows_findNodeReply (fresh : Fresh) (m : FindNodeReply) :
    Follows (m.read fresh) (.counted .nearestNode) := by
  have h := follows_counted (follows_readNearest fresh)
    (fun nearest => follows_pure (FindNodeReply.mk nearest)) m.nearest
  rwa [Layout.seq_some] at h

theorem follows_simHash (old : SimHash) : Follows old.read (Layout.fixed 16) :=
  (follows_readId old.id).map SimHash.mk

section

variable [Hashing]

theorem follows_searchEntry (old : SearchEntry) : Follows old.read .searchEntry := by
  unfold SearchEntry.read Layout.searchEntry
  refine (follows_simHash old.simHash).bind fun simHash => ?_
  refine follows_readString.bind fun title => ?_
  refine follows_readString.bind fun url => ?_
  refine (follows_word Word.uint8 0).bind fun type => ?_
  have h := follows_counted (f := fun _ => readProperty) (fun _ => follows_readProperty)
    (fun properties => follows_pure
      (SearchEntry.ofFields simHash title url (EntryType.ofUint8 type) properties)) ∅
  rw [Layout.seq_some] at h
  exact h

theorem follows_readResult (results : List SearchEntry) :
    Follows (FindResultsReply.readResult results) .searchEntry :=
  (follows_searchEntry SearchEntry.default).map fun se => results ++ [se]

theorem follows_findResultsReply (fresh : Fresh) (m : FindResultsReply) :
    Follows (m.read fresh) (.seq (.counted .nearestNode) (.counted .searchEntry)) := by
  unfold FindResultsReply.read
  refine (follows_findNodeReply fresh m.toFindNodeReply).bind fun nearest => ?_
  have h := follows_counted (f := fun _ => FindResultsReply.readResult)
    (fun _ => follows_readResult)
    (fun results => follows_pure (FindResultsReply.mk nearest results)) m.results
  rw [Layout.seq_some] at h
  exact h

/-- **Every reader follows the layout of its message.** -/
theorem MessageKind.follows (fresh : Fresh) (kind : MessageKind) :
    Follows (kind.read fresh) kind.layout := by
  cases kind with
  | pingArgs =>
    refine Follows.map ?_ Message.pingArgs
    refine (follows_word Word.uint64 0).bind fun nonce => ?_
    exact follows_readString.bind fun address => (follows_readId _).map _
  | pingReply => exact Follows.map ((follows_word Word.uint64 0).map _) Message.pingReply
  | findNodeArgs => exact Follows.map ((follows_readId _).map _) Message.findNodeArgs
  | findNodeReply => exact (follows_findNodeReply fresh _).map Message.findNodeReply
  | storeResultArgs =>
    exact Follows.map ((follows_searchEntry _).map _) Message.storeResultArgs
  | findResultsArgs => exact Follows.map (follows_readString.map _) Message.findResultsArgs
  | findResultsReply => exact (follows_findResultsReply fresh _).map Message.findResultsReply

/-- **A reader stays inside the buffer exactly when the layout of its message gets
through the bytes**: every byte it looks at is below the size, and the position
is never past it. -/
theorem MessageKind.inBounds_iff (fresh : Fresh) (kind : MessageKind) (buf : SdsBytesBuf) :
    (∀ e ∈ (kind.read fresh).events buf.rewind, InBounds buf.size e) ↔
      (kind.layout buf.bytes).isSome = true := by
  have h := kind.follows fresh buf.rewind buf.bytes (at_rewind buf)
  constructor
  · intro hin
    cases hlayout : kind.layout buf.bytes with
    | some rest => rfl
    | none =>
      rw [hlayout] at h
      obtain ⟨e, he, hout⟩ := h
      exact absurd (hin e he) hout
  · intro hsome
    obtain ⟨rest, hrest⟩ := Option.isSome_iff_exists.mp hsome
    rw [hrest] at h
    exact h.1

end

/-- One letter, without a terminator, in front of more of them. -/
def unterminated : SdsBytesBuf := ⟨fun _ => 97, true, 1, 1, 0⟩

/-- A query of one letter and no terminator is looked for behind the buffer. -/
theorem unterminated_not_inBounds :
    letI := Hashing.blank
    ¬ ∀ e ∈ (MessageKind.findResultsArgs.read Fresh.zero).events unterminated.rewind,
      InBounds unterminated.size e := by
  decide

end SniffDogSniff
