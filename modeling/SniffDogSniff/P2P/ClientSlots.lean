import SniffDogSniff.Base.Runs
import Mathlib.Data.Finset.Card
import Mathlib.Order.Interval.Finset.Nat
import Mathlib.Tactic.Tauto

/-!
# The connections of the server

The server keeps its connections in an array of entries for `poll`: the first one is the
socket that it listens on, and the others are slots for clients, free where the descriptor
is 0.  A counter says how many slots are taken.  One pass of the loop polls all entries,
takes a new connection into a slot and serves the slots that have something to read.

Both loops over the slots go one entry too far.  What stands behind the array is not known;
it is a part of the input of a pass, and every entry that a pass reads or writes is noted.

## Main definitions

* `Pollfd`, `ListenState` — the entries, the counter and the entries that were used.
* `Pass` — what the system calls and the handlers of one pass do.
* `ListenState.acceptScan`, `ListenState.serviceEntry`, `ListenState.pass`.
* `ListenState.live` — the slots with a connection.
* `ListenState.Sound` — the counter is right, nothing outside the array was used, and a
  failed `accept` has taken no slot.

## Main results

* `counted_pass`, `always_counted` — the counter stays right while `accept` succeeds and
  nothing behind the array looks like a connection.
* `always_sound_iff` — **the state is sound all along a run exactly where no `poll` of the
  run reports anything.**
-/

namespace SniffDogSniff

def MAX_CLIENT_COUNT : ℕ := 100

def MAX_POLL_FD_COUNT : ℕ := MAX_CLIENT_COUNT + 1

def POLLIN : Int16 := 0x001
def POLLPRI : Int16 := 0x002
def POLLERR : Int16 := 0x008
def POLLHUP : Int16 := 0x010

/-- An entry for `poll`. -/
structure Pollfd where
  fd : ℤ
  events : Int16
  revents : Int16

/-- There is something to do for an entry. -/
def Pollfd.Ready (e : Pollfd) : Prop := 0 < e.fd ∧ 0 < e.revents

instance (e : Pollfd) : Decidable e.Ready := inferInstanceAs (Decidable (_ ∧ _))

/-- The connection of an entry goes on after the pass: it can be read from, and the
request from it has been handled. -/
def Pollfd.Stays (e : Pollfd) (handled : ℤ) : Prop :=
  e.revents &&& POLLIN ≠ 0 ∧ e.revents &&& POLLHUP = 0 ∧ e.revents &&& POLLERR = 0 ∧ handled = 0

instance (e : Pollfd) (handled : ℤ) : Decidable (e.Stays handled) :=
  inferInstanceAs (Decidable (_ ∧ _))

/-- What the loop of `startListening` works on, and the entries that it has read or
written.  An index behind the array stands for the memory there. -/
structure ListenState where
  clientsCount : ℤ
  waitFds : ℕ → Pollfd
  touched : List ℕ

/-- What happens in a pass of the loop. -/
structure Pass where
  /-- What `poll` returns. -/
  polled : ℤ
  /-- What `poll` reports for an entry. -/
  revents : ℕ → Int16
  /-- What `accept` returns. -/
  accepted : ℤ
  /-- What `handleRequest` returns for the connection of a slot. -/
  handled : ℕ → ℤ
  /-- What stands behind the array. -/
  behind : ℕ → Pollfd

namespace ListenState

/-- The state in front of the loop; `mem` is what stands behind the array. -/
def start (serverFd : ℤ) (mem : ℕ → Pollfd) : ListenState where
  clientsCount := 0
  waitFds i :=
    if i = 0 then ⟨serverFd, POLLIN ||| POLLPRI, 0⟩
    else if i < MAX_POLL_FD_COUNT then ⟨0, 0, 0⟩ else mem i
  touched := []

def touch (s : ListenState) (i : ℕ) : ListenState := { s with touched := i :: s.touched }

def setEntry (s : ListenState) (i : ℕ) (p : Pollfd) : ListenState :=
  { s with waitFds := Function.update s.waitFds i p }

/-- The indices that the two loops go through. -/
def scanned : List ℕ := List.range' 1 MAX_POLL_FD_COUNT

/-- `poll` reports on the entries of the array. -/
def poll (s : ListenState) (p : Pass) : ListenState where
  clientsCount := s.clientsCount
  waitFds i := if i < MAX_POLL_FD_COUNT then { s.waitFds i with revents := p.revents i } else p.behind i
  touched := List.range MAX_POLL_FD_COUNT ++ s.touched

/-- The loop that takes a new connection into the first free slot. -/
def acceptScan (clientFd : ℤ) : List ℕ → ListenState → ListenState
  | [], s => s
  | i :: is, s =>
      if (s.waitFds i).fd = 0 then
        { (s.touch i).setEntry i ⟨clientFd, POLLIN ||| POLLPRI, (s.waitFds i).revents⟩ with
          clientsCount := s.clientsCount + 1 }
      else acceptScan clientFd is (s.touch i)

/-- One round of the loop that serves the connections. -/
def serviceEntry (p : Pass) (s : ListenState) (i : ℕ) : ListenState :=
  let e := s.waitFds i
  if e.Ready ∧ ¬ e.Stays (p.handled i) then
    { (s.touch i).setEntry i ⟨0, e.events, 0⟩ with clientsCount := s.clientsCount - 1 }
  else s.touch i

/-- One pass of the loop. -/
def pass (s : ListenState) (p : Pass) : ListenState :=
  let s := s.poll p
  if 0 < p.polled then
    if (s.waitFds 0).revents &&& POLLIN ≠ 0 then
      if (MAX_CLIENT_COUNT : ℤ) ≤ s.clientsCount then s
      else scanned.foldl (serviceEntry p) (acceptScan p.accepted scanned s)
    else scanned.foldl (serviceEntry p) s
  else s

/-! ### Soundness -/

/-- The slots for clients. -/
def slots : Finset ℕ := Finset.Icc 1 MAX_CLIENT_COUNT

/-- The slots that hold a connection. -/
def live (s : ListenState) : Finset ℕ := slots.filter fun i => 0 < (s.waitFds i).fd

/-- The counter is the number of connections. -/
def Counted (s : ListenState) : Prop := s.clientsCount = s.live.card

/-- Every slot that is taken holds a connection. -/
def NoWaste (s : ListenState) : Prop := ∀ i ∈ slots, (s.waitFds i).fd ≠ 0 → 0 < (s.waitFds i).fd

/-- Only entries of the array have been used. -/
def InArray (s : ListenState) : Prop := ∀ i ∈ s.touched, i ≤ MAX_CLIENT_COUNT

structure Sound (s : ListenState) : Prop where
  counted : s.Counted
  noWaste : s.NoWaste
  inArray : s.InArray

theorem mem_live {s : ListenState} {i : ℕ} : i ∈ s.live ↔ i ∈ slots ∧ 0 < (s.waitFds i).fd :=
  Finset.mem_filter

@[simp] theorem live_touch (s : ListenState) (i : ℕ) : (s.touch i).live = s.live := rfl

@[simp] theorem counted_touch (s : ListenState) (i : ℕ) : (s.touch i).Counted ↔ s.Counted := Iff.rfl

@[simp] theorem noWaste_touch (s : ListenState) (i : ℕ) : (s.touch i).NoWaste ↔ s.NoWaste := Iff.rfl

@[simp] theorem live_setCount (s : ListenState) (n : ℤ) :
    ({ s with clientsCount := n } : ListenState).live = s.live := rfl

theorem live_setEntry_of_pos (s : ListenState) {i : ℕ} (hi : i ∈ slots) {e : Pollfd} (he : 0 < e.fd) :
    (s.setEntry i e).live = insert i s.live := by
  ext j
  rw [Finset.mem_insert, mem_live, mem_live]
  by_cases hj : j = i
  · subst hj
    simp [setEntry, he, hi]
  · simp [setEntry, hj]

theorem live_setEntry_of_nonpos (s : ListenState) (i : ℕ) {e : Pollfd} (he : ¬ 0 < e.fd) :
    (s.setEntry i e).live = s.live.erase i := by
  ext j
  rw [Finset.mem_erase, mem_live, mem_live]
  by_cases hj : j = i
  · subst hj
    simp [setEntry, he]
  · simp [setEntry, hj]

theorem lt_of_mem_slots {i : ℕ} (hi : i ∈ slots) : i < MAX_POLL_FD_COUNT :=
  Nat.lt_succ_of_le (Finset.mem_Icc.mp hi).2

/-- What `poll` reports has no part in it. -/
theorem fd_poll (s : ListenState) (p : Pass) {i : ℕ} (hi : i ∈ slots) :
    ((s.poll p).waitFds i).fd = (s.waitFds i).fd := by
  simp [poll, lt_of_mem_slots hi]

theorem live_poll (s : ListenState) (p : Pass) : (s.poll p).live = s.live := by
  refine Finset.filter_congr fun i hi => ?_
  rw [fd_poll s p hi]

theorem noWaste_poll {s : ListenState} (h : s.NoWaste) (p : Pass) : (s.poll p).NoWaste := by
  intro i hi
  rw [fd_poll s p hi]
  exact h i hi

theorem sound_poll {s : ListenState} (h : s.Sound) (p : Pass) : (s.poll p).Sound := by
  refine ⟨?_, noWaste_poll h.noWaste p, fun i hi => ?_⟩
  · have hcounted := h.counted
    rw [Counted, ← s.live_poll p] at hcounted
    exact hcounted
  · rcases List.mem_append.mp hi with hi | hi
    · exact Nat.le_of_lt_succ (List.mem_range.mp hi)
    · exact h.inArray i hi

theorem sound_start (serverFd : ℤ) (mem : ℕ → Pollfd) : (start serverFd mem).Sound := by
  have hfree : ∀ i ∈ slots, ((start serverFd mem).waitFds i).fd = 0 := by
    intro i hi
    rw [slots, Finset.mem_Icc] at hi
    have hlt : i < MAX_POLL_FD_COUNT := Nat.lt_succ_of_le hi.2
    simp [start, Nat.one_le_iff_ne_zero.mp hi.1, hlt]
  refine ⟨?_, fun i hi hne => absurd (hfree i hi) hne, fun i hi => absurd hi List.not_mem_nil⟩
  have hnone : (start serverFd mem).live = ∅ :=
    Finset.filter_eq_empty_iff.mpr fun i hi hpos => by rw [hfree i hi] at hpos; exact lt_irrefl 0 hpos
  rw [Counted, hnone]
  rfl

/-! ### Serving the connections -/

theorem counted_serviceEntry {s : ListenState} (p : Pass) {i : ℕ} (hi : i ∈ slots)
    (h : s.Counted) : (s.serviceEntry p i).Counted := by
  unfold serviceEntry
  simp only
  split
  · next hclose =>
    have hmem : i ∈ s.live := mem_live.mpr ⟨hi, hclose.1.1⟩
    have hpos := Finset.card_pos.mpr ⟨i, hmem⟩
    unfold Counted at h ⊢
    rw [live_setCount, live_setEntry_of_nonpos _ _ (lt_irrefl 0), live_touch,
      Finset.card_erase_of_mem hmem]
    simp only
    omega
  · exact h

theorem noWaste_serviceEntry {s : ListenState} (p : Pass) (i : ℕ) (h : s.NoWaste) :
    (s.serviceEntry p i).NoWaste := by
  unfold serviceEntry
  simp only
  split
  · intro j hj hne
    by_cases hij : j = i
    · subst hij
      simp [setEntry] at hne
    · simp only [setEntry, touch, Function.update_of_ne hij] at hne ⊢
      exact h j hj hne
  · exact h

theorem waitFds_serviceEntry_of_ne (s : ListenState) (p : Pass) {i j : ℕ} (hij : j ≠ i) :
    (s.serviceEntry p i).waitFds j = s.waitFds j := by
  unfold serviceEntry
  simp only
  split
  · exact Function.update_of_ne hij _ _
  · rfl

theorem serviceEntry_of_not_ready {s : ListenState} {p : Pass} {i : ℕ} (h : ¬ (s.waitFds i).Ready) :
    s.serviceEntry p i = s.touch i := if_neg fun hclose => h hclose.1

theorem mem_touched_serviceEntry (s : ListenState) (p : Pass) (i j : ℕ) :
    j ∈ (s.serviceEntry p i).touched ↔ j = i ∨ j ∈ s.touched := by
  unfold serviceEntry
  simp only
  split <;> exact List.mem_cons

/-- Serving slots keeps the counter right and leaves the other entries alone. -/
theorem counted_foldl_serviceEntry (p : Pass) {is : List ℕ} (his : ∀ i ∈ is, i ∈ slots)
    {s : ListenState} (hcounted : s.Counted) (hwaste : s.NoWaste) :
    (is.foldl (serviceEntry p) s).Counted ∧ (is.foldl (serviceEntry p) s).NoWaste ∧
      ∀ j, j ∉ is → (is.foldl (serviceEntry p) s).waitFds j = s.waitFds j := by
  induction is generalizing s with
  | nil => exact ⟨hcounted, hwaste, fun _ _ => rfl⟩
  | cons i is ih =>
    rw [List.forall_mem_cons] at his
    obtain ⟨h1, h2, h3⟩ := ih his.2 (counted_serviceEntry p his.1 hcounted)
      (noWaste_serviceEntry p i hwaste)
    refine ⟨h1, h2, fun j hj => ?_⟩
    rw [List.mem_cons, not_or] at hj
    exact (h3 j hj.2).trans (s.waitFds_serviceEntry_of_ne p hj.1)

theorem mem_touched_foldl_serviceEntry (p : Pass) {is : List ℕ} {s : ListenState} {i : ℕ}
    (h : i ∈ is ∨ i ∈ s.touched) : i ∈ (is.foldl (serviceEntry p) s).touched := by
  induction is generalizing s with
  | nil => simpa using h
  | cons j is ih =>
    apply ih
    rw [List.mem_cons] at h
    rw [mem_touched_serviceEntry]
    tauto

/-- The last round of the loop is the one behind the array. -/
theorem scanned_eq : scanned = List.range' 1 MAX_CLIENT_COUNT ++ [MAX_POLL_FD_COUNT] := by
  rw [scanned, MAX_POLL_FD_COUNT, List.range'_1_concat, Nat.add_comm 1]

theorem mem_slots_of_mem_range' {i : ℕ} (hi : i ∈ List.range' 1 MAX_CLIENT_COUNT) : i ∈ slots := by
  rw [List.mem_range'_1] at hi
  exact Finset.mem_Icc.mpr ⟨hi.1, by omega⟩

theorem counted_service (p : Pass) {s : ListenState} (hcounted : s.Counted) (hwaste : s.NoWaste)
    (hbehind : ¬ (s.waitFds MAX_POLL_FD_COUNT).Ready) :
    (scanned.foldl (serviceEntry p) s).Counted ∧ (scanned.foldl (serviceEntry p) s).NoWaste := by
  obtain ⟨h1, h2, h3⟩ := counted_foldl_serviceEntry p (fun _ => mem_slots_of_mem_range') hcounted hwaste
  have hnot : MAX_POLL_FD_COUNT ∉ List.range' 1 MAX_CLIENT_COUNT := fun h =>
    absurd (lt_of_mem_slots (mem_slots_of_mem_range' h)) (lt_irrefl _)
  have hlast := h3 MAX_POLL_FD_COUNT hnot
  rw [scanned_eq, List.foldl_append, List.foldl_cons, List.foldl_nil,
    serviceEntry_of_not_ready (by rw [hlast]; exact hbehind), counted_touch, noWaste_touch]
  exact ⟨h1, h2⟩

/-! ### Taking a connection -/

/-- A connection goes to the first free slot. -/
theorem counted_acceptScan {clientFd : ℤ} (hfd : 0 < clientFd) (js : List ℕ) {is : List ℕ}
    (his : ∀ i ∈ is, i ∈ slots) {s : ListenState} (hfree : ∃ i ∈ is, (s.waitFds i).fd = 0)
    (hcounted : s.Counted) (hwaste : s.NoWaste) :
    (acceptScan clientFd (is ++ js) s).Counted ∧ (acceptScan clientFd (is ++ js) s).NoWaste ∧
      ∀ j, j ∉ slots → (acceptScan clientFd (is ++ js) s).waitFds j = s.waitFds j := by
  induction is generalizing s with
  | nil =>
    obtain ⟨i, hi, -⟩ := hfree
    exact absurd hi List.not_mem_nil
  | cons i is ih =>
    rw [List.forall_mem_cons] at his
    rw [List.cons_append, acceptScan]
    split
    · next hzero =>
      have hnew : i ∉ s.live := fun hi => absurd (mem_live.mp hi).2 (by rw [hzero]; exact lt_irrefl 0)
      refine ⟨?_, fun j hj hne => ?_, fun j hj => ?_⟩
      · unfold Counted at hcounted ⊢
        rw [live_setCount, live_setEntry_of_pos _ his.1 hfd, live_touch, Finset.card_insert_of_notMem hnew]
        simp only
        omega
      · by_cases hij : j = i
        · subst hij
          simpa [setEntry] using hfd
        · simp only [setEntry, touch, Function.update_of_ne hij] at hne ⊢
          exact hwaste j hj hne
      · have hij : j ≠ i := fun hij => hj (hij ▸ his.1)
        exact Function.update_of_ne hij _ _
    · next hne =>
      have hfree' : ∃ j ∈ is, ((s.touch i).waitFds j).fd = 0 := by
        obtain ⟨j, hj, hzero⟩ := hfree
        rcases List.mem_cons.mp hj with rfl | hj
        · exact absurd hzero hne
        · exact ⟨j, hj, hzero⟩
      exact ih his.2 hfree' hcounted hwaste

/-- While the counter is below the number of slots, a slot is free. -/
theorem exists_free {s : ListenState} (hcounted : s.Counted) (hwaste : s.NoWaste)
    (hlt : s.clientsCount < MAX_CLIENT_COUNT) :
    ∃ i ∈ List.range' 1 MAX_CLIENT_COUNT, (s.waitFds i).fd = 0 := by
  by_contra hnone
  push Not at hnone
  have hall : s.live = slots := Finset.filter_true_of_mem fun i hi =>
    hwaste i hi (hnone i (List.mem_range'_1.mpr (by rw [slots, Finset.mem_Icc] at hi; omega)))
  rw [Counted, hall, slots, Nat.card_Icc] at hcounted
  omega

/-! ### A pass -/

/-- `accept` is called in a pass. -/
def Accepts (s : ListenState) (p : Pass) : Prop :=
  0 < p.polled ∧ p.revents 0 &&& POLLIN ≠ 0 ∧ s.clientsCount < MAX_CLIENT_COUNT

/-- `accept` does not fail if it is called, and what stands behind the array is not taken
for a connection. -/
def Clean (s : ListenState) (p : Pass) : Prop :=
  (s.Accepts p → 0 < p.accepted) ∧ ¬ (p.behind MAX_POLL_FD_COUNT).Ready

theorem waitFds_poll_behind (s : ListenState) (p : Pass) :
    (s.poll p).waitFds MAX_POLL_FD_COUNT = p.behind MAX_POLL_FD_COUNT := by
  simp [poll]

theorem revents_poll (s : ListenState) (p : Pass) : ((s.poll p).waitFds 0).revents = p.revents 0 := by
  simp [poll, MAX_POLL_FD_COUNT]

/-- **A clean pass keeps the counter right and wastes no slot.** -/
theorem counted_pass {s : ListenState} {p : Pass} (h : s.Counted ∧ s.NoWaste) (hclean : s.Clean p) :
    (s.pass p).Counted ∧ (s.pass p).NoWaste := by
  have hcounted : (s.poll p).Counted := by
    have hcounted := h.1
    rw [Counted, ← s.live_poll p] at hcounted
    exact hcounted
  have hwaste : (s.poll p).NoWaste := noWaste_poll h.2 p
  have hbehind : ¬ ((s.poll p).waitFds MAX_POLL_FD_COUNT).Ready := by
    rw [waitFds_poll_behind]
    exact hclean.2
  unfold pass
  simp only
  split
  · next hpolled =>
    split
    · next hin =>
      split
      · exact ⟨hcounted, hwaste⟩
      · next hlt =>
        have haccepts : s.Accepts p := ⟨hpolled, by rwa [revents_poll] at hin, not_le.mp hlt⟩
        obtain ⟨h1, h2, h3⟩ := counted_acceptScan (hclean.1 haccepts) [MAX_POLL_FD_COUNT]
          (fun _ => mem_slots_of_mem_range') (exists_free hcounted hwaste (not_le.mp hlt)) hcounted hwaste
        rw [← scanned_eq] at h1 h2 h3
        refine counted_service p h1 h2 ?_
        rw [h3 _ fun hi => absurd (lt_of_mem_slots hi) (lt_irrefl _)]
        exact hbehind
    · exact counted_service p hcounted hwaste hbehind
  · exact ⟨hcounted, hwaste⟩

/-- So along every run of clean passes. -/
theorem always_counted (serverFd : ℤ) (mem : ℕ → Pollfd) (passes : List Pass)
    (h : Runs.Along pass Clean (start serverFd mem) passes) :
    Runs.Always pass (fun s => s.Counted ∧ s.NoWaste) (start serverFd mem) passes :=
  Runs.always_of_along (fun _ _ => counted_pass) passes _
    ⟨(sound_start serverFd mem).counted, (sound_start serverFd mem).noWaste⟩ h

/-- **A pass that serves the connections reads the entry behind the array.** -/
theorem not_inArray_pass {s : ListenState} {p : Pass} (hpolled : 0 < p.polled)
    (hlt : s.clientsCount < MAX_CLIENT_COUNT) : ¬ (s.pass p).InArray := by
  have hbehind : MAX_POLL_FD_COUNT ∈ (s.pass p).touched := by
    have hscanned : MAX_POLL_FD_COUNT ∈ scanned := by
      rw [scanned_eq]
      exact List.mem_append_right _ (List.mem_singleton_self _)
    have hlt' : ¬ (MAX_CLIENT_COUNT : ℤ) ≤ (s.poll p).clientsCount := not_le.mpr hlt
    unfold pass
    simp only [if_pos hpolled, if_neg hlt']
    split <;> exact mem_touched_foldl_serviceEntry p (Or.inl hscanned)
  exact fun h => absurd (h _ hbehind) (Nat.not_succ_le_self _)

theorem sound_pass_iff {s : ListenState} (h : s.Sound) (hlt : s.clientsCount < MAX_CLIENT_COUNT)
    (p : Pass) : (s.pass p).Sound ↔ p.polled ≤ 0 := by
  constructor
  · intro hsound
    by_contra hpos
    exact not_inArray_pass (not_le.mp hpos) hlt hsound.inArray
  · intro hle
    rw [pass, if_neg (not_lt.mpr hle)]
    exact sound_poll h p

/-- **The state is sound all along a run exactly where no `poll` of the run reports
anything.** -/
theorem always_sound_iff (serverFd : ℤ) (mem : ℕ → Pollfd) (passes : List Pass) :
    Runs.Always pass Sound (start serverFd mem) passes ↔ ∀ p ∈ passes, p.polled ≤ 0 := by
  suffices h : ∀ (s : ListenState), s.Sound → s.clientsCount < MAX_CLIENT_COUNT →
      (Runs.Always pass Sound s passes ↔ ∀ p ∈ passes, p.polled ≤ 0) from
    h _ (sound_start serverFd mem) (by simp [start, MAX_CLIENT_COUNT])
  induction passes with
  | nil =>
    intro s hs _
    exact ⟨fun _ p hp => absurd hp List.not_mem_nil, fun _ => hs⟩
  | cons p passes ih =>
    intro s hs hlt
    rw [List.forall_mem_cons]
    constructor
    · rintro ⟨-, hrest⟩
      have hle := (sound_pass_iff hs hlt p).mp hrest.head
      have hpass : s.pass p = s.poll p := by rw [pass, if_neg (not_lt.mpr hle)]
      rw [hpass] at hrest
      exact ⟨hle, (ih (s.poll p) (sound_poll hs p) hlt).mp hrest⟩
    · rintro ⟨hle, hrest⟩
      have hpass : s.pass p = s.poll p := by rw [pass, if_neg (not_lt.mpr hle)]
      refine ⟨hs, ?_⟩
      rw [hpass]
      exact (ih (s.poll p) (sound_poll hs p) hlt).mpr hrest

/-- The first connection makes the server read behind the array. -/
theorem not_always_sound : ¬ ∀ (serverFd : ℤ) (mem : ℕ → Pollfd) (passes : List Pass),
    Runs.Always pass Sound (start serverFd mem) passes := by
  intro h
  let p : Pass := ⟨1, fun i => if i = 0 then POLLIN else 0, 4, fun _ => 0, fun _ => ⟨0, 0, 0⟩⟩
  have hsound : ((start 3 fun _ => ⟨0, 0, 0⟩).pass p).Sound := (h _ _ [p]).2
  have hle := (sound_pass_iff (sound_start _ _) (by decide) p).mp hsound
  exact absurd hle (by decide)

end ListenState

end SniffDogSniff
