import SniffDogSniff.SdsCore.StoreRuns

/-!
# Expiry

An entry is to leave the database a day after it was put last.  Its time in the map is
also the time of its last broadcast, and the broadcast comes first: an entry that is a day
old is an hour old as well, so its time is set back before `modified` looks at it.  Where
a time does come to a day's age, `modified` goes on with an iterator that is erased.
Nothing ever leaves the database in a defined state, and nothing is put in one: the key of a
record is read from a hash that is gone.

## Main definitions

* `StoredFile` — a file with the times at which its records were put.
* `AgedStore`, `AgedStore.step` — the store, with the times of the last insertions.
* `AgedStore.Expires`, `AgedStore.NothingDue` — what is due is gone after a call; nothing
  is due.

## Main results

* `inv_step` — an entry that was put stays, and its time is not before its insertion.
* `expires_iff` — **what is due is gone after every call exactly where nothing is put and
  nothing ever is due; with the digests as keys, exactly where nothing ever is due.**
-/

namespace SniffDogSniff

open SearchEntriesDB

section

variable [Hashing] {db : ReliableDB}

/-- A file that is opened: when its records were put, and what the clock shows while it is
opened. -/
structure StoredFile (db : ReliableDB) where
  st : db.State
  clock : ℕ → Int64
  /-- The clock when the file has been opened. -/
  openedAt : ℤ
  putAt : Bytes → Option ℤ
  putAt_iff : ∀ key, putAt key ≠ none ↔ db.record st key ≠ none
  putAt_le : ∀ key t, putAt key = some t → ∀ i, t ≤ (clock i).toInt
  clock_le : ∀ i, (clock i).toInt ≤ openedAt

/-- A store between two calls, with what is known about its entries. -/
structure AgedStore (db : ReliableDB) where
  state : StoreState db.toBerkeleyDB
  /-- When an entry was put last under a key. -/
  lastInsert : Bytes → Option ℤ
  /-- When the last call was made. -/
  latest : ℤ

namespace AgedStore

/-- The store when a file has been opened. -/
def ofFile (f : StoredFile db) : AgedStore db :=
  ⟨opened db.toLookupDB f.clock f.st, f.putAt, f.openedAt⟩

/-- One call; an entry without a valid size is not put. -/
def step (s : AgedStore db) : StoreEvent → AgedStore db
  | .insert env se =>
      ⟨SearchEntriesDB.step db.toLookupDB s.state (.insert env se),
        if se.hasValidSize = true then Function.update s.lastInsert se.hash (some env.now.toInt)
        else s.lastInsert, env.later.toInt⟩
  | .broadcast env =>
      ⟨SearchEntriesDB.step db.toLookupDB s.state (.broadcast env), s.lastInsert,
        env.later.toInt⟩

/-- The clock does not go back. -/
def InOrder (s : AgedStore db) : StoreEvent → Prop
  | .insert env _ => s.latest ≤ env.now.toInt ∧ env.now.toInt ≤ env.later.toInt
  | .broadcast env => s.latest ≤ env.now.toInt ∧ env.now.toInt ≤ env.later.toInt

/-- An entry whose last insertion lies a day back when the call is made is not in the
database afterwards. -/
def Expires (s : AgedStore db) (e : StoreEvent) : Prop :=
  match (s.step e).state with
  | .running s' => ∀ key t, (s.step e).lastInsert key = some t →
      UNIX_DAY ≤ (s.step e).latest - t → ∀ st, s'.dbp = some st → db.record st key = none
  | .gone => False

/-- There is no such entry. -/
def NothingDue (s : AgedStore db) (e : StoreEvent) : Prop :=
  ∀ key t, (s.step e).lastInsert key = some t → (s.step e).latest - t < UNIX_DAY

/-- The entries that were put are in the database, and no time in the map is before the
insertion of its entry. -/
structure Inv (s : AgedStore db) (timestamps : OrdMap SearchEntry.hashOrder Int64)
    (st : db.State) : Prop where
  state_eq : s.state = .running ⟨timestamps, some st⟩
  put_iff : ∀ key, s.lastInsert key ≠ none ↔ db.record st key ≠ none
  put_le_time : ∀ x ∈ timestamps.entries, ∃ t, s.lastInsert x.1 = some t ∧ t ≤ x.2.toInt
  put_le_latest : ∀ key t, s.lastInsert key = some t → t ≤ s.latest

omit [Hashing] in
theorem inv_ofFile (f : StoredFile db) : ∃ timestamps, (ofFile f).Inv timestamps f.st := by
  obtain ⟨records, hcursor, hrecords⟩ := db.cursor_ok f.st
  refine ⟨openedTimes f.clock records, opened_eq f.clock hcursor, f.putAt_iff, ?_, ?_⟩
  · intro x hx
    -- the key is the one of a record, and the value a reading of the clock
    have hkey : db.record f.st x.1 ≠ none := by
      rcases OrdMap.hasKey_of_mem_setAll ⟨x, hx, rfl⟩ with hread | ⟨e, he, -⟩
      · exact (exists_openedTime_iff hrecords f.clock x.1).mp hread
      · exact absurd he List.not_mem_nil
    obtain ⟨t, ht⟩ := Option.ne_none_iff_exists'.mp ((f.putAt_iff x.1).mpr hkey)
    refine ⟨t, ht, ?_⟩
    rcases OrdMap.value_of_mem_setAll hx with ⟨e, he, hvalue⟩ | ⟨e, he, -⟩
    · obtain ⟨r, -, rfl⟩ := List.mem_map.mp he
      rw [← hvalue]
      exact f.putAt_le x.1 t ht _
    · exact absurd he List.not_mem_nil
  · intro key t ht
    exact (f.putAt_le key t ht 0).trans (f.clock_le 0)

/-- A time of a day's age belongs to an entry that is due. -/
theorem not_nothingDue {s : AgedStore db} {e : StoreEvent} {later : Int64}
    {timestamps : OrdMap SearchEntry.hashOrder Int64} (hlatest : (s.step e).latest = later.toInt)
    (hput : ∀ x ∈ timestamps.entries, ∃ t, (s.step e).lastInsert x.1 = some t ∧ t ≤ x.2.toInt)
    (hold : ¬ Young later timestamps) : ¬ NothingDue s e := by
  intro h
  apply hold
  intro x hx
  obtain ⟨t, ht, hle⟩ := hput x hx
  have hlt := h x.1 t ht
  omega

theorem lastInsert_step_of_valid (s : AgedStore db) (env : Surroundings) {se : SearchEntry}
    (hvalid : se.hasValidSize = true) : (s.step (.insert env se)).lastInsert =
      Function.update s.lastInsert se.hash (some env.now.toInt) :=
  if_pos hvalid

omit [Hashing] in
theorem Inv.put_le_of_latest_le {s : AgedStore db}
    {timestamps : OrdMap SearchEntry.hashOrder Int64} {st : db.State} (h : s.Inv timestamps st)
    {now : ℤ} (hnow : s.latest ≤ now) : ∀ key t, s.lastInsert key = some t → t ≤ now :=
  fun key t ht => (h.put_le_latest key t ht).trans hnow

/-- The time that an insertion sets is not before the insertion of the entry under whose
key it is kept, which may be another one. -/
theorem Inv.put_le_time_set {s : AgedStore db}
    {timestamps : OrdMap SearchEntry.hashOrder Int64} {st : db.State} (h : s.Inv timestamps st)
    {env : Surroundings} (hnow : s.latest ≤ env.now.toInt) {se : SearchEntry}
    (hvalid : se.hasValidSize = true) : ∀ x ∈ (timestamps.set se.hash env.now).entries,
      ∃ t, (s.step (.insert env se)).lastInsert x.1 = some t ∧ t ≤ x.2.toInt := by
  intro x hx
  rw [lastInsert_step_of_valid s env hvalid, Function.update_apply]
  by_cases hkey : x.1 = se.hash
  · rw [if_pos hkey]
    refine ⟨_, rfl, ?_⟩
    rcases OrdMap.mem_of_mem_set hx with ⟨-, hvalue⟩ | ⟨-, hne⟩
    · rw [hvalue]
    · exact absurd (hkey ▸ Comparator.Equiv.refl _) hne
  · rw [if_neg hkey]
    rcases OrdMap.mem_of_mem_set hx with ⟨hnew | ⟨x', hx', hsame, -⟩, hvalue⟩ | ⟨hold, -⟩
    · exact absurd hnew hkey
    -- the key is confused with the one of the entry, and its time is set forward
    · obtain ⟨t, ht, -⟩ := h.put_le_time x' hx'
      rw [hsame] at ht
      exact ⟨t, ht, hvalue ▸ h.put_le_of_latest_le hnow _ t ht⟩
    · exact h.put_le_time x hold

omit [Hashing] in
/-- A broadcast sets no time back. -/
theorem Inv.put_le_time_refreshed {s : AgedStore db}
    {timestamps : OrdMap SearchEntry.hashOrder Int64} {st : db.State} (h : s.Inv timestamps st)
    {now : Int64} (hnow : s.latest ≤ now.toInt) : ∀ x ∈ (refreshed now timestamps).entries,
      ∃ t, s.lastInsert x.1 = some t ∧ t ≤ x.2.toInt := by
  intro x hx
  obtain ⟨x', hx', rfl⟩ := mem_refreshed.mp hx
  obtain ⟨t, ht, hle⟩ := h.put_le_time x' hx'
  refine ⟨t, ht, ?_⟩
  dsimp only
  split
  · exact h.put_le_of_latest_le hnow _ t ht
  · exact hle

/-- An entry without a valid size is not put. -/
theorem Inv.insert_of_not_valid {s : AgedStore db}
    {timestamps : OrdMap SearchEntry.hashOrder Int64} {st : db.State} (h : s.Inv timestamps st)
    {env : Surroundings} (hlater : s.latest ≤ env.later.toInt) {se : SearchEntry}
    (hinvalid : ¬ se.hasValidSize = true) : (s.step (.insert env se)).Inv timestamps st := by
  have hsame : (s.step (.insert env se)).lastInsert = s.lastInsert := if_neg hinvalid
  have hstate := step_insert env se timestamps st
  rw [← h.state_eq, if_pos (Bool.eq_false_of_not_eq_true hinvalid)] at hstate
  refine ⟨hstate.trans h.state_eq, ?_, ?_, ?_⟩
  · rw [hsame]
    exact h.put_iff
  · rw [hsame]
    exact h.put_le_time
  · rw [hsame]
    exact h.put_le_of_latest_le hlater

/-- Any other entry is, and the invariant is kept while nothing is of a day's age. -/
theorem Inv.insert {s : AgedStore db} {timestamps : OrdMap SearchEntry.hashOrder Int64}
    {st : db.State} (h : s.Inv timestamps st) {env : Surroundings}
    (hnow : s.latest ≤ env.now.toInt) (hlater : env.now.toInt ≤ env.later.toInt)
    {se : SearchEntry} (hvalid : se.hasValidSize = true) (hkey : env.key = some se.hash)
    (hyoung : Young env.later (timestamps.set se.hash env.now)) :
    (s.step (.insert env se)).Inv (timestamps.set se.hash env.now)
      (db.put st se.hash se.encode).1 := by
  have hupdate := lastInsert_step_of_valid s env hvalid
  have hstate := step_insert_of_key hkey hvalid timestamps st
  rw [← h.state_eq, if_pos hyoung] at hstate
  refine ⟨hstate, ?_, h.put_le_time_set hnow hvalid, ?_⟩
  · intro key
    rw [hupdate, db.record_put, Function.update_apply, Function.update_apply]
    split
    · exact iff_of_true (Option.some_ne_none _) (Option.some_ne_none _)
    · exact h.put_iff key
  · intro key t ht
    rw [hupdate, Function.update_apply] at ht
    split at ht
    · exact Option.some.inj ht ▸ hlater
    · exact h.put_le_of_latest_le (hnow.trans hlater) key t ht

/-- So is it by a broadcast. -/
theorem Inv.broadcast {s : AgedStore db} {timestamps : OrdMap SearchEntry.hashOrder Int64}
    {st : db.State} (h : s.Inv timestamps st) {env : Surroundings}
    (hnow : s.latest ≤ env.now.toInt) (hlater : env.now.toInt ≤ env.later.toInt)
    (hyoung : Young env.later (refreshed env.now timestamps)) :
    (s.step (.broadcast env)).Inv (refreshed env.now timestamps) st := by
  have hstate := step_broadcast env timestamps st
  rw [← h.state_eq, if_pos hyoung] at hstate
  exact ⟨hstate, h.put_iff, h.put_le_time_refreshed hnow,
    h.put_le_of_latest_le (hnow.trans hlater)⟩

/-- **One call** that puts nothing, or puts it under its digest: the invariant is kept, or the
behaviour is not defined any more, and then an entry was due. -/
theorem inv_step {s : AgedStore db} {timestamps : OrdMap SearchEntry.hashOrder Int64}
    {st : db.State} (h : s.Inv timestamps st) {e : StoreEvent} (horder : s.InOrder e)
    (he : e.Digested ∨ e.PutsNothing) :
    (∃ timestamps' st', (s.step e).Inv timestamps' st') ∨
      ((s.step e).state = .gone ∧ ¬ NothingDue s e) := by
  cases e with
  | insert env se =>
    obtain ⟨hnow, hlater⟩ := horder
    by_cases hvalid : se.hasValidSize = true
    · have hkey : env.key = some se.hash :=
        he.resolve_right fun hinvalid => Bool.noConfusion (hvalid.symm.trans hinvalid)
      by_cases hyoung : Young env.later (timestamps.set se.hash env.now)
      · exact Or.inl ⟨_, _, h.insert hnow hlater hvalid hkey hyoung⟩
      · have hstate := step_insert_of_key hkey hvalid timestamps st
        rw [← h.state_eq, if_neg hyoung] at hstate
        exact Or.inr ⟨hstate, not_nothingDue rfl (h.put_le_time_set hnow hvalid) hyoung⟩
    · exact Or.inl ⟨_, _, h.insert_of_not_valid (hnow.trans hlater) hvalid⟩
  | broadcast env =>
    obtain ⟨hnow, hlater⟩ := horder
    by_cases hyoung : Young env.later (refreshed env.now timestamps)
    · exact Or.inl ⟨_, _, h.broadcast hnow hlater hyoung⟩
    · have hstate := step_broadcast env timestamps st
      rw [← h.state_eq, if_neg hyoung] at hstate
      exact Or.inr ⟨hstate, not_nothingDue rfl (h.put_le_time_refreshed hnow) hyoung⟩

/-- After a call that is defined, what is due is still there. -/
theorem expires_step_iff {s : AgedStore db} {e : StoreEvent}
    (h : (∃ timestamps' st', (s.step e).Inv timestamps' st') ∨
      ((s.step e).state = .gone ∧ ¬ NothingDue s e)) : Expires s e ↔ NothingDue s e := by
  rcases h with ⟨timestamps', st', h⟩ | ⟨hgone, hdue⟩
  · rw [Expires, h.state_eq]
    constructor
    · intro hexpires key t ht
      by_contra hday
      have hnone := hexpires key t ht (not_lt.mp hday) st' rfl
      refine (h.put_iff key).mp ?_ hnone
      rw [ht]
      exact Option.some_ne_none t
    · intro hnothing key t ht hday
      exact absurd (hnothing key t ht) (not_lt.mpr hday)
  · rw [Expires, hgone]
    exact iff_of_false id hdue

/-- A call that puts nothing does the same whatever is read as the key. -/
theorem step_of_putsNothing {s : AgedStore db} {timestamps : OrdMap SearchEntry.hashOrder Int64}
    {st : db.State} (h : s.Inv timestamps st) {e e' : StoreEvent} (hnothing : e.PutsNothing)
    (he : e.Like e') : s.step e' = s.step e := by
  cases e with
  | insert env se =>
    obtain ⟨key, rfl⟩ := he
    rw [step, step, h.state_eq, step_insert_of_not_valid _ hnothing,
      step_insert_of_not_valid _ hnothing, if_neg (by simp [show _ = false from hnothing]),
      if_neg (by simp [show _ = false from hnothing])]
    rfl
  | broadcast env =>
    obtain rfl : e' = .broadcast env := he
    rfl

/-- Where something is put, what is read as the key may be nothing that is defined. -/
theorem exists_not_expires {s : AgedStore db} {timestamps : OrdMap SearchEntry.hashOrder Int64}
    {st : db.State} (h : s.Inv timestamps st) {e : StoreEvent} (hputs : ¬ e.PutsNothing) :
    ∃ e', e.Like e' ∧ ¬ Expires s e' := by
  cases e with
  | insert env se =>
    refine ⟨.insert (env.withKey none) se, ⟨none, rfl⟩, ?_⟩
    have hgone := step_insert_of_no_key (show (env.withKey none).key = none from rfl)
      (Bool.not_eq_false _ ▸ hputs) timestamps st
    rw [← h.state_eq] at hgone
    rw [Expires, step, hgone]
    exact id
  | broadcast env => exact absurd trivial hputs

/-- **One call, whatever is read as the key.** -/
theorem forall_expires_iff {s : AgedStore db} {timestamps : OrdMap SearchEntry.hashOrder Int64}
    {st : db.State} (h : s.Inv timestamps st) {e : StoreEvent} (horder : s.InOrder e) :
    (∀ e', e.Like e' → Expires s e') ↔ NothingDue s e ∧ e.PutsNothing := by
  constructor
  · intro hall
    by_cases hnothing : e.PutsNothing
    · refine ⟨?_, hnothing⟩
      exact (expires_step_iff (inv_step h horder (Or.inr hnothing))).mp
        (hall e (StoreEvent.like_refl e))
    · obtain ⟨e', he', hnot⟩ := exists_not_expires h hnothing
      exact absurd (hall e' he') hnot
  · rintro ⟨hdue, hnothing⟩ e' he'
    have hexpires := (expires_step_iff (inv_step h horder (Or.inr hnothing))).mpr hdue
    rw [Expires, step_of_putsNothing h hnothing he']
    exact hexpires

/-- **What is due is gone after every call, whatever `put` reads as its keys, exactly where
nothing is put and nothing ever is due; where it reads the digests, exactly where nothing ever is
due.** -/
theorem expires_iff (f : StoredFile db) (events : List StoreEvent)
    (horder : Runs.Along step InOrder (ofFile f) events) :
    ((∀ events', List.Forall₂ StoreEvent.Like events events' →
        Runs.Along step Expires (ofFile f) events') ↔
      Runs.Along step (fun s e => NothingDue s e ∧ e.PutsNothing) (ofFile f) events) ∧
    ((∀ e ∈ events, e.Digested) →
      (Runs.Along step Expires (ofFile f) events ↔
        Runs.Along step NothingDue (ofFile f) events)) := by
  have hstart : ∃ timestamps st, (ofFile f).Inv timestamps st := by
    obtain ⟨timestamps, h⟩ := inv_ofFile f
    exact ⟨timestamps, f.st, h⟩
  constructor
  · refine Runs.forall_along_iff (P := fun s : AgedStore db => ∃ timestamps st, s.Inv timestamps st)
      StoreEvent.like_refl ?_ ?_ ?_ events (ofFile f) hstart horder
    · rintro s e ⟨timestamps, st, h⟩ horder
      exact forall_expires_iff h horder
    · rintro s e e' ⟨timestamps, st, h⟩ hok he
      exact step_of_putsNothing h hok.2 he
    · rintro s e ⟨timestamps, st, h⟩ horder hok
      rcases inv_step h horder (Or.inr hok.2) with hinv | ⟨-, hdue⟩
      · exact hinv
      · exact absurd hok.1 hdue
  · intro hdigested
    have hboth : Runs.Along step (fun s e => s.InOrder e ∧ e.Digested) (ofFile f) events :=
      horder.and_of_forall_mem hdigested
    refine Runs.along_iff_along (P := fun s : AgedStore db => ∃ timestamps st, s.Inv timestamps st)
      ?_ ?_ events (ofFile f) hstart hboth
    · rintro s e ⟨timestamps, st, h⟩ ⟨horder, he⟩
      exact expires_step_iff (inv_step h horder (Or.inl he))
    · rintro s e ⟨timestamps, st, h⟩ ⟨horder, he⟩ hnothing
      rcases inv_step h horder (Or.inl he) with hinv | ⟨-, hdue⟩
      · exact hinv
      · exact absurd hnothing hdue

/-- An entry that is put and broadcast a day later stays. -/
theorem not_along_expires (f : StoredFile db) {env env' : Surroundings} {se : SearchEntry}
    (hkey : env.key = some se.hash) (hvalid : se.hasValidSize = true)
    (hday : UNIX_DAY ≤ env'.later.toInt - env.now.toInt)
    (horder : Runs.Along step InOrder (ofFile f) [.insert env se, .broadcast env']) :
    ¬ Runs.Along step Expires (ofFile f) [.insert env se, .broadcast env'] := by
  obtain ⟨hfirst, hsecond, -⟩ := horder
  rintro ⟨hinsert, hbroadcast, -⟩
  obtain ⟨timestamps, h⟩ := inv_ofFile f
  have hput : ((ofFile f).step (.insert env se)).lastInsert se.hash = some env.now.toInt := by
    rw [lastInsert_step_of_valid _ env hvalid, Function.update_self]
  rcases inv_step h hfirst (Or.inl hkey) with ⟨timestamps', st', h'⟩ | ⟨hgone, -⟩
  · have hnothing := (expires_step_iff (inv_step h' hsecond (Or.inl trivial))).mp hbroadcast
    exact absurd (hnothing se.hash env.now.toInt hput) (not_lt.mpr hday)
  · rw [Expires, hgone] at hinsert
    exact hinsert

end AgedStore

end

/-- A new file. -/
def newFile : StoredFile ReliableDB.inMap where
  st := OrdMap.empty
  clock _ := 0
  openedAt := 0
  putAt _ := none
  putAt_iff _ := iff_of_false (fun h => h rfl) (fun h => h rfl)
  putAt_le _ _ h := nomatch h
  clock_le _ := le_rfl

/-- An entry is put at the start, under its digest, and broadcast a day later. -/
def dayLater : List (@StoreEvent Hashing.ofLetters) :=
  letI := Hashing.ofLetters
  [.insert (Surroundings.zero.withKey (some titledA.hash)) titledA,
    .broadcast ⟨86400, 86400, fun _ _ => 0, none⟩]

theorem AgedStore.dayLater_inOrder :
    letI := Hashing.ofLetters
    Runs.Along step InOrder (ofFile newFile) dayLater := by
  refine ⟨⟨?_, ?_⟩, ⟨?_, ?_⟩, trivial⟩
  · exact (le_rfl : (0 : Int) ≤ 0)
  · exact (le_rfl : (0 : Int64).toInt ≤ (0 : Int64).toInt)
  · exact (by decide : (0 : Int64).toInt ≤ (86400 : Int64).toInt)
  · exact (le_rfl : (86400 : Int64).toInt ≤ (86400 : Int64).toInt)

/-- The broadcast keeps it alive. -/
theorem AgedStore.dayLater_not_expires :
    letI := Hashing.ofLetters
    Runs.Along step InOrder (ofFile newFile) dayLater ∧
      ¬ Runs.Along step Expires (ofFile newFile) dayLater :=
  letI := Hashing.ofLetters
  ⟨dayLater_inOrder, not_along_expires newFile rfl (by decide) (by decide) dayLater_inOrder⟩

/-- Something is put in this run, and due later. -/
theorem AgedStore.expires_iff_dayLater :
    letI := Hashing.ofLetters
    ((∀ events', List.Forall₂ StoreEvent.Like dayLater events' →
        Runs.Along step Expires (ofFile newFile) events') ↔
      Runs.Along step (fun s e => NothingDue s e ∧ e.PutsNothing) (ofFile newFile) dayLater) ∧
    ((∀ e ∈ dayLater, e.Digested) →
      (Runs.Along step Expires (ofFile newFile) dayLater ↔
        Runs.Along step NothingDue (ofFile newFile) dayLater)) :=
  letI := Hashing.ofLetters
  expires_iff newFile dayLater dayLater_inOrder

end SniffDogSniff
