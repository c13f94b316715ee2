import SniffDogSniff.Base.Runs
import SniffDogSniff.SdsCore.SearchEntriesDB

/-!
# Runs of the store

The store goes through calls of `insertResult` and `getEntriesForBroadcast`.  It keeps the
records in the database and the times in a map, and the two have different notions of a
key: the database compares all of it, the map the first eight bytes.

What an insertion puts its record under is read from a hash that is gone.  So a run is looked
at in two ways: whatever is read there, and where it still is the digest of the entry.

## Main definitions

* `LookupDB`, `ReliableDB` — a database that is asked for a record, and one whose calls
  succeed.
* `SearchEntriesDB.openFile`, `getByHash`, `getEntriesForBroadcast`.
* `StoreState`, `StoreEvent`, `SearchEntriesDB.step` — the store under its calls.
* `StoreEvent.Like`, `StoreEvent.Digested` — calls that differ in what is read as the key, and
  calls for which it is the digest.
* `KeysAgree`, `Rebroadcasts` — the two sets of keys are one, and what is broadcast are the
  records that are due.
* `Quiet`, `Undisturbed` — the calls that keep it so, whatever is read, and with the digests.

## Main results

* `step_insert`, `step_broadcast` — what a call does.
* `keysAgree_iff` — **the keys agree all along exactly where nothing is put, nothing is
  broadcast and nothing expires; with the digests as keys, where nothing is broadcast, nothing
  expires and no two keys are confused.**
-/

namespace SniffDogSniff

open SdsBytesBuf

def UNIX_HOUR : ℤ := 3600

/-! ### Databases -/

/-- A database that can be asked for a record. -/
structure LookupDB extends BerkeleyDB where
  /-- `get`: the data under a key, or a code. -/
  get : State → Bytes → Except ℤ Bytes

/-- A database whose calls succeed. -/
structure ReliableDB extends LookupDB where
  /-- The data under a key. -/
  record : State → Bytes → Option Bytes
  put_ok : ∀ st key data, (put st key data).2 = 0
  /-- A record is overwritten under an equal key, and under no other one. -/
  record_put : ∀ st key data,
    record (put st key data).1 = Function.update (record st) key (some data)
  get_ok : ∀ st key data, record st key = some data → get st key = .ok data
  cursor_ok : ∀ st, ∃ records, cursor st = .ok records ∧
    ∀ key data, (key, data) ∈ records ↔ record st key = some data

section

variable [Hashing]

namespace SearchEntriesDB

/-! ### The operations -/

section

variable {db : LookupDB} {ε : Type}

/-- `getByHash`; without a record it is a new entry. -/
def getByHash (heap : ℕ → UInt8) (st : db.State) (hash : Bytes) : Option SearchEntry :=
  match db.get st hash with
  | .ok data => readRecord heap data
  | .error _ => some SearchEntry.default

/-- The time is an hour back or more. -/
def hourOld (now : Int64) (e : Bytes × Int64) : Bool := decide (UNIX_HOUR ≤ now.toInt - e.2.toInt)

/-- `getEntriesForBroadcast`: the entries that it appends. -/
def getEntriesForBroadcast (env : Surroundings) :
    Prog ε (SearchEntriesDB db.toBerkeleyDB) (List SearchEntry) := do
  let s ← Prog.get
  match s.dbp with
  | none => pure []
  | some st =>
    let due := s.timestamps.entries.filter (hourOld env.now)
    let list ← Prog.ofOption
      (due.zipIdx.mapM fun e => getByHash (env.heap e.2) st e.1.1) Prog.stuck
    Prog.modify fun s =>
      { s with timestamps := s.timestamps.mapValues fun e =>
          if hourOld env.now e then env.now else e.2 }
    modified env.later
    pure list

/-- A new store. -/
def new : SearchEntriesDB db.toBerkeleyDB := ⟨∅, none⟩

/-- `open`, where the database is created; the clock is read once for `modified` and then
for each record. -/
def openFile (clock : ℕ → Int64) (st : db.State) :
    Prog ε (SearchEntriesDB db.toBerkeleyDB) Unit := do
  Prog.modify fun s => { s with dbp := some st }
  modified (clock 0)
  match db.cursor st with
  | .error _ => pure ()
  | .ok records =>
      Prog.modify fun s => { s with
        timestamps := s.timestamps.setAll
          (records.zipIdx.map fun r => (r.1.1, clock (r.2 + 1))) }

end

end SearchEntriesDB

/-! ### The machine -/

/-- A store between two calls. -/
inductive StoreState (db : BerkeleyDB)
  | running (s : SearchEntriesDB db)
  /-- Its behaviour is not defined any more. -/
  | gone

/-- What comes after a call; the callers catch what it throws. -/
def StoreState.ofOutcome {db : BerkeleyDB} {α : Type} :
    Outcome (SearchEntriesDB db) α → StoreState db
  | .returned _ s => running s
  | .threw _ s => running s
  | .aborted => gone
  | .undefined => gone
  | .stuck => gone

/-- A call of the store. -/
inductive StoreEvent
  | insert (env : Surroundings) (se : SearchEntry)
  | broadcast (env : Surroundings)

namespace StoreEvent

/-- The same call; something else may be read as the key of the record. -/
def Like : StoreEvent → StoreEvent → Prop
  | insert env se, e => ∃ key, e = insert (env.withKey key) se
  | broadcast env, e => e = broadcast env

theorem like_refl (e : StoreEvent) : e.Like e := by
  cases e with
  | insert env se => exact ⟨env.key, rfl⟩
  | broadcast env => exact rfl

/-- The memory of the hash still holds it when `put` reads the key. -/
def Digested : StoreEvent → Prop
  | insert env se => env.key = some se.hash
  | broadcast _ => True

/-- No record is put. -/
def PutsNothing : StoreEvent → Prop
  | insert _ se => se.hasValidSize = false
  | broadcast _ => True

end StoreEvent

namespace SearchEntriesDB

/-- One call. -/
def step (db : LookupDB) :
    StoreState db.toBerkeleyDB → StoreEvent → StoreState db.toBerkeleyDB
  | .running s, .insert env se =>
      .ofOutcome ((insertResult env se : Prog Empty _ Unit).outcome s)
  | .running s, .broadcast env =>
      .ofOutcome ((getEntriesForBroadcast env : Prog Empty _ _).outcome s)
  | .gone, _ => .gone

/-- The store when a file has been opened. -/
def opened (db : LookupDB) (clock : ℕ → Int64) (st : db.State) :
    StoreState db.toBerkeleyDB :=
  .ofOutcome ((openFile clock st : Prog Empty _ Unit).outcome new)

/-- Nothing is a day back or more. -/
def Young (later : Int64) (timestamps : OrdMap SearchEntry.hashOrder Int64) : Prop :=
  ∀ e ∈ timestamps.entries, later.toInt - e.2.toInt < UNIX_DAY

instance (later : Int64) (timestamps : OrdMap SearchEntry.hashOrder Int64) :
    Decidable (Young later timestamps) :=
  inferInstanceAs (Decidable (∀ e ∈ timestamps.entries, later.toInt - e.2.toInt < UNIX_DAY))

/-! ### One call -/

omit [Hashing] in
theorem modified_run {db : BerkeleyDB} {ε : Type} (later : Int64) (s : SearchEntriesDB db) :
    (modified later : Prog ε _ Unit) s =
      ([], if Young later s.timestamps then .returned () s else .undefined) := by
  rw [modified, Prog.get_bind]
  by_cases h : Young later s.timestamps
  · rw [if_pos h, if_neg]
    · rfl
    · simp only [List.any_eq_true, decide_eq_true_eq, not_exists, not_and, not_le]
      exact h
  · rw [if_neg h, if_pos]
    · rfl
    · simpa [Young] using h

variable {db : ReliableDB}

/-- The store when a record has been put. -/
def inserted (now : Int64) (key : Bytes) (se : SearchEntry)
    (timestamps : OrdMap SearchEntry.hashOrder Int64) (st : db.State) :
    SearchEntriesDB db.toBerkeleyDB :=
  ⟨timestamps.set se.hash now, some (db.put st key se.encode).1⟩

/-- **What `insertResult` does**: an entry without a valid size changes nothing, and any other
one is put under what is read as its key. -/
theorem step_insert (env : Surroundings) (se : SearchEntry)
    (timestamps : OrdMap SearchEntry.hashOrder Int64) (st : db.State) :
    step db.toLookupDB (.running ⟨timestamps, some st⟩) (.insert env se) =
      if se.hasValidSize = false then .running ⟨timestamps, some st⟩
      else env.key.elim .gone fun key =>
        if Young env.later (timestamps.set se.hash env.now) then
          .running (inserted env.now key se timestamps st)
        else .gone := by
  rw [step, Prog.outcome, insertResult, Prog.get_bind]
  by_cases hsize : se.hasValidSize = false
  · simp only [if_pos hsize]
    rfl
  · obtain ⟨buf, hwrite, hbytes⟩ := exists_write se (env.heap 0)
    simp only [if_neg hsize]
    rw [Prog.modify_bind, hwrite, Prog.ofOption, pure_bind]
    cases env.key with
    | none => rfl
    | some key =>
      rw [Prog.ofOption, pure_bind, Prog.modify_bind, hbytes,
        if_neg (not_not.mpr (db.put_ok st key se.encode)), modified_run, Option.elim_some]
      simp only [inserted]
      split
      · rfl
      · rfl

/-- An entry that has no valid size changes nothing. -/
theorem step_insert_of_not_valid (env : Surroundings) {se : SearchEntry}
    (hinvalid : se.hasValidSize = false) (timestamps : OrdMap SearchEntry.hashOrder Int64)
    (st : db.State) :
    step db.toLookupDB (.running ⟨timestamps, some st⟩) (.insert env se) =
      .running ⟨timestamps, some st⟩ := by
  rw [step_insert, if_pos hinvalid]

/-- A valid entry is put under the key that is read. -/
theorem step_insert_of_key {env : Surroundings} {key : Bytes} (hkey : env.key = some key)
    {se : SearchEntry} (hvalid : se.hasValidSize = true)
    (timestamps : OrdMap SearchEntry.hashOrder Int64) (st : db.State) :
    step db.toLookupDB (.running ⟨timestamps, some st⟩) (.insert env se) =
      if Young env.later (timestamps.set se.hash env.now) then
        .running (inserted env.now key se timestamps st)
      else .gone := by
  rw [step_insert, if_neg (by simp [hvalid]), hkey, Option.elim_some]

/-- Where reading it is not defined, nothing is any more. -/
theorem step_insert_of_no_key {env : Surroundings} (hkey : env.key = none) {se : SearchEntry}
    (hvalid : se.hasValidSize = true) (timestamps : OrdMap SearchEntry.hashOrder Int64)
    (st : db.State) :
    step db.toLookupDB (.running ⟨timestamps, some st⟩) (.insert env se) = .gone := by
  rw [step_insert, if_neg (by simp [hvalid]), hkey, Option.elim_none]

/-- The times after a broadcast. -/
def refreshed (now : Int64) (timestamps : OrdMap SearchEntry.hashOrder Int64) :
    OrdMap SearchEntry.hashOrder Int64 :=
  timestamps.mapValues fun e => if hourOld now e then now else e.2

omit [Hashing] in
theorem mem_refreshed {now : Int64} {timestamps : OrdMap SearchEntry.hashOrder Int64}
    {x : Bytes × Int64} : x ∈ (refreshed now timestamps).entries ↔
      ∃ e ∈ timestamps.entries, (e.1, if hourOld now e then now else e.2) = x :=
  List.mem_map

theorem exists_getByHash {db : LookupDB} (heap : ℕ → UInt8) (st : db.State) (hash : Bytes) :
    ∃ se, getByHash heap st hash = some se := by
  rw [getByHash]
  cases db.get st hash with
  | error code => exact ⟨_, rfl⟩
  | ok data =>
    obtain ⟨buf, hbuf⟩ := exists_ofBytes heap data
    exact ⟨_, congrArg (Option.map _) hbuf⟩

/-- **What `getEntriesForBroadcast` does.** -/
theorem broadcast_run {ε : Type} (env : Surroundings)
    (timestamps : OrdMap SearchEntry.hashOrder Int64) (st : db.State) :
    ∃ list, ((timestamps.entries.filter (hourOld env.now)).zipIdx.mapM fun e =>
        getByHash (env.heap e.2) st e.1.1) = some list ∧
      (getEntriesForBroadcast env : Prog ε _ _) ⟨timestamps, some st⟩ =
        ([], if Young env.later (refreshed env.now timestamps) then
          .returned list ⟨refreshed env.now timestamps, some st⟩ else .undefined) := by
  obtain ⟨list, hlist⟩ := Prog.exists_mapM
    (fun e : (Bytes × Int64) × ℕ => exists_getByHash (env.heap e.2) st e.1.1)
    (timestamps.entries.filter (hourOld env.now)).zipIdx
  refine ⟨list, hlist, ?_⟩
  rw [getEntriesForBroadcast, Prog.get_bind]
  simp only [hlist, Prog.ofOption, pure_bind]
  rw [Prog.modify_bind]
  have hmodified := modified_run (ε := ε) env.later
    ⟨refreshed env.now timestamps, some st⟩
  by_cases hyoung : Young env.later (refreshed env.now timestamps)
  · rw [if_pos hyoung] at hmodified ⊢
    exact Prog.bind_of_returned_nil hmodified
  · rw [if_neg hyoung] at hmodified ⊢
    exact Prog.bind_of_undefined hmodified

theorem step_broadcast (env : Surroundings) (timestamps : OrdMap SearchEntry.hashOrder Int64)
    (st : db.State) :
    step db.toLookupDB (.running ⟨timestamps, some st⟩) (.broadcast env) =
      if Young env.later (refreshed env.now timestamps) then
        .running ⟨refreshed env.now timestamps, some st⟩
      else .gone := by
  obtain ⟨list, -, hrun⟩ := broadcast_run (ε := Empty) env timestamps st
  rw [step, Prog.outcome, hrun]
  split
  · rfl
  · rfl

/-- The times after a file has been opened. -/
def openedTimes (clock : ℕ → Int64) (records : List (Bytes × Bytes)) :
    OrdMap SearchEntry.hashOrder Int64 :=
  (∅ : OrdMap SearchEntry.hashOrder Int64).setAll
    (records.zipIdx.map fun r => (r.1.1, clock (r.2 + 1)))

omit [Hashing] in
/-- **What `open` does.** -/
theorem opened_eq (clock : ℕ → Int64) {st : db.State} {records : List (Bytes × Bytes)}
    (h : db.cursor st = .ok records) :
    opened db.toLookupDB clock st = .running ⟨openedTimes clock records, some st⟩ := by
  have hyoung : Young (clock 0) (∅ : OrdMap SearchEntry.hashOrder Int64) :=
    fun e he => absurd he List.not_mem_nil
  have hmodified : (modified (clock 0) : Prog Empty (SearchEntriesDB db.toBerkeleyDB) Unit)
      ⟨∅, some st⟩ = ([], .returned () ⟨∅, some st⟩) := by
    rw [modified_run, if_pos hyoung]
  rw [opened, openFile, new, Prog.outcome, Prog.modify_bind,
    Prog.bind_of_returned_nil hmodified, h]
  rfl

/-! ### The keys -/

/-- The store is open, and the keys of the records are the keys of the times. -/
def KeysAgree (db : ReliableDB) : StoreState db.toBerkeleyDB → Prop
  | .running s => ∃ st, s.dbp = some st ∧ ∀ key, db.record st key ≠ none ↔ s.timestamps.HasKey key
  | .gone => False

/-- A broadcast returns, and appends the entries whose records are an hour old, each of
them once, whatever the memory behind the copies is. -/
def Rebroadcasts (db : ReliableDB) : StoreState db.toBerkeleyDB → StoreEvent → Prop
  | .running s, .broadcast env => ∀ heap, ∃ list s',
      (getEntriesForBroadcast { env with heap } :
        Prog Empty (SearchEntriesDB db.toBerkeleyDB) _).outcome s = .returned list s' ∧
      ∀ st, s.dbp = some st → list.map (fun se => some se.encode) =
        (s.timestamps.entries.filter (hourOld env.now)).map fun e => db.record st e.1
  | _, _ => True

/-- No other key is confused with the one of the entry. -/
def Unconfused (timestamps : OrdMap SearchEntry.hashOrder Int64) (hash : Bytes) : Prop :=
  ∀ e ∈ timestamps.entries, SearchEntry.hashOrder.Equiv hash e.1 → e.1 = hash

/-- No record is put, nothing is an hour old at a broadcast, and nothing is a day old. -/
def Quiet {db : BerkeleyDB} : StoreState db → StoreEvent → Prop
  | .running _, .insert _ se => se.hasValidSize = false
  | .running s, .broadcast env => (∀ e ∈ s.timestamps.entries, hourOld env.now e = false) ∧
      Young env.later s.timestamps
  | .gone, _ => True

/-- An entry that is put does not share its first eight bytes with another key, nothing is
an hour old at a broadcast, and nothing is a day old in the end. -/
def Undisturbed {db : BerkeleyDB} : StoreState db → StoreEvent → Prop
  | .running s, .insert env se => se.hasValidSize = true → Unconfused s.timestamps se.hash ∧
      Young env.later (s.timestamps.set se.hash env.now)
  | .running s, .broadcast env => (∀ e ∈ s.timestamps.entries, hourOld env.now e = false) ∧
      Young env.later s.timestamps
  | .gone, _ => True

/-- No two keys of the file share their first eight bytes. -/
def Apart (db : ReliableDB) (st : db.State) : Prop :=
  ∀ key key', db.record st key ≠ none → db.record st key' ≠ none →
    SearchEntry.hashOrder.Equiv key key' → key = key'

omit [Hashing] in
theorem keysAgree_running {timestamps : OrdMap SearchEntry.hashOrder Int64} {st : db.State} :
    KeysAgree db (.running ⟨timestamps, some st⟩) ↔
      ∀ key, db.record st key ≠ none ↔ timestamps.HasKey key := by
  constructor
  · rintro ⟨st', hst, h⟩
    obtain rfl := Option.some.inj hst
    exact h
  · exact fun h => ⟨st, rfl, h⟩

omit [Hashing] in
/-- A time is put for each record, under its key. -/
theorem exists_openedTime_iff {st : db.State} {records : List (Bytes × Bytes)}
    (hrecords : ∀ key data, (key, data) ∈ records ↔ db.record st key = some data)
    (clock : ℕ → Int64) (key : Bytes) :
    (∃ e ∈ records.zipIdx.map fun r => (r.1.1, clock (r.2 + 1)), e.1 = key) ↔
      db.record st key ≠ none := by
  rw [Option.ne_none_iff_exists']
  constructor
  · rintro ⟨e, he, rfl⟩
    obtain ⟨r, hr, rfl⟩ := List.mem_map.mp he
    have hmem := List.mem_of_getElem? (List.mem_zipIdx_iff_getElem?.mp hr)
    exact ⟨r.1.2, (hrecords r.1.1 r.1.2).mp hmem⟩
  · rintro ⟨data, hdata⟩
    obtain ⟨i, hi⟩ := List.mem_iff_getElem?.mp ((hrecords key data).mpr hdata)
    exact ⟨_, List.mem_map_of_mem (List.mk_mem_zipIdx_iff_getElem?.mpr hi), rfl⟩

omit [Hashing] in
theorem keysAgree_opened_iff (clock : ℕ → Int64) (st : db.State) :
    KeysAgree db (opened db.toLookupDB clock st) ↔ Apart db st := by
  obtain ⟨records, hcursor, hrecords⟩ := db.cursor_ok st
  have hkeys := fun key => (exists_openedTime_iff hrecords clock key).symm
  rw [opened_eq clock hcursor, keysAgree_running]
  have hset := @OrdMap.hasKey_setAll_iff _ _ SearchEntry.hashOrder
    (records.zipIdx.map fun r => (r.1.1, clock (r.2 + 1)))
  constructor
  · intro h key key' hkey hkey' heq
    obtain ⟨e, he, rfl⟩ := (hkeys key).mp hkey
    obtain ⟨e', he', rfl⟩ := (hkeys key').mp hkey'
    exact hset.mp (fun k => (h k).symm.trans (hkeys k)) e he e' he' heq
  · intro h key
    refine (hkeys key).trans (hset.mpr ?_ key).symm
    intro e he e' he' heq
    exact h e.1 e'.1 ((hkeys _).mpr ⟨e, he, rfl⟩) ((hkeys _).mpr ⟨e', he', rfl⟩) heq

/-- An entry that is put is a key of both sides where it is not confused. -/
theorem keysAgree_inserted_iff (now : Int64) (se : SearchEntry)
    {timestamps : OrdMap SearchEntry.hashOrder Int64} {st : db.State}
    (h : ∀ key, db.record st key ≠ none ↔ timestamps.HasKey key) :
    KeysAgree db (.running (inserted now se.hash se timestamps st)) ↔
      Unconfused timestamps se.hash := by
  rw [inserted, keysAgree_running, Unconfused, ← OrdMap.hasKey_set_iff]
  refine forall_congr' fun key => ?_
  rw [← h key, db.record_put, Function.update_apply]
  split
  · next hkey =>
    exact ⟨fun hiff => ⟨fun _ => Or.inl hkey, fun _ => hiff.mp (Option.some_ne_none _)⟩,
      fun hiff => ⟨fun _ => hiff.mpr (Or.inl hkey), fun _ => Option.some_ne_none _⟩⟩
  · next hkey =>
    have hor : key = se.hash ∨ db.record st key ≠ none ↔ db.record st key ≠ none :=
      or_iff_right hkey
    rw [hor]
    exact iff_comm

/-! ### What is broadcast -/

omit [Hashing] in
theorem exists_ofBytes_mem (heap : ℕ → UInt8) (data : Bytes) :
    ∃ buf, SdsBytesBuf.ofBytes heap data = some buf ∧ buf.mem = overlay heap 0 data ∧
      buf.pos = data.length ∧ buf.bufferSize = data.length := by
  refine ⟨_, rfl, rfl, ?_, ?_⟩
  · exact Nat.zero_add _
  · exact Nat.zero_add _

/-- At the end of a buffer the hash is not read, and the title is empty. -/
theorem read_of_remaining_eq_zero {buf : SdsBytesBuf} (h : buf.remaining = 0) :
    SearchEntry.default.simHash.read.final buf = buf ∧ buf.nextLength = 0 := by
  constructor
  · exact (read_of_lt (n := KAD_ID_LENGTH) (by rw [h]; decide)).2.2
  · rw [nextLength, h]
    rfl

omit [Hashing] in
/-- Nothing remains behind a record. -/
theorem remaining_of_pos_eq {buf : SdsBytesBuf} {n : ℕ} (hpos : buf.pos = n)
    (hsize : buf.bufferSize = n) : buf.remaining = 0 := by
  rw [SdsBytesBuf.remaining, hpos, hsize, if_pos le_rfl, Nat.sub_self]

/-- **No title is read from a record.** -/
theorem title_of_readRecord {heap : ℕ → UInt8} {data : Bytes} {se : SearchEntry}
    (h : readRecord heap data = some se) : se.title = [] := by
  obtain ⟨buf, hbuf, -, hpos, hsize⟩ := exists_ofBytes_mem heap data
  obtain ⟨hid, hlength⟩ := read_of_remaining_eq_zero (remaining_of_pos_eq hpos hsize)
  rw [readRecord, hbuf] at h
  rw [← Option.some.inj h]
  show readString.value (SearchEntry.default.simHash.read.final buf) = []
  rw [hid, value_readString, hlength]
  rfl

/-- **A record is read from behind its end**: the url is what lies there. -/
theorem exists_readRecord (heap : ℕ → UInt8) (data : Bytes)
    (hnul : heap (data.length + 2) = 0) : ∃ se, readRecord heap data = some se ∧
      se.title = [] ∧ se.url = [heap (data.length + 1)] := by
  obtain ⟨buf, hbuf, hmem, hpos, hsize⟩ := exists_ofBytes_mem heap data
  have hbeyond : ∀ i, buf.mem (data.length + i) = heap (data.length + i) := by
    intro i
    rw [hmem, overlay, if_pos (Nat.zero_le _), Nat.sub_zero,
      List.getElem?_eq_none (Nat.le_add_right _ _), Option.getD_none]
  obtain ⟨hid, hlength⟩ := read_of_remaining_eq_zero (remaining_of_pos_eq hpos hsize)
  have hfinal : readString.final buf = buf.advance 1 := by
    rw [final_readString, hlength]
  -- the title has moved the position past the end
  have hlength' : (buf.advance 1).nextLength = 1 := by
    have hwrap : (buf.advance 1).remaining = 2 ^ 64 - 1 := by
      rw [SdsBytesBuf.remaining, advance, hpos, hsize, if_neg (by simp)]
      show 2 ^ 64 + data.length - (data.length + 1) = 2 ^ 64 - 1
      omega
    rw [nextLength, hwrap]
    refine stringLength_of_nul ?_ _ Nat.zero_lt_one (by decide) fun i hi hlt => by omega
    show buf.mem (buf.pos + 1 + 1) = 0
    rw [hpos, Nat.add_assoc, hbeyond, hnul]
  have hread : readRecord heap data = some (SearchEntry.default.read.value buf) := by
    rw [readRecord, hbuf]
    rfl
  refine ⟨_, hread, title_of_readRecord hread, ?_⟩
  show readString.value (readString.final (SearchEntry.default.simHash.read.final buf)) = _
  rw [hid, hfinal, value_readString, hlength']
  show [buf.mem (buf.pos + 1)] = _
  rw [hpos, hbeyond]

/-- The bytes of such an entry show what lies behind the record. -/
theorem getElem?_encode {se : SearchEntry} {c : UInt8} (htitle : se.title = [])
    (hurl : se.url = [c]) :
    se.encode[KAD_ID_LENGTH + 1]? = some c := by
  rw [SearchEntry.encode, htitle, hurl, List.getElem?_append_right (by simp [KadId.length_id]),
    KadId.length_id, Nat.add_sub_cancel_left]
  rfl

/-- Memory with one byte that may not be zero. -/
def spotted (place : ℕ) (c : UInt8) (i : ℕ) : UInt8 := if i = place then c else 0

/-- **No record that is due is broadcast as it is**: what is read instead depends on the
memory behind its copy. -/
theorem not_rebroadcasts {env : Surroundings} {timestamps : OrdMap SearchEntry.hashOrder Int64}
    {st : db.State} (hkeys : ∀ key, db.record st key ≠ none ↔ timestamps.HasKey key)
    {e : Bytes × Int64} (he : e ∈ timestamps.entries) (hdue : hourOld env.now e = true) :
    ¬ Rebroadcasts db (.running ⟨timestamps, some st⟩) (.broadcast env) := by
  intro h
  have hmem : e ∈ timestamps.entries.filter (hourOld env.now) := List.mem_filter.mpr ⟨he, hdue⟩
  obtain ⟨e₀, due, hcons⟩ := List.exists_cons_of_ne_nil (List.ne_nil_of_mem hmem)
  have he₀ : e₀ ∈ timestamps.entries :=
    (List.mem_filter.mp (hcons ▸ List.mem_cons_self : e₀ ∈ timestamps.entries.filter _)).1
  obtain ⟨data, hdata⟩ := Option.ne_none_iff_exists'.mp ((hkeys e₀.1).mpr ⟨e₀, he₀, rfl⟩)
  -- the byte behind the first record shows up in the bytes of the first entry
  have hbyte : ∀ c : UInt8, data[KAD_ID_LENGTH + 1]? = some c := by
    intro c
    obtain ⟨list, s', hrun, hlist⟩ := h fun _ => spotted (data.length + 1) c
    obtain ⟨list', hmapM, hrun'⟩ := broadcast_run (ε := Empty)
      { env with heap := fun _ => spotted (data.length + 1) c } timestamps st
    obtain ⟨se, hread, htitle, hurl⟩ := exists_readRecord (spotted (data.length + 1) c) data
      (if_neg (by omega))
    rw [Prog.outcome, hrun'] at hrun
    have hsame : list' = list := by
      simp only at hrun
      split at hrun
      · exact (Outcome.returned.inj hrun).1
      · cases hrun
    have hget : getByHash (spotted (data.length + 1) c) st e₀.1 = some se := by
      rw [getByHash, db.get_ok st e₀.1 data hdata]
      exact hread
    have hhead := hlist st rfl
    rw [hcons, List.zipIdx_cons, List.mapM_cons] at hmapM
    simp only [hget, Option.bind_eq_bind, Option.bind_some, Option.bind_eq_some_iff] at hmapM
    obtain ⟨rest, -, hrest⟩ := hmapM
    rw [← hsame, ← Option.some.inj hrest, hcons, List.map_cons, List.map_cons, hdata] at hhead
    have hencode : se.encode = data := Option.some.inj (List.cons.inj hhead).1
    rw [← hencode]
    exact getElem?_encode htitle (hurl.trans (by rw [spotted, if_pos rfl]))
  exact absurd ((hbyte 1).symm.trans (hbyte 2)) (by decide)

/-! ### Runs -/

omit [Hashing] in
/-- Nothing is refreshed where nothing is an hour old. -/
theorem refreshed_of_forall_not {now : Int64} {timestamps : OrdMap SearchEntry.hashOrder Int64}
    (h : ∀ e ∈ timestamps.entries, hourOld now e = false) :
    refreshed now timestamps = timestamps := by
  refine OrdMap.mapValues_of_forall_eq fun e he => ?_
  rw [h e he]
  rfl

/-- A broadcast appends nothing there. -/
theorem rebroadcasts_of_forall_not {env : Surroundings}
    {timestamps : OrdMap SearchEntry.hashOrder Int64} {st : db.State}
    (hnone : ∀ e ∈ timestamps.entries, hourOld env.now e = false)
    (hyoung : Young env.later timestamps) :
    Rebroadcasts db (.running ⟨timestamps, some st⟩) (.broadcast env) := by
  intro heap
  have hnil : timestamps.entries.filter (hourOld env.now) = [] := by
    refine List.filter_eq_nil_iff.mpr fun e he => ?_
    rw [hnone e he]
    exact Bool.false_ne_true
  obtain ⟨list, hlist, hrun⟩ := broadcast_run (ε := Empty) { env with heap } timestamps st
  rw [refreshed_of_forall_not hnone, if_pos hyoung] at hrun
  refine ⟨list, _, congrArg Prod.snd hrun, fun st' _ => ?_⟩
  rw [hnil] at hlist ⊢
  obtain rfl : [] = list := Option.some.inj hlist
  rfl

/-- A broadcast keeps the keys in agreement and appends what is due exactly where that is
nothing, and nothing expires. -/
theorem keysAgree_broadcast_iff {env : Surroundings}
    {timestamps : OrdMap SearchEntry.hashOrder Int64} {st : db.State}
    (hkeys : ∀ key, db.record st key ≠ none ↔ timestamps.HasKey key) :
    KeysAgree db (step db.toLookupDB (.running ⟨timestamps, some st⟩) (.broadcast env)) ∧
        Rebroadcasts db (.running ⟨timestamps, some st⟩) (.broadcast env) ↔
      (∀ e ∈ timestamps.entries, hourOld env.now e = false) ∧ Young env.later timestamps := by
  rw [step_broadcast]
  by_cases hnone : ∀ e ∈ timestamps.entries, hourOld env.now e = false
  · rw [refreshed_of_forall_not hnone]
    by_cases hyoung : Young env.later timestamps
    · rw [if_pos hyoung]
      exact iff_of_true ⟨keysAgree_running.mpr hkeys, rebroadcasts_of_forall_not hnone hyoung⟩
        ⟨hnone, hyoung⟩
    · rw [if_neg hyoung]
      exact iff_of_false (fun h => h.1) fun h => hyoung h.2
  · refine iff_of_false (fun h => ?_) fun h => hnone h.1
    push Not at hnone
    obtain ⟨e, he, hdue⟩ := hnone
    exact not_rebroadcasts hkeys he (by simpa using hdue) h.2

/-- **A call keeps the keys in agreement, and broadcasts what is due, whatever is read as the
key, exactly where it is quiet.** -/
theorem forall_keysAgree_step_iff (s : StoreState db.toBerkeleyDB) (e : StoreEvent)
    (hs : KeysAgree db s) :
    (∀ e', e.Like e' → KeysAgree db (step db.toLookupDB s e') ∧ Rebroadcasts db s e') ↔
      Quiet s e := by
  cases s with
  | gone => exact hs.elim
  | running s =>
    obtain ⟨st, hst, hkeys⟩ := hs
    obtain ⟨timestamps, dbp⟩ := s
    obtain rfl : dbp = some st := hst
    cases e with
    | insert env se =>
      rw [Quiet]
      constructor
      · intro h
        by_contra hvalid
        have hgone := step_insert_of_no_key (show (env.withKey none).key = none from rfl)
          (Bool.not_eq_false _ ▸ hvalid) timestamps st
        have hagree := (h _ ⟨none, rfl⟩).1
        rw [hgone] at hagree
        exact hagree
      · rintro hinvalid e' ⟨key, rfl⟩
        rw [step_insert_of_not_valid _ hinvalid]
        exact ⟨keysAgree_running.mpr hkeys, trivial⟩
    | broadcast env =>
      rw [Quiet, ← keysAgree_broadcast_iff hkeys]
      constructor
      · exact fun h => h _ rfl
      · rintro h e' rfl
        exact h

/-- A call that is quiet does the same whatever is read as the key. -/
theorem step_of_quiet {s : StoreState db.toBerkeleyDB} {e e' : StoreEvent} (hs : KeysAgree db s)
    (hquiet : Quiet s e) (he : e.Like e') : step db.toLookupDB s e' = step db.toLookupDB s e := by
  cases s with
  | gone => exact hs.elim
  | running s =>
    obtain ⟨st, hst, -⟩ := hs
    obtain ⟨timestamps, dbp⟩ := s
    obtain rfl : dbp = some st := hst
    cases e with
    | insert env se =>
      obtain ⟨key, rfl⟩ := he
      rw [step_insert_of_not_valid _ hquiet, step_insert_of_not_valid _ hquiet]
    | broadcast env =>
      obtain rfl : e' = .broadcast env := he
      rfl

/-- **With the digest as the key, a call does so exactly where it is undisturbed.** -/
theorem keysAgree_step_iff (s : StoreState db.toBerkeleyDB) (e : StoreEvent)
    (hs : KeysAgree db s) (he : e.Digested) :
    KeysAgree db (step db.toLookupDB s e) ∧ Rebroadcasts db s e ↔ Undisturbed s e := by
  cases s with
  | gone => exact hs.elim
  | running s =>
    obtain ⟨st, hst, hkeys⟩ := hs
    obtain ⟨timestamps, dbp⟩ := s
    obtain rfl : dbp = some st := hst
    cases e with
    | insert env se =>
      have htrivial : Rebroadcasts db (.running ⟨timestamps, some st⟩) (.insert env se) := trivial
      rw [and_iff_left htrivial, Undisturbed]
      by_cases hvalid : se.hasValidSize = true
      · rw [step_insert_of_key he hvalid, forall_prop_of_true hvalid]
        by_cases hyoung : Young env.later (timestamps.set se.hash env.now)
        · rw [if_pos hyoung, keysAgree_inserted_iff env.now se hkeys]
          exact (and_iff_left hyoung).symm
        · rw [if_neg hyoung]
          exact iff_of_false (fun h => h) fun h => hyoung h.2
      · rw [step_insert_of_not_valid env (Bool.eq_false_of_not_eq_true hvalid)]
        exact iff_of_true (keysAgree_running.mpr hkeys) fun h => absurd h hvalid
    | broadcast env => exact keysAgree_broadcast_iff hkeys

/-- The keys agree in every state of a run, and every broadcast of it appends what is due. -/
def KeepsKeys (db : ReliableDB) (s : StoreState db.toBerkeleyDB) (events : List StoreEvent) :
    Prop :=
  Runs.Always (step db.toLookupDB) (KeysAgree db) s events ∧
    Runs.Along (step db.toLookupDB) (Rebroadcasts db) s events

/-- One call after the other. -/
theorem keepsKeys_iff {s : StoreState db.toBerkeleyDB} (hs : KeysAgree db s)
    (events : List StoreEvent) :
    KeepsKeys db s events ↔ Runs.Along (step db.toLookupDB)
      (fun s e => KeysAgree db (step db.toLookupDB s e) ∧ Rebroadcasts db s e) s events :=
  Runs.always_and_along_iff (fun _ _ _ => Iff.rfl) events s hs

/-- **In a run from an opened file, the keys agree in every state and every broadcast appends
what is due, whatever `put` reads as its keys, exactly where no two keys of the file share their
first eight bytes and every call is quiet; where it reads the digests, exactly where every call
is undisturbed.** -/
theorem keysAgree_iff (clock : ℕ → Int64) (st : db.State) (events : List StoreEvent) :
    ((∀ events', List.Forall₂ StoreEvent.Like events events' →
        KeepsKeys db (opened db.toLookupDB clock st) events') ↔
      Apart db st ∧
        Runs.Along (step db.toLookupDB) Quiet (opened db.toLookupDB clock st) events) ∧
    ((∀ e ∈ events, e.Digested) →
      (KeepsKeys db (opened db.toLookupDB clock st) events ↔
        Apart db st ∧
          Runs.Along (step db.toLookupDB) Undisturbed (opened db.toLookupDB clock st) events)) := by
  rw [← keysAgree_opened_iff clock st]
  constructor
  · have hall : KeysAgree db (opened db.toLookupDB clock st) → ((∀ events',
        List.Forall₂ StoreEvent.Like events events' → Runs.Along (step db.toLookupDB)
          (fun s e => KeysAgree db (step db.toLookupDB s e) ∧ Rebroadcasts db s e)
          (opened db.toLookupDB clock st) events') ↔
        Runs.Along (step db.toLookupDB) Quiet (opened db.toLookupDB clock st) events) := by
      intro hopened
      refine Runs.forall_along_iff (P := KeysAgree db) (I := fun _ _ => True)
        StoreEvent.like_refl (fun s e hs _ => forall_keysAgree_step_iff s e hs)
        (fun s e e' => @step_of_quiet _ db s e e') (fun s e hs _ hquiet => ?_) events _ hopened
        (Runs.along_true events _)
      exact ((forall_keysAgree_step_iff s e hs).mpr hquiet e (StoreEvent.like_refl e)).1
    constructor
    · intro h
      have hopened := (h events (List.forall₂_same.mpr fun e _ => StoreEvent.like_refl e)).1.head
      exact ⟨hopened, (hall hopened).mp fun es hes => (keepsKeys_iff hopened es).mp (h es hes)⟩
    · rintro ⟨hopened, halong⟩ es hes
      exact (keepsKeys_iff hopened es).mpr ((hall hopened).mpr halong es hes)
  · intro hdigested
    have hrun : KeysAgree db (opened db.toLookupDB clock st) →
        (KeepsKeys db (opened db.toLookupDB clock st) events ↔
          Runs.Along (step db.toLookupDB) Undisturbed (opened db.toLookupDB clock st) events) := by
      intro hopened
      rw [keepsKeys_iff hopened]
      refine Runs.along_iff_along (P := KeysAgree db)
        (fun s e hs he => keysAgree_step_iff s e hs he)
        (fun s e hs he hok => ((keysAgree_step_iff s e hs he).mpr hok).1) events _ hopened
        (Runs.along_of_forall_mem hdigested _)
    constructor
    · exact fun h => ⟨h.1.head, (hrun h.1.head).mp h⟩
    · exact fun h => (hrun h.1).mpr h.2

/-- An entry that is put and is due once is enough to disturb a run. -/
theorem not_along_undisturbed {env env' : Surroundings} {se : SearchEntry}
    (hkey : env.key = some se.hash) (hvalid : se.hasValidSize = true)
    (hhour : UNIX_HOUR ≤ env'.now.toInt - env.now.toInt)
    (clock : ℕ → Int64) {st : db.State} (hempty : db.cursor st = .ok []) :
    ¬ Runs.Along (step db.toLookupDB) Undisturbed (opened db.toLookupDB clock st)
      [.insert env se, .broadcast env'] := by
  rw [opened_eq clock hempty]
  rintro ⟨hinsert, hbroadcast, -⟩
  obtain ⟨-, hyoung⟩ := hinsert hvalid
  rw [step_insert_of_key hkey hvalid, if_pos hyoung] at hbroadcast
  have hmem : (se.hash, env.now) ∈ ((openedTimes clock []).set se.hash env.now).entries :=
    List.mem_singleton.mpr rfl
  have hnot := hbroadcast.1 _ hmem
  rw [hourOld, decide_eq_false_iff_not] at hnot
  exact hnot hhour

end SearchEntriesDB

end

/-! ### A store in memory -/

/-- A database that keeps its records in a map. -/
def LookupDB.inMap : LookupDB where
  State := OrdMap SimHash.stringOrder Bytes
  put st key data := (st.set key data, 0)
  cursor st := .ok st.entries
  strerror _ := ""
  get st key :=
    match st.find? key with
    | some r => .ok r.2
    | none => .error (-30988)

/-- Its calls succeed. -/
def ReliableDB.inMap : ReliableDB where
  toLookupDB := LookupDB.inMap
  record (st : OrdMap SimHash.stringOrder Bytes) key := (st.find? key).map Prod.snd
  put_ok _ _ _ := rfl
  record_put st key data := OrdMap.find?_set_of_eq SimHash.eq_of_stringOrder_equiv st key data
  get_ok st key data h := by
    obtain ⟨r, hr, rfl⟩ := Option.map_eq_some_iff.mp h
    simp only [LookupDB.inMap, hr]
  cursor_ok st := ⟨st.entries, rfl, fun key data =>
    (OrdMap.find?_eq_some_iff_of_eq SimHash.eq_of_stringOrder_equiv).symm⟩

/-- SHA256 of the titles that are used below, and no other hash. -/
@[reducible] def Hashing.ofLetters : Hashing where
  fnv128String _ _ := 0
  sha256 s :=
    if s = [] then
      [227, 176, 196, 66, 152, 252, 28, 20, 154, 251, 244, 200, 153, 111, 185, 36, 39, 174, 65,
       228, 100, 155, 147, 76, 164, 149, 153, 27, 120, 82, 184, 85]
    else if s = [97] then
      [202, 151, 129, 18, 202, 27, 189, 202, 250, 194, 49, 179, 154, 35, 220, 77, 167, 134, 239,
       248, 20, 124, 78, 114, 185, 128, 119, 133, 175, 238, 72, 187]
    else if s = [98] then
      [62, 35, 232, 22, 0, 57, 89, 74, 51, 137, 79, 101, 100, 225, 177, 52, 139, 189, 122, 0,
       136, 212, 44, 74, 203, 115, 238, 174, 213, 156, 0, 157]
    else List.replicate SHA256_DIGEST_LENGTH 0
  length_sha256 s := by
    split
    · rfl
    split
    · rfl
    split
    · rfl
    · exact List.length_replicate

/-- An entry with the title "a". -/
def titledA : @SearchEntry Hashing.ofLetters :=
  letI := Hashing.ofLetters
  SearchEntry.ofFields ⟨KadId.ofNat 1⟩ [97] [120] .SITE ∅

/-- It is put at the start, under its digest, and broadcast an hour later. -/
def hourLater : List (@StoreEvent Hashing.ofLetters) :=
  letI := Hashing.ofLetters
  [.insert (Surroundings.zero.withKey (some titledA.hash)) titledA,
    .broadcast ⟨3600, 3600, fun _ _ => 0, none⟩]

theorem digested_hourLater : ∀ e ∈ hourLater, @StoreEvent.Digested Hashing.ofLetters e := by
  intro e he
  rcases List.mem_cons.mp he with rfl | he
  · rfl
  · rw [List.mem_singleton.mp he]
    trivial

/-- What is broadcast is not what was put. -/
theorem SearchEntriesDB.hourLater_not_keysAgree :
    letI := Hashing.ofLetters
    ¬ KeepsKeys ReliableDB.inMap (opened LookupDB.inMap (fun _ => 0) OrdMap.empty) hourLater := by
  let _ := Hashing.ofLetters
  intro h
  refine @not_along_undisturbed _ ReliableDB.inMap (Surroundings.zero.withKey (some titledA.hash))
    ⟨3600, 3600, fun _ _ => 0, none⟩ titledA rfl (by decide) (by decide) (fun _ => 0)
    OrdMap.empty rfl ?_
  refine (Runs.along_iff_along (P := KeysAgree ReliableDB.inMap)
    (fun s e hs he => keysAgree_step_iff s e hs he)
    (fun s e hs he hok => ((keysAgree_step_iff s e hs he).mpr hok).1) _ _ h.1.head
    (Runs.along_of_forall_mem digested_hourLater _)).mp ?_
  exact (keepsKeys_iff h.1.head _).mp h

end SniffDogSniff
