import SniffDogSniff.SdsCore.StoreRuns

/-!
# The calls of the store one by one

`modified` walks over the times with an iterator, and where it erases an entry it
goes on with the iterator to it.  `insertResult` notes the time before it puts the
record, and leaves it there when that fails.  `doSearch` reads each record from
behind its end.

## Main definitions

* `Iterator`, `modifiedLoop`, `modifiedIter` — `modified` with its iterator.
* `DeletingDB`, `CleansUp` — a database that records are deleted from, and what
  `modified` is there for.
* `AtomicDB`, `ThrowsUnchanged` — a database that a failed `put` does not change, and
  a call of `insertResult` that changes nothing where it throws.
* `Searchable`, `FindsItself` — an entry that a search for its title should find.

## Main results

* `modifiedIter_eq_modified` — the other modules use what the walk comes to.
* `cleansUp_iff` — **the store is cleaned up exactly where there is nothing to do.**
* `throwsUnchanged_iff` — **a failed `put` leaves the time behind, unless it was there.**
* `not_findsItself` — **no entry is found by its title.**
-/

namespace SniffDogSniff

open SdsBytesBuf StringUtil

/-- A database from which records can be deleted. -/
structure DeletingDB extends ReliableDB where
  /-- `del` of the record under a key. -/
  del : State → Bytes → State × ℤ
  record_del : ∀ st key, record (del st key).1 = Function.update (record st) key none

/-- A database that stays as it is where it does not take a record. -/
structure AtomicDB extends LookupDB where
  put_err : ∀ st key data, (put st key data).2 ≠ 0 → (put st key data).1 = st

/-- An iterator over the times. -/
inductive Iterator
  /-- The entries from it on; there are none at the end. -/
  | pointing (rest : List (Bytes × Int64))
  /-- Its entry has been erased. -/
  | erased

section

variable [Hashing]

namespace SearchEntriesDB

/-! ### `modified` -/

section

variable {db : DeletingDB} {ε : Type}

/-- The time is a day back or more. -/
def dayOld (now : Int64) (e : Bytes × Int64) : Bool := decide (UNIX_DAY ≤ now.toInt - e.2.toInt)

/-- The loop of `modified`, for at most `n` more entries. -/
def modifiedLoop (now : Int64) : ℕ → Iterator → Prog ε (SearchEntriesDB db.toBerkeleyDB) Unit
  -- the iterator is compared with the end in front of every round
  | _, .erased => Prog.undefined
  | _, .pointing [] => pure ()
  | 0, .pointing (_ :: _) => Prog.stuck
  | n + 1, .pointing (e :: rest) =>
      if dayOld now e then do
        let s ← Prog.get
        match s.dbp with
        | none => Prog.undefined
        | some st =>
          Prog.modify fun s => { s with dbp := some (db.del st e.1).1 }
          Prog.modify fun s => { s with timestamps := s.timestamps.erase e.1 }
          modifiedLoop now n .erased
      else modifiedLoop now n (.pointing rest)

/-- `modified`, with its iterator. -/
def modifiedIter (now : Int64) : Prog ε (SearchEntriesDB db.toBerkeleyDB) Unit := do
  let s ← Prog.get
  modifiedLoop now s.timestamps.size (.pointing s.timestamps.entries)

omit [Hashing] in
theorem modifiedLoop_erased (now : Int64) (n : ℕ) :
    (modifiedLoop now n .erased : Prog ε (SearchEntriesDB db.toBerkeleyDB) Unit) =
      Prog.undefined := by
  cases n with
  | zero => rfl
  | succ n => rfl

omit [Hashing] in
/-- The first entry of a day's age ends the walk. -/
theorem modifiedLoop_run (now : Int64) (s : SearchEntriesDB db.toBerkeleyDB) :
    ∀ rest : List (Bytes × Int64),
      (modifiedLoop now rest.length (.pointing rest) : Prog ε _ Unit) s =
        ([], if rest.any (dayOld now) then .undefined else .returned () s) := by
  intro rest
  induction rest with
  | nil => rfl
  | cons e rest ih =>
    rw [List.length_cons, modifiedLoop, List.any_cons]
    cases hold : dayOld now e with
    | true =>
      rw [if_pos rfl, Prog.get_bind]
      simp only [modifiedLoop_erased]
      cases s.dbp with
      | none => rfl
      | some st => rfl
    | false =>
      rw [if_neg Bool.false_ne_true, ih]
      rfl

omit [Hashing] in
/-- **What the walk comes to.** -/
theorem modifiedIter_eq_modified (now : Int64) :
    (modifiedIter now : Prog ε (SearchEntriesDB db.toBerkeleyDB) Unit) = modified now := by
  funext s
  rw [modifiedIter, modified, Prog.get_bind, Prog.get_bind]
  refine (modifiedLoop_run now s s.timestamps.entries).trans ?_
  show _ = (if s.timestamps.entries.any (dayOld now) then Prog.undefined else pure ()) s
  cases s.timestamps.entries.any (dayOld now) with
  | true => rfl
  | false => rfl

/-- `modified` returns, and has taken the entries of a day's age from the times and
from the database, and nothing else. -/
def CleansUp (db : DeletingDB) (now : Int64) (s : SearchEntriesDB db.toBerkeleyDB) : Prop :=
  ∃ s', (modifiedIter now : Prog Empty _ Unit).outcome s = .returned () s' ∧
    s'.timestamps.entries = s.timestamps.entries.filter (fun e => !dayOld now e) ∧
    ∀ st, s.dbp = some st → ∃ st', s'.dbp = some st' ∧ ∀ key,
      ((∃ e ∈ s.timestamps.entries, dayOld now e = true ∧ e.1 = key) → db.record st' key = none) ∧
      ((¬ ∃ e ∈ s.timestamps.entries, dayOld now e = true ∧ e.1 = key) →
        db.record st' key = db.record st key)

omit [Hashing] in
theorem outcome_modifiedIter (now : Int64) (s : SearchEntriesDB db.toBerkeleyDB) :
    (modifiedIter now : Prog ε _ Unit).outcome s =
      if Young now s.timestamps then .returned () s else .undefined := by
  rw [modifiedIter_eq_modified, Prog.outcome, modified_run]

omit [Hashing] in
/-- **`modified` does its work if and only if there is none to do.** -/
theorem cleansUp_iff (now : Int64) (s : SearchEntriesDB db.toBerkeleyDB) :
    CleansUp db now s ↔ ∀ e ∈ s.timestamps.entries, now.toInt - e.2.toInt < UNIX_DAY := by
  unfold CleansUp
  rw [outcome_modifiedIter]
  constructor
  · rintro ⟨s', hrun, -⟩
    split at hrun
    · next hyoung => exact hyoung
    · cases hrun
  · intro hyoung
    have hnot : ∀ e ∈ s.timestamps.entries, dayOld now e = false := by
      intro e he
      rw [dayOld, decide_eq_false_iff_not, not_le]
      exact hyoung e he
    refine ⟨s, if_pos hyoung, ?_, fun st hst => ⟨st, hst, fun key => ⟨?_, fun _ => rfl⟩⟩⟩
    · refine (List.filter_eq_self.mpr fun e he => ?_).symm
      rw [hnot e he]
      rfl
    · rintro ⟨e, he, hold, -⟩
      rw [hnot e he] at hold
      cases hold

end

/-! ### `insertResult` -/

section

variable {db : BerkeleyDB} {env : Surroundings} {se : SearchEntry} {s : SearchEntriesDB db}
  {st : db.State} {key : Bytes}

/-- The end of a call for an entry of valid size. -/
theorem outcome_insertResult (hdbp : s.dbp = some st) (hvalid : se.hasValidSize = true)
    (hkey : env.key = some key) :
    (insertResult env se : Prog Empty _ Unit).outcome s =
      if (db.put st key se.encode).2 ≠ 0 then
        .threw s!"insert result fail database error: {db.strerror (db.put st key se.encode).2}"
          ⟨s.timestamps.set se.hash env.now, some (db.put st key se.encode).1⟩
      else (modified env.later : Prog Empty _ Unit).outcome
        ⟨s.timestamps.set se.hash env.now, some (db.put st key se.encode).1⟩ := by
  obtain ⟨buf, hwrite, hbytes⟩ := exists_write se (env.heap 0)
  rw [Prog.outcome, insertResult, Prog.get_bind, hdbp]
  simp only [hvalid, Bool.true_eq_false, if_false]
  rw [Prog.modify_bind, hwrite, Prog.ofOption, pure_bind, hkey, Prog.ofOption, pure_bind,
    Prog.modify_bind, hbytes]
  by_cases herr : (db.put st key se.encode).2 ≠ 0
  · rw [if_pos herr, if_pos herr]
    rfl
  · rw [if_neg herr, if_neg herr]
    rfl

/-- Where the key is not read in a defined way, there is no such end. -/
theorem outcome_insertResult_of_no_key (hdbp : s.dbp = some st) (hvalid : se.hasValidSize = true)
    (hkey : env.key = none) :
    (insertResult env se : Prog Empty _ Unit).outcome s = .undefined := by
  obtain ⟨buf, hwrite, hbytes⟩ := exists_write se (env.heap 0)
  rw [Prog.outcome, insertResult, Prog.get_bind, hdbp]
  simp only [hvalid, Bool.true_eq_false, if_false]
  rw [Prog.modify_bind, hwrite, Prog.ofOption, pure_bind, hkey]
  rfl

theorem outcome_insertResult_of_invalid (hdbp : s.dbp = some st)
    (hvalid : se.hasValidSize = false) :
    (insertResult env se : Prog Empty _ Unit).outcome s =
      .threw s!"search entry exceeds size limit of {MAX_SEARCH_ENTRY_SIZE} bytes" s := by
  rw [Prog.outcome, insertResult, Prog.get_bind, hdbp]
  simp only [hvalid, if_true]
  rfl

omit [Hashing] in
theorem modified_not_threw {now : Int64} {s' : SearchEntriesDB db} {what : String} :
    (modified now : Prog Empty _ Unit).outcome s ≠ .threw what s' := by
  rw [Prog.outcome, modified_run]
  intro h
  split at h
  · cases h
  · cases h

end

section

variable {db : AtomicDB}

/-- Where `insertResult` throws, the times and the database are as before. -/
def ThrowsUnchanged (env : Surroundings) (se : SearchEntry) (s : SearchEntriesDB db.toBerkeleyDB) :
    Prop :=
  ∀ what s', (insertResult env se : Prog Empty _ Unit).outcome s = .threw what s' → s' = s

/-- The store after a `put` that failed. -/
def halfInserted (now : Int64) (se : SearchEntry) (s : SearchEntriesDB db.toBerkeleyDB) :
    SearchEntriesDB db.toBerkeleyDB :=
  { s with timestamps := s.timestamps.set se.hash now }

/-- The time that is noted is the only change. -/
theorem halfInserted_eq_iff (now : Int64) (se : SearchEntry)
    (s : SearchEntriesDB db.toBerkeleyDB) : halfInserted now se s = s ↔
      ∃ e ∈ s.timestamps.entries, SearchEntry.hashOrder.Equiv se.hash e.1 ∧ e.2 = now := by
  rw [← OrdMap.set_eq_self_iff, halfInserted]
  constructor
  · intro h
    exact congrArg timestamps h
  · intro h
    rw [h]

/-- A call for an entry that the database refuses. -/
theorem outcome_insertResult_of_put_err {env : Surroundings} {se : SearchEntry}
    {s : SearchEntriesDB db.toBerkeleyDB} {st : db.State} {key : Bytes} (hdbp : s.dbp = some st)
    (hvalid : se.hasValidSize = true) (hkey : env.key = some key)
    (herr : (db.put st key se.encode).2 ≠ 0) :
    (insertResult env se : Prog Empty _ Unit).outcome s =
      .threw s!"insert result fail database error: {db.strerror (db.put st key se.encode).2}"
        (halfInserted env.now se s) := by
  rw [outcome_insertResult hdbp hvalid hkey, if_pos herr, db.put_err st key se.encode herr, ← hdbp]
  rfl

/-- **A call that throws has changed nothing, if and only if the record was not refused
by the database, under the key that it read, or a key with the first eight bytes of the digest
had this very time already.** -/
theorem throwsUnchanged_iff (env : Surroundings) (se : SearchEntry)
    (s : SearchEntriesDB db.toBerkeleyDB) :
    ThrowsUnchanged env se s ↔ ∀ st, s.dbp = some st → se.hasValidSize = true →
      ∀ key ∈ env.key, (db.put st key se.encode).2 ≠ 0 →
        ∃ e ∈ s.timestamps.entries, SearchEntry.hashOrder.Equiv se.hash e.1 ∧ e.2 = env.now := by
  rw [← halfInserted_eq_iff]
  constructor
  · intro h st hdbp hvalid key hkey herr
    exact h _ _ (outcome_insertResult_of_put_err hdbp hvalid hkey herr)
  · intro h what s' hrun
    cases hdbp : s.dbp with
    | none =>
      rw [Prog.outcome, insertResult, Prog.get_bind, hdbp] at hrun
      cases hrun
    | some st =>
      cases hvalid : se.hasValidSize with
      | false =>
        rw [outcome_insertResult_of_invalid hdbp hvalid] at hrun
        exact (Outcome.threw.inj hrun).2.symm
      | true =>
        cases hkey : env.key with
        | none =>
          rw [outcome_insertResult_of_no_key hdbp hvalid hkey] at hrun
          cases hrun
        | some key =>
          by_cases herr : (db.put st key se.encode).2 ≠ 0
          · rw [outcome_insertResult_of_put_err hdbp hvalid hkey herr] at hrun
            rw [← (Outcome.threw.inj hrun).2]
            exact h st hdbp hvalid key hkey herr
          · rw [outcome_insertResult hdbp hvalid hkey, if_neg herr] at hrun
            exact absurd hrun modified_not_threw

end

/-! ### `insertResult` and `doSearch` -/

/-- **What a search finds has no title.** -/
theorem title_of_mem_found {db : BerkeleyDB} {sur : Surroundings} {query : Bytes}
    {se : SearchEntry} {s : SearchEntriesDB db} (h : se ∈ s.found sur query) : se.title = [] := by
  cases hdbp : s.dbp with
  | none =>
    rw [found_of_none sur query hdbp] at h
    cases h
  | some st =>
    rw [found, doSearch, Prog.get_bind, hdbp] at h
    cases hcursor : db.cursor st with
    | error code =>
      simp only [hcursor] at h
      cases h
    | ok records =>
      obtain ⟨entries, hentries⟩ := exists_readRecords sur.heap records.zipIdx
      simp only [hcursor, hentries, Prog.ofOption, pure_bind] at h
      obtain ⟨r, -, hread⟩ := Prog.exists_of_mem_mapM hentries se (List.mem_of_mem_filter h)
      exact title_of_readRecord hread

section

variable {db : ReliableDB}

/-- An entry of valid size that is made from a title with words and has clean strings. -/
structure Searchable (se : SearchEntry) : Prop where
  valid : se.hasValidSize = true
  made : se = SearchEntry.new se.title se.url se.type se.properties
  title : 0 ∉ se.title
  tokens : tokenize se.title wordDelims wordCutset ≠ []
  words : ∀ tok ∈ tokenize se.title wordDelims wordCutset, tok ≠ []
  url : CleanString se.url
  properties : ∀ p ∈ se.properties.entries, CleanString p.2

/-- The entry is inserted, and a search for its title finds it. -/
def FindsItself (env sur : Surroundings) (se : SearchEntry) (s : SearchEntriesDB db.toBerkeleyDB) :
    Prop :=
  ∃ s', (insertResult env se : Prog Empty _ Unit).outcome s = .returned () s' ∧
    se ∈ s'.found sur se.title

/-- **No entry is found by its title.** -/
theorem not_findsItself (env sur : Surroundings) {se : SearchEntry} (hse : Searchable se)
    (s : SearchEntriesDB db.toBerkeleyDB) : ¬ FindsItself env sur se s := by
  rintro ⟨s', -, hmem⟩
  apply hse.tokens
  rw [title_of_mem_found hmem]
  rfl

end

end SearchEntriesDB

end

/-! ### Stores in memory -/

/-- A database that takes no record. -/
def AtomicDB.full : AtomicDB where
  State := Unit
  put st _ _ := (st, 28)
  cursor _ := .ok []
  strerror _ := ""
  get _ _ := .error (-30988)
  put_err _ _ _ _ := rfl

/-- A database in memory from which records can be deleted. -/
def DeletingDB.inMap : DeletingDB where
  toReliableDB := ReliableDB.inMap
  del (st : OrdMap SimHash.stringOrder Bytes) key := (st.erase key, 0)
  record_del st key := OrdMap.find?_erase_of_eq SimHash.eq_of_stringOrder_equiv st key

namespace SearchEntriesDB

/-- A day after its insertion, an entry is erased and the walk goes on from it. -/
theorem dayLater_not_cleansUp :
    ¬ CleansUp DeletingDB.inMap 86400 ⟨(∅ : OrdMap _ _).set [1] 0, some OrdMap.empty⟩ := by
  rintro ⟨s', hrun, -⟩
  cases hrun

/-- The time of a record that the database did not take stays, and an hour later a blank
entry is broadcast. -/
theorem full_not_throwsUnchanged :
    letI := Hashing.ofLetters
    ¬ ThrowsUnchanged Surroundings.zero titledA
        (⟨∅, some ()⟩ : SearchEntriesDB AtomicDB.full.toBerkeleyDB) ∧
      ∃ s', (getEntriesForBroadcast ⟨3600, 3600, fun _ _ => 0, none⟩ : Prog Empty _ _).outcome
        (halfInserted 0 titledA (⟨∅, some ()⟩ : SearchEntriesDB AtomicDB.full.toBerkeleyDB)) =
          .returned [SearchEntry.default] s' := by
  let _ := Hashing.ofLetters
  refine ⟨fun h => ?_, ⟨_, rfl⟩⟩
  have hthrew := @outcome_insertResult_of_put_err _ AtomicDB.full Surroundings.zero titledA
    ⟨∅, some ()⟩ () _ rfl (by decide) rfl (by decide)
  have hsame := h _ _ hthrew
  obtain ⟨e, he, -⟩ := (halfInserted_eq_iff _ _ _).mp hsame
  cases he

/-- An entry with the title "a", made from it. -/
def madeA : @SearchEntry Hashing.ofLetters :=
  letI := Hashing.ofLetters
  SearchEntry.new [97] [120] .SITE ∅

theorem searchable_madeA :
    letI := Hashing.ofLetters
    Searchable madeA := by
  let _ := Hashing.ofLetters
  refine ⟨by decide, rfl, by decide, by decide, by decide, by decide, ?_⟩
  intro p hp
  cases hp

/-- The entry is inserted, and not found. -/
theorem madeA_not_findsItself :
    letI := Hashing.ofLetters
    Searchable madeA ∧
      (insertResult Surroundings.zero madeA : Prog Empty _ Unit).outcome
          (⟨∅, some OrdMap.empty⟩ : SearchEntriesDB ReliableDB.inMap.toBerkeleyDB) =
        .returned () (inserted 0 (List.replicate SHA256_DIGEST_LENGTH 0) madeA ∅ OrdMap.empty) ∧
      ¬ FindsItself Surroundings.zero Surroundings.zero madeA
        (⟨∅, some OrdMap.empty⟩ : SearchEntriesDB ReliableDB.inMap.toBerkeleyDB) := by
  let _ := Hashing.ofLetters
  refine ⟨searchable_madeA, ?_, ?_⟩
  · rw [outcome_insertResult rfl (by decide) rfl, if_neg (by decide), Prog.outcome, modified_run,
      if_pos (by decide)]
    rfl
  · rintro ⟨s', -, hmem⟩
    have htitle := title_of_mem_found hmem
    cases htitle

/-- The theorem at this entry. -/
theorem not_findsItself_madeA :
    letI := Hashing.ofLetters
    ¬ FindsItself Surroundings.zero Surroundings.zero madeA
      (⟨∅, some OrdMap.empty⟩ : SearchEntriesDB ReliableDB.inMap.toBerkeleyDB) :=
  letI := Hashing.ofLetters
  not_findsItself Surroundings.zero Surroundings.zero searchable_madeA _

end SearchEntriesDB

end SniffDogSniff
