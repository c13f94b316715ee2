import SniffDogSniff.Base.Prog
import SniffDogSniff.SdsCore.SearchEntry

/-!
# The store

`SearchEntriesDB` keeps entries in a Berkeley DB file, under their digests, and
remembers in `timestamps` when each was inserted.  The database is a parameter:
its calls may fail, and the program acts on their return codes.  The key of a record is
handed to `put` as a pointer into a hash that is destroyed by then, so what `put` reads
there is a parameter as well.

`doSearch` copies a record into a buffer and reads an entry from it without going
back to the front, so what it makes of the record comes from the memory behind it.

## Main definitions

* `BerkeleyDB` — the calls of the database.
* `Surroundings` — the clock and the memory that an operation meets, and the key that is
  read from a hash that is gone.
* `SearchEntriesDB.insertResult`, `SearchEntriesDB.doSearch`.
* `SearchEntriesDB.found` — what `doSearch` finds.
* `SearchEntriesDB.Accepts` — the entries that do not make `insertResult` throw.

## Main results

* `post_insertResult_iff` — `insertResult` throws exactly for the others.
* `post_doSearch` — `doSearch` does not throw.
-/

namespace SniffDogSniff

open StringUtil SdsBytesBuf

def UNIX_DAY : ℤ := 86400

def MINIMUM_SIMHASH_DISTANCE : ℕ := 48

/-- The database: its contents and its calls, with their return codes. -/
structure BerkeleyDB where
  State : Type
  /-- `put` of data under a key. -/
  put : State → Bytes → Bytes → State × ℤ
  /-- A cursor that walks over all records: the code with which it does not open,
  or the keys and data that it delivers. -/
  cursor : State → Except ℤ (List (Bytes × Bytes))
  /-- `db_strerror`. -/
  strerror : ℤ → String

/-- A database in memory, which takes everything. -/
def BerkeleyDB.inMemory : BerkeleyDB where
  State := List (Bytes × Bytes)
  put st key data := (st.filter (fun r => r.1 ≠ key) ++ [(key, data)], 0)
  cursor st := .ok st
  strerror _ := ""

/-- What an operation on the store meets. -/
structure Surroundings where
  /-- The clock when `insertResult` notes the time. -/
  now : Int64
  /-- The clock when `modified` compares the times. -/
  later : Int64
  /-- The memory behind the copy of the `i`-th record. -/
  heap : ℕ → ℕ → UInt8
  /-- What `put` reads through the pointer into the hash that `getHash` has returned by
  value, which is destroyed when `put` is called: a key, or nothing that is defined. -/
  key : Option Bytes

/-- The clock at zero, in front of zeroed memory. -/
def Surroundings.zero : Surroundings :=
  ⟨0, 0, fun _ _ => 0, some (List.replicate SHA256_DIGEST_LENGTH 0)⟩

/-- The same with another key. -/
def Surroundings.withKey (env : Surroundings) (key : Option Bytes) : Surroundings :=
  { env with key }

section

variable [Hashing]

structure SearchEntriesDB (db : BerkeleyDB) where
  timestamps : OrdMap SearchEntry.hashOrder Int64
  /-- `dbp`, when it is not null. -/
  dbp : Option db.State

namespace SearchEntriesDB

variable {db : BerkeleyDB} {ε : Type}

/-- `modified`.  At the first entry of a day's age, the loop deletes the record,
erases the entry and goes on with the iterator to it. -/
def modified (now : Int64) : Prog ε (SearchEntriesDB db) Unit := do
  let s ← Prog.get
  if s.timestamps.entries.any fun e => decide (UNIX_DAY ≤ now.toInt - e.2.toInt) then
    Prog.undefined
  else
    pure ()

/-- `insertResult`. -/
def insertResult (env : Surroundings) (se : SearchEntry) : Prog ε (SearchEntriesDB db) Unit := do
  let s ← Prog.get
  match s.dbp with
  | none => pure ()
  | some st =>
    if se.hasValidSize = false then
      Prog.throw s!"search entry exceeds size limit of {MAX_SEARCH_ENTRY_SIZE} bytes"
    else
      -- the time is noted before the record is put
      Prog.modify fun s => { s with timestamps := s.timestamps.set se.hash env.now }
      let buf ← Prog.ofOption (se.write (SdsBytesBuf.empty (env.heap 0))) Prog.stuck
      -- `key.data` points into a temporary
      let key ← Prog.ofOption env.key Prog.undefined
      let dberr := (db.put st key buf.bytes).2
      Prog.modify fun s => { s with dbp := some (db.put st key buf.bytes).1 }
      if dberr ≠ 0 then
        Prog.throw s!"insert result fail database error: {db.strerror dberr}"
      else
        modified env.later

/-- The entry that is read from a record. -/
def readRecord (heap : ℕ → UInt8) (data : Bytes) : Option SearchEntry :=
  (SdsBytesBuf.ofBytes heap data).map fun buf => SearchEntry.default.read.value buf

/-- `doSearch`: the entries that it appends. -/
def doSearch (env : Surroundings) (query : Bytes) :
    Prog ε (SearchEntriesDB db) (List SearchEntry) := do
  let s ← Prog.get
  match s.dbp with
  | none => Prog.undefined
  | some st =>
    match db.cursor st with
    | .error _ => pure []
    | .ok records =>
      let queryTokens := tokenize query wordDelims wordCutset
      let queryHash := SimHash.init queryTokens
      let entries ← Prog.ofOption
        (records.zipIdx.mapM fun r => readRecord (env.heap r.2) r.1.2) Prog.stuck
      pure (entries.filter fun se =>
        decide (se.simHash.distance queryHash < MINIMUM_SIMHASH_DISTANCE) &&
          se.matchesQuery queryTokens)

/-! ### Ends -/

/-- The entry fits, and the database takes it under the key that it reads; nothing is asked
without a database. -/
def Accepts (s : SearchEntriesDB db) (env : Surroundings) (se : SearchEntry) : Prop :=
  ∀ st, s.dbp = some st →
    se.hasValidSize = true ∧ ∀ key ∈ env.key, (db.put st key se.encode).2 = 0

theorem accepts_iff {s : SearchEntriesDB db} {st : db.State} (h : s.dbp = some st)
    (env : Surroundings) (se : SearchEntry) :
    s.Accepts env se ↔
      se.hasValidSize = true ∧ ∀ key ∈ env.key, (db.put st key se.encode).2 = 0 := by
  simp [Accepts, h]

omit [Hashing] in
theorem post_modified (now : Int64) (s : SearchEntriesDB db) (E : SearchEntriesDB db → Prop) :
    Prog.Post (modified now : Prog ε _ _) s (fun _ _ => True) E := by
  rw [modified, Prog.post_bind, Prog.post_get]
  split
  · exact Prog.post_undefined.mpr trivial
  · exact (Prog.post_pure ()).mpr trivial

/-- The bytes of an entry, in a buffer. -/
theorem exists_write (se : SearchEntry) (mem : ℕ → UInt8) :
    ∃ buf, se.write (SdsBytesBuf.empty mem) = some buf ∧ buf.bytes = se.encode := by
  obtain ⟨buf, hwrite, -, hbytes⟩ := se.writes_write _ (atEnd_empty mem)
  exact ⟨buf, hwrite, hbytes⟩

/-- **`insertResult` throws exactly where the store does not accept the entry.** -/
theorem post_insertResult_iff (env : Surroundings) (se : SearchEntry) (s : SearchEntriesDB db) :
    Prog.Post (insertResult env se : Prog ε _ _) s (fun _ _ => True) (fun _ => False) ↔
      s.Accepts env se := by
  rw [insertResult, Prog.post_bind, Prog.post_get]
  cases hdbp : s.dbp with
  | none =>
    refine iff_of_true trivial ?_
    intro st hst
    rw [hdbp] at hst
    cases hst
  | some st =>
    rw [accepts_iff hdbp]
    simp only
    by_cases hsize : se.hasValidSize = false
    · rw [if_pos hsize]
      simp [hsize]
    · obtain ⟨buf, hwrite, hbytes⟩ := exists_write se (env.heap 0)
      have hvalid : se.hasValidSize = true := by simpa using hsize
      rw [if_neg hsize]
      simp only [Prog.post_bind, Prog.post_modify, hwrite, Prog.ofOption, Prog.post_pure, hbytes]
      cases env.key with
      | none =>
        exact iff_of_true (Prog.post_undefined.mpr trivial)
          ⟨hvalid, fun _ hkey => absurd hkey (Option.not_mem_none _)⟩
      | some key =>
        simp only [Prog.post_pure, Option.mem_some_iff, forall_eq']
        by_cases herr : (db.put st key se.encode).2 ≠ 0
        · rw [if_pos herr]
          exact iff_of_false id fun h => herr h.2
        · rw [if_neg herr]
          exact iff_of_true (post_modified _ _ _) ⟨hvalid, not_not.mp herr⟩

theorem exists_readRecords (heap : ℕ → ℕ → UInt8) (records : List ((Bytes × Bytes) × ℕ)) :
    ∃ entries, records.mapM (fun r => readRecord (heap r.2) r.1.2) = some entries := by
  apply Prog.exists_mapM
  intro r
  obtain ⟨buf, hbuf⟩ := exists_ofBytes (heap r.2) r.1.2
  exact ⟨_, congrArg (Option.map _) hbuf⟩

/-- The entries that `doSearch` returns, none where it does not return. -/
def found (sur : Surroundings) (query : Bytes) (s : SearchEntriesDB db) : List SearchEntry :=
  match (doSearch sur query : Prog Empty _ _) s with
  | (_, .returned entries _) => entries
  | _ => []

/-- With an open database, `doSearch` returns, whatever the events of its caller are. -/
theorem doSearch_eq_found (sur : Surroundings) (query : Bytes) {s : SearchEntriesDB db}
    (hdbp : s.dbp ≠ none) :
    (doSearch sur query : Prog ε _ _) s = ([], .returned (s.found sur query) s) := by
  rw [found, doSearch, doSearch, Prog.get_bind, Prog.get_bind]
  cases hst : s.dbp with
  | none => exact absurd hst hdbp
  | some st =>
    cases hcursor : db.cursor st with
    | error code =>
      simp only [hcursor]
      rfl
    | ok records =>
      obtain ⟨entries, hentries⟩ := exists_readRecords sur.heap records.zipIdx
      simp only [hcursor, hentries]
      rfl

/-- Without one, it does what is not defined. -/
theorem doSearch_of_none (env : Surroundings) (query : Bytes) {s : SearchEntriesDB db}
    (hdbp : s.dbp = none) : (doSearch env query : Prog ε _ _) s = ([], .undefined) := by
  rw [doSearch, Prog.get_bind, hdbp]
  rfl

theorem found_of_none (sur : Surroundings) (query : Bytes) {s : SearchEntriesDB db}
    (hdbp : s.dbp = none) : s.found sur query = [] := by
  rw [found, doSearch_of_none sur query hdbp]

/-- **`doSearch` does not throw.** -/
theorem post_doSearch (env : Surroundings) (query : Bytes) (s : SearchEntriesDB db) :
    Prog.Post (doSearch env query : Prog ε _ _) s (fun _ s' => s' = s) (fun _ => False) := by
  rw [Prog.Post, Prog.outcome]
  by_cases hdbp : s.dbp = none
  · rw [doSearch_of_none env query hdbp]
    trivial
  · rw [doSearch_eq_found env query hdbp]

/-! ### Events -/

omit [Hashing] in
theorem silent_modified (now : Int64) :
    Prog.Silent (modified now : Prog ε (SearchEntriesDB db) Unit) := by
  refine Prog.notes_get.bind fun s => ?_
  split
  · exact Prog.notes_undefined
  · exact Prog.notes_pure ()

theorem silent_insertResult (env : Surroundings) (se : SearchEntry) :
    Prog.Silent (insertResult env se : Prog ε (SearchEntriesDB db) Unit) := by
  refine Prog.notes_get.bind fun s => ?_
  cases s.dbp with
  | none => exact Prog.notes_pure ()
  | some st =>
    dsimp only
    split
    · exact Prog.notes_throw _
    refine (Prog.notes_modify _).bind fun _ => ?_
    refine (Prog.notes_ofOption _ Prog.notes_stuck).bind fun buf => ?_
    refine (Prog.notes_ofOption _ Prog.notes_undefined).bind fun key => ?_
    refine (Prog.notes_modify _).bind fun _ => ?_
    split
    · exact Prog.notes_throw _
    · exact silent_modified _

theorem silent_doSearch (env : Surroundings) (query : Bytes) :
    Prog.Silent (doSearch env query : Prog ε (SearchEntriesDB db) _) := by
  refine Prog.notes_get.bind fun s => ?_
  cases s.dbp with
  | none => exact Prog.notes_undefined
  | some st =>
    dsimp only
    split
    · exact Prog.notes_pure _
    · exact (Prog.notes_ofOption _ Prog.notes_stuck).bind fun _ => Prog.notes_pure _

end SearchEntriesDB

end

end SniffDogSniff
