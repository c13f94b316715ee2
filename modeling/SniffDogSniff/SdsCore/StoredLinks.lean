import SniffDogSniff.SdsCore.StoreRuns

/-!
# Links and titles

The key of an entry is meant to be the digest of its url, and is that of its title, as far as
`put` still finds it where the pointer leads.  There, what is in the database under a key after
some calls of `insertResult` is the entry that was put last with this title, so a page is lost
to a later one with the same title.  What else may be read loses any of two pages.

## Main definitions

* `SearchEntriesDB.lastPut` — the entry that was put last under a key.
* `SearchEntriesDB.Present` — the link of an entry is in the database, under its key.
* `SearchEntriesDB.KeepsLinks` — of two entries with different urls, both are present.
* `SearchEntriesDB.SameCalls` — calls that differ in what is read as the keys.

## Main results

* `record_run_insertions` — what is in the database after some calls.
* `keepsLinks_iff` — **no link is lost, whatever is read as the keys, exactly where there is one
  url; with the digests as keys, exactly where no title comes with two urls.**
-/

namespace SniffDogSniff

section

variable [Hashing]

namespace SearchEntriesDB

/-- The entry that is put last under a key. -/
def lastPut (entries : List SearchEntry) (key : Bytes) : Option SearchEntry :=
  entries.reverse.find? fun se => decide (se.hash = key)

theorem lastPut_cons (se : SearchEntry) (entries : List SearchEntry) (key : Bytes) :
    lastPut (se :: entries) key =
      (lastPut entries key).or (if se.hash = key then some se else none) := by
  rw [lastPut, List.reverse_cons, List.find?_append, lastPut]
  congr 1
  split
  · next h => simp [h]
  · next h => simp [h]

/-- Something is put under the key of an entry that is put. -/
theorem exists_lastPut {entries : List SearchEntry} {se : SearchEntry} (hse : se ∈ entries) :
    ∃ se' ∈ entries, lastPut entries se.hash = some se' ∧ se'.hash = se.hash := by
  have hsome : (lastPut entries se.hash).isSome = true :=
    List.find?_isSome.mpr ⟨se, List.mem_reverse.mpr hse, decide_eq_true rfl⟩
  obtain ⟨se', hse'⟩ := Option.isSome_iff_exists.mp hsome
  refine ⟨se', ?_, hse', by simpa using List.find?_some hse'⟩
  exact List.mem_reverse.mp (List.mem_of_find?_eq_some hse')

/-- The calls of `insertResult` for some entries. -/
def insertions (calls : List (Surroundings × SearchEntry)) : List StoreEvent :=
  calls.map fun c => .insert c.1 c.2

/-- The same calls; something else may be read as the keys of the records. -/
def SameCalls (calls calls' : List (Surroundings × SearchEntry)) : Prop :=
  List.Forall₂ (fun c c' => ∃ key, c' = (c.1.withKey key, c.2)) calls calls'

theorem SameCalls.entries_eq {calls calls' : List (Surroundings × SearchEntry)}
    (h : SameCalls calls calls') : calls'.map Prod.snd = calls.map Prod.snd := by
  induction h with
  | nil => rfl
  | cons hc _ ih =>
    obtain ⟨key, rfl⟩ := hc
    rw [List.map_cons, List.map_cons, ih]

/-- Nothing that is defined is read. -/
theorem sameCalls_none (calls : List (Surroundings × SearchEntry)) :
    SameCalls calls (calls.map fun c => (c.1.withKey none, c.2)) := by
  induction calls with
  | nil => exact .nil
  | cons c calls ih => exact .cons ⟨none, rfl⟩ ih

/-- Every record is put under the digest of its entry. -/
def UnderDigests (calls : List (Surroundings × SearchEntry)) : Prop :=
  ∀ c ∈ calls, c.1.key = some c.2.hash

variable {db : ReliableDB}

/-- Nothing is of a day's age when an entry has been put. -/
def StaysYoung {db : BerkeleyDB} : StoreState db → StoreEvent → Prop
  | .running s, .insert env se => Young env.later (s.timestamps.set se.hash env.now)
  | _, _ => True

theorem run_gone (events : List StoreEvent) :
    Runs.run (step db.toLookupDB) .gone events = .gone := by
  induction events with
  | nil => rfl
  | cons e events ih => exact ih

/-- Nothing is asked of what is not defined. -/
theorem along_gone (events : List StoreEvent) :
    Runs.Along (step db.toLookupDB) StaysYoung .gone events := by
  induction events with
  | nil => trivial
  | cons e events ih => exact ⟨trivial, ih⟩

/-- **So it is within a day** from `t` on. -/
theorem along_staysYoung {t : ℤ} (calls : List (Surroundings × SearchEntry))
    {timestamps : OrdMap SearchEntry.hashOrder Int64} {st : db.State}
    (htimes : ∀ e ∈ timestamps.entries, t ≤ e.2.toInt)
    (hday : ∀ c ∈ calls, t ≤ c.1.now.toInt ∧ c.1.later.toInt - t < UNIX_DAY) :
    Runs.Along (step db.toLookupDB) StaysYoung (.running ⟨timestamps, some st⟩)
      (insertions calls) := by
  induction calls generalizing timestamps st with
  | nil => trivial
  | cons c calls ih =>
    obtain ⟨hnow, hlater⟩ := hday c List.mem_cons_self
    have hday' := fun c' hc' => hday c' (List.mem_cons_of_mem c hc')
    have htimes' : ∀ e ∈ (timestamps.set c.2.hash c.1.now).entries, t ≤ e.2.toInt := by
      intro e he
      rcases OrdMap.mem_of_mem_set he with ⟨-, hvalue⟩ | ⟨hold, -⟩
      · rwa [hvalue]
      · exact htimes e hold
    have hyoung : Young c.1.later (timestamps.set c.2.hash c.1.now) := by
      intro e he
      have hle := htimes' e he
      omega
    refine ⟨hyoung, ?_⟩
    cases hvalid : c.2.hasValidSize with
    | false =>
      rw [step_insert_of_not_valid _ hvalid]
      exact ih htimes hday'
    | true =>
      cases hkey : c.1.key with
      | none =>
        rw [step_insert_of_no_key hkey hvalid]
        exact along_gone _
      | some key =>
        rw [step_insert_of_key hkey hvalid, if_pos hyoung]
        exact ih htimes' hday'

/-- **What is in the database after some calls**, while nothing is of a day's age. -/
theorem record_run_insertions (calls : List (Surroundings × SearchEntry))
    {timestamps : OrdMap SearchEntry.hashOrder Int64} {st : db.State}
    (hvalid : ∀ c ∈ calls, c.2.hasValidSize = true) (hkeys : UnderDigests calls)
    (hyoung : Runs.Along (step db.toLookupDB) StaysYoung (.running ⟨timestamps, some st⟩)
      (insertions calls)) :
    ∃ timestamps' st', Runs.run (step db.toLookupDB) (.running ⟨timestamps, some st⟩)
        (insertions calls) = .running ⟨timestamps', some st'⟩ ∧
      ∀ key, db.record st' key =
        ((lastPut (calls.map Prod.snd) key).map SearchEntry.encode).or (db.record st key) := by
  induction calls generalizing timestamps st with
  | nil => exact ⟨timestamps, st, rfl, fun key => rfl⟩
  | cons c calls ih =>
    have hfirst : Young c.1.later (timestamps.set c.2.hash c.1.now) := hyoung.1
    have hrest : Runs.Along (step db.toLookupDB) StaysYoung (step db.toLookupDB
        (.running ⟨timestamps, some st⟩) (.insert c.1 c.2)) (insertions calls) := hyoung.2
    have hstep := step_insert_of_key (hkeys c List.mem_cons_self) (hvalid c List.mem_cons_self)
      timestamps st
    rw [if_pos hfirst] at hstep
    rw [hstep] at hrest
    obtain ⟨timestamps', st', hrun, hrecord⟩ :=
      ih (fun c' hc' => hvalid c' (List.mem_cons_of_mem _ hc'))
        (fun c' hc' => hkeys c' (List.mem_cons_of_mem _ hc')) hrest
    refine ⟨timestamps', st', ?_, fun key => ?_⟩
    · rw [insertions, List.map_cons, Runs.run_cons, hstep]
      exact hrun
    · rw [hrecord key, List.map_cons, lastPut_cons, db.record_put, Function.update_apply]
      cases lastPut (calls.map Prod.snd) key with
      | some se => rfl
      | none =>
        by_cases hkey : c.2.hash = key
        · rw [if_pos hkey, if_pos hkey.symm]
          rfl
        · rw [if_neg hkey, if_neg (Ne.symm hkey)]
          rfl

/-- Once something is, nothing is defined any more. -/
theorem run_insertions_of_not_young (calls : List (Surroundings × SearchEntry))
    {timestamps : OrdMap SearchEntry.hashOrder Int64} {st : db.State}
    (hvalid : ∀ c ∈ calls, c.2.hasValidSize = true) (hkeys : UnderDigests calls)
    (hold : ¬ Runs.Along (step db.toLookupDB) StaysYoung (.running ⟨timestamps, some st⟩)
      (insertions calls)) :
    Runs.run (step db.toLookupDB) (.running ⟨timestamps, some st⟩) (insertions calls) = .gone := by
  induction calls generalizing timestamps st with
  | nil => exact absurd trivial hold
  | cons c calls ih =>
    have hstep := step_insert_of_key (hkeys c List.mem_cons_self) (hvalid c List.mem_cons_self)
      timestamps st
    rw [insertions, List.map_cons, Runs.run_cons, hstep]
    by_cases hyoung : Young c.1.later (timestamps.set c.2.hash c.1.now)
    · rw [if_pos hyoung] at hstep ⊢
      refine ih (fun c' hc' => hvalid c' (List.mem_cons_of_mem _ hc'))
        (fun c' hc' => hkeys c' (List.mem_cons_of_mem _ hc')) fun hrest => hold ?_
      exact ⟨hyoung, hstep ▸ hrest⟩
    · rw [if_neg hyoung]
      exact run_gone _

/-- So it is where something is put and what is read as its key is not defined. -/
theorem run_insertions_of_no_keys {calls : List (Surroundings × SearchEntry)} (hne : calls ≠ [])
    (timestamps : OrdMap SearchEntry.hashOrder Int64) (st : db.State)
    (hvalid : ∀ c ∈ calls, c.2.hasValidSize = true) (hkeys : ∀ c ∈ calls, c.1.key = none) :
    Runs.run (step db.toLookupDB) (.running ⟨timestamps, some st⟩) (insertions calls) = .gone := by
  cases calls with
  | nil => exact absurd rfl hne
  | cons c calls =>
    rw [insertions, List.map_cons, Runs.run_cons, step_insert_of_no_key
      (hkeys c List.mem_cons_self) (hvalid c List.mem_cons_self)]
    exact run_gone _

/-! ### Links -/

/-- The record under the key of an entry is that of the entry that was put there last, and
it has the same url. -/
def Present (db : ReliableDB) (s : StoreState db.toBerkeleyDB) (entries : List SearchEntry)
    (se : SearchEntry) : Prop :=
  ∃ s' st se', s = .running s' ∧ s'.dbp = some st ∧ lastPut entries se.hash = some se' ∧
    db.record st se.hash = some se'.encode ∧ se'.url = se.url

/-- Of two entries with different urls, both are present after the calls. -/
def KeepsLinks (db : ReliableDB) (s : StoreState db.toBerkeleyDB)
    (calls : List (Surroundings × SearchEntry)) : Prop :=
  ∀ se ∈ calls.map Prod.snd, ∀ se' ∈ calls.map Prod.snd, se.url ≠ se'.url →
    Present db (Runs.run (step db.toLookupDB) s (insertions calls)) (calls.map Prod.snd) se ∧
    Present db (Runs.run (step db.toLookupDB) s (insertions calls)) (calls.map Prod.snd) se'

/-- No title comes with two urls. -/
def OneUrlPerTitle (entries : List SearchEntry) : Prop :=
  ∀ se ∈ entries, ∀ se' ∈ entries, se.title = se'.title → se.url = se'.url

/-- Entries with equal titles have the same entry under their key, which has one url. -/
theorem oneUrlPerTitle_of_keepsLinks {s : StoreState db.toBerkeleyDB}
    {calls : List (Surroundings × SearchEntry)} (h : KeepsLinks db s calls) :
    OneUrlPerTitle (calls.map Prod.snd) := by
  intro se hse se' hse' htitle
  by_contra hne
  obtain ⟨⟨-, -, last, -, -, hlast, -, hurl⟩, -, -, last', -, -, hlast', -, hurl'⟩ :=
    h se hse se' hse' hne
  have hhash : se.hash = se'.hash := by rw [se.hash_eq, se'.hash_eq, htitle]
  obtain rfl : last = last' := Option.some.inj (hlast.symm.trans (hhash ▸ hlast'))
  exact hne (hurl.symm.trans hurl')

/-- **With the digests as keys, no link is lost exactly where no title comes with two urls**,
and, if there are two urls at all, nothing that is in the store comes to a day's age. -/
theorem keepsLinks_underDigests_iff (timestamps : OrdMap SearchEntry.hashOrder Int64)
    (st : db.State)
    (calls : List (Surroundings × SearchEntry)) (hvalid : ∀ c ∈ calls, c.2.hasValidSize = true)
    (hkeys : UnderDigests calls)
    (hinj : Set.InjOn Hashing.sha256 {title | ∃ se ∈ calls.map Prod.snd, se.title = title}) :
    KeepsLinks db (.running ⟨timestamps, some st⟩) calls ↔
      OneUrlPerTitle (calls.map Prod.snd) ∧
        ((∃ se ∈ calls.map Prod.snd, ∃ se' ∈ calls.map Prod.snd, se.url ≠ se'.url) →
          Runs.Along (step db.toLookupDB) StaysYoung (.running ⟨timestamps, some st⟩)
            (insertions calls)) := by
  constructor
  · intro h
    refine ⟨oneUrlPerTitle_of_keepsLinks h, ?_⟩
    rintro ⟨se, hse, se', hse', hne⟩
    by_contra hold
    obtain ⟨⟨s', -, -, hrun, -⟩, -⟩ := h se hse se' hse' hne
    rw [run_insertions_of_not_young calls hvalid hkeys hold] at hrun
    cases hrun
  · rintro ⟨hone, hyoung⟩ se hse se' hse' hne
    obtain ⟨timestamps', st', hrun, hrecord⟩ :=
      record_run_insertions calls hvalid hkeys (hyoung ⟨se, hse, se', hse', hne⟩)
    have hpresent : ∀ x ∈ calls.map Prod.snd, Present db
        (Runs.run (step db.toLookupDB) (.running ⟨timestamps, some st⟩) (insertions calls))
        (calls.map Prod.snd) x := by
      intro x hx
      obtain ⟨last, hmem, hlast, hhash⟩ := exists_lastPut hx
      -- the digests are equal, so the titles are
      have htitle : last.title = x.title := by
        refine hinj ⟨last, hmem, rfl⟩ ⟨x, hx, rfl⟩ ?_
        rw [← last.hash_eq, ← x.hash_eq, hhash]
      refine ⟨_, st', last, hrun, rfl, hlast, ?_, hone last hmem x hx htitle⟩
      rw [hrecord, hlast]
      rfl
    exact ⟨hpresent se hse, hpresent se' hse'⟩

/-- **Whatever is read as the keys, no link is lost exactly where there is one url.** -/
theorem forall_keepsLinks_iff (timestamps : OrdMap SearchEntry.hashOrder Int64) (st : db.State)
    (calls : List (Surroundings × SearchEntry))
    (hvalid : ∀ c ∈ calls, c.2.hasValidSize = true) :
    (∀ calls', SameCalls calls calls' → KeepsLinks db (.running ⟨timestamps, some st⟩) calls') ↔
      ∀ se ∈ calls.map Prod.snd, ∀ se' ∈ calls.map Prod.snd, se.url = se'.url := by
  constructor
  · intro h se hse se' hse'
    by_contra hne
    have hsame := sameCalls_none calls
    have hkeeps := h _ hsame
    rw [KeepsLinks, hsame.entries_eq] at hkeeps
    obtain ⟨⟨s', -, -, hrun, -⟩, -⟩ := hkeeps se hse se' hse' hne
    rw [run_insertions_of_no_keys ?_ timestamps st ?_ ?_] at hrun
    · cases hrun
    · intro hnil
      rw [List.map_eq_nil_iff.mp hnil] at hse
      cases hse
    · intro c' hc'
      obtain ⟨c, hc, rfl⟩ := List.mem_map.mp hc'
      exact hvalid c hc
    · intro c' hc'
      obtain ⟨c, -, rfl⟩ := List.mem_map.mp hc'
      rfl
  · intro hone calls' hsame
    rw [KeepsLinks, hsame.entries_eq]
    exact fun se hse se' hse' hne => absurd (hone se hse se' hse') hne

/-- **No link is lost, whatever `put` reads as its keys, exactly where all entries have one url;
where it reads the digests, exactly where no title comes with two urls** and, if there are two at
all, nothing that is in the store comes to a day's age. -/
theorem keepsLinks_iff (timestamps : OrdMap SearchEntry.hashOrder Int64) (st : db.State)
    (calls : List (Surroundings × SearchEntry)) (hvalid : ∀ c ∈ calls, c.2.hasValidSize = true)
    (hinj : Set.InjOn Hashing.sha256 {title | ∃ se ∈ calls.map Prod.snd, se.title = title}) :
    ((∀ calls', SameCalls calls calls' → KeepsLinks db (.running ⟨timestamps, some st⟩) calls') ↔
      ∀ se ∈ calls.map Prod.snd, ∀ se' ∈ calls.map Prod.snd, se.url = se'.url) ∧
    (UnderDigests calls →
      (KeepsLinks db (.running ⟨timestamps, some st⟩) calls ↔
        OneUrlPerTitle (calls.map Prod.snd) ∧
          ((∃ se ∈ calls.map Prod.snd, ∃ se' ∈ calls.map Prod.snd, se.url ≠ se'.url) →
            Runs.Along (step db.toLookupDB) StaysYoung (.running ⟨timestamps, some st⟩)
              (insertions calls)))) := by
  constructor
  · exact forall_keepsLinks_iff timestamps st calls hvalid
  · exact fun hkeys => keepsLinks_underDigests_iff timestamps st calls hvalid hkeys hinj

end SearchEntriesDB

end

/-- Another page with the title "a". -/
def otherA : @SearchEntry Hashing.ofLetters :=
  letI := Hashing.ofLetters
  SearchEntry.ofFields ⟨KadId.ofNat 1⟩ [97] [121] .SITE ∅

/-- Entries are put one after the other, under their digests. -/
def underDigests [Hashing] (entries : List SearchEntry) : List (Surroundings × SearchEntry) :=
  entries.map fun se => (Surroundings.zero.withKey (some se.hash), se)

/-- The two pages. -/
def sameTitle : List (Surroundings × @SearchEntry Hashing.ofLetters) :=
  letI := Hashing.ofLetters
  underDigests [titledA, otherA]

/-- One of them is lost. -/
theorem SearchEntriesDB.sameTitle_not_keepsLinks :
    letI := Hashing.ofLetters
    ¬ KeepsLinks ReliableDB.inMap (opened LookupDB.inMap (fun _ => 0) OrdMap.empty) sameTitle :=
  letI := Hashing.ofLetters
  fun h => absurd (oneUrlPerTitle_of_keepsLinks h titledA (by decide) otherA (by decide) rfl)
    (by decide)

/-- A page with the title "b". -/
def titledB : @SearchEntry Hashing.ofLetters :=
  letI := Hashing.ofLetters
  SearchEntry.ofFields ⟨KadId.ofNat 2⟩ [98] [121] .SITE ∅

/-- Two pages with different titles. -/
def twoTitles : List (Surroundings × @SearchEntry Hashing.ofLetters) :=
  letI := Hashing.ofLetters
  underDigests [titledA, titledB]

theorem injOn_twoTitles : Set.InjOn Hashing.ofLetters.sha256
    {title | ∃ se ∈ twoTitles.map Prod.snd, @SearchEntry.title Hashing.ofLetters se = title} := by
  have hall : ∀ x ∈ twoTitles.map Prod.snd, ∀ y ∈ twoTitles.map Prod.snd,
      Hashing.ofLetters.sha256 (@SearchEntry.title Hashing.ofLetters x) =
        Hashing.ofLetters.sha256 (@SearchEntry.title Hashing.ofLetters y) →
      @SearchEntry.title Hashing.ofLetters x = @SearchEntry.title Hashing.ofLetters y := by decide
  rintro _ ⟨se, hse, rfl⟩ _ ⟨se', hse', rfl⟩ hhash
  exact hall se hse se' hse' hhash

/-- A new store takes both. -/
theorem SearchEntriesDB.keepsLinks_iff_twoTitles :
    letI := Hashing.ofLetters
    ((∀ calls', SameCalls twoTitles calls' →
        KeepsLinks ReliableDB.inMap (.running ⟨∅, some OrdMap.empty⟩) calls') ↔
      ∀ se ∈ twoTitles.map Prod.snd, ∀ se' ∈ twoTitles.map Prod.snd, se.url = se'.url) ∧
    (UnderDigests twoTitles →
      (KeepsLinks ReliableDB.inMap (.running ⟨∅, some OrdMap.empty⟩) twoTitles ↔
        OneUrlPerTitle (twoTitles.map Prod.snd) ∧
          ((∃ se ∈ twoTitles.map Prod.snd, ∃ se' ∈ twoTitles.map Prod.snd, se.url ≠ se'.url) →
            Runs.Along (step LookupDB.inMap) StaysYoung (.running ⟨∅, some OrdMap.empty⟩)
              (insertions twoTitles)))) :=
  letI := Hashing.ofLetters
  @keepsLinks_iff _ ReliableDB.inMap ∅ OrdMap.empty twoTitles (by decide) injOn_twoTitles

end SniffDogSniff
