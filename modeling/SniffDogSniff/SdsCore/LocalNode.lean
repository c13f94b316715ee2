import SniffDogSniff.Kademlia.ClosestTo
import SniffDogSniff.P2P.P2PCommon
import SniffDogSniff.SdsCore.SearchEntriesDB

/-!
# The local node

`LocalNode` owns the routing table and the store, under one mutex.  Its operations
lock, work and unlock; none of them unlocks on the way of an exception, so an
exception from the work leaves the mutex locked.

`ping` leaves its work to a detached thread, which asks the new node for an answer
of its own and then enters it into the table.

## Main definitions

* `LocalNode`, with the mutex and the detached threads.
* `LocalNode.ping`, `findNode`, `storeResult`, `findResults`.
* `LocalNode.pingThread` — what a detached thread does under the mutex.
* `LocalNode.Free` — nobody holds the mutex.

## Main results

* `free_findNode`, `free_findResults` — these end with the mutex free.
* `free_storeResult_iff` — `storeResult` does exactly where the store accepts the
  entry.
-/

namespace SniffDogSniff

open SdsBytesBuf

/-- How many nodes are asked at the same time. -/
def ALPHA : ℕ := 3

/-- `LocalNode`. -/
structure LocalNode (db : BerkeleyDB) where
  /-- Somebody holds the mutex. -/
  mutex : Bool
  ktable : KadRoutingTable
  searchesDB : SearchEntriesDB db
  /-- The nodes whose detached threads are on their way. -/
  detached : List KadNode

namespace LocalNode

variable {db : BerkeleyDB} {ε : Type}

/-- Nobody holds the mutex. -/
def Free (n : LocalNode db) : Prop := n.mutex = false

/-- `lock`. -/
def lock : Prog ε (LocalNode db) Unit := do
  let n ← Prog.get
  if n.mutex then Prog.stuck else Prog.modify fun n => { n with mutex := true }

/-- `unlock`. -/
def unlock : Prog ε (LocalNode db) Unit := Prog.modify fun n => { n with mutex := false }

/-- An operation of the store. -/
def onSearchesDB {α : Type} (m : Prog ε (SearchEntriesDB db) α) : Prog ε (LocalNode db) α :=
  Prog.zoom LocalNode.searchesDB (fun s n => { n with searchesDB := s }) m

/-- The map that `findKClosestTo` fills. -/
def nearestOf (nodes : List KadNode) : NearestMap :=
  nodes.foldl (fun nearest kn => nearest.set kn.id kn.address) ∅

/-- `findKClosestTo`. -/
def findKClosestTo (std : StdSort) (id : KadId) : Prog ε (LocalNode db) NearestMap := do
  let n ← Prog.get
  pure (nearestOf (n.ktable.getKClosestTo std id))

/-- `ping`: a ping by the own id is fatal, any other one starts a thread. -/
def ping (id : KadId) (address : Bytes) : Prog ε (LocalNode db) ℤ := do
  let n ← Prog.get
  if n.ktable.selfNode.id = id then Prog.abort
  else
    Prog.modify fun n => { n with detached := n.detached ++ [KadNode.new id address] }
    pure 0

/-- The `i`-th detached thread: it drops a node that is known, or that does not
answer, and enters any other one. -/
def pingThread (std : StdSort) (i : ℕ) (answers : Bool) (now : Int64) :
    Prog ε (LocalNode db) Unit := do
  let n ← Prog.get
  match n.detached[i]? with
  | none => pure ()
  | some kn =>
    Prog.modify fun n => { n with detached := n.detached.eraseIdx i }
    if n.ktable.hasNode kn || !answers then pure ()
    else
      lock
      Prog.modify fun n => { n with ktable := (n.ktable.pushNode std now kn).1 }
      unlock

def findNode (std : StdSort) (id : KadId) : Prog ε (LocalNode db) NearestMap := do
  lock
  let nearest ← findKClosestTo std id
  unlock
  pure nearest

section

variable [Hashing]

def storeResult (env : Surroundings) (se : SearchEntry) : Prog ε (LocalNode db) ℤ := do
  lock
  onSearchesDB (SearchEntriesDB.insertResult env se)
  unlock
  pure 0

/-- `findResults`: the nearest nodes, and the entries. -/
def findResults (std : StdSort) (env : Surroundings) (query : Bytes) :
    Prog ε (LocalNode db) (NearestMap × List SearchEntry) := do
  lock
  let results ← onSearchesDB (SearchEntriesDB.doSearch env query)
  if results.isEmpty then
    let nearest ← findKClosestTo std (SimHash.ofString query).id
    unlock
    pure (nearest, results)
  else
    unlock
    pure (∅, results)

end

/-! ### The mutex -/

/-- A free mutex is taken. -/
theorem post_lock {n : LocalNode db} (hfree : n.Free) {R : Unit → LocalNode db → Prop}
    {E : LocalNode db → Prop} :
    Prog.Post (lock : Prog ε _ _) n R E ↔ R () { n with mutex := true } := by
  have hmutex : n.mutex = false := hfree
  rw [lock, Prog.post_bind, Prog.post_get, if_neg (by simp [hmutex]), Prog.post_modify]

/-- `lock` comes to an end where the mutex is free. -/
theorem ends_lock {n : LocalNode db} {R : Unit → LocalNode db → Prop}
    {E : LocalNode db → Prop} :
    Prog.Ends (lock : Prog ε _ _) n R E ↔ n.Free ∧ R () { n with mutex := true } := by
  rw [lock, Prog.ends_bind, Prog.ends_get, Free]
  cases n.mutex with
  | true => exact iff_of_false id fun h => Bool.noConfusion h.1
  | false => exact ⟨fun h => ⟨rfl, h⟩, fun h => h.2⟩

/-- Whoever gets the mutex has found it free. -/
theorem returns_lock {n : LocalNode db} {R : Unit → LocalNode db → Prop}
    (h : R () { n with mutex := true }) : Prog.Returns (lock : Prog ε _ _) n R := by
  rw [lock, Prog.returns_bind, Prog.returns_get]
  split
  · exact Prog.returns_stuck
  · exact h

theorem free_findNode (std : StdSort) (id : KadId) {n : LocalNode db} (hfree : n.Free) :
    Prog.PostState (findNode std id : Prog ε _ _) n Free := by
  rw [findNode, Prog.PostState, Prog.post_bind, post_lock hfree]
  exact rfl

theorem free_pingThread (std : StdSort) (i : ℕ) (answers : Bool) (now : Int64)
    {n : LocalNode db} (hfree : n.Free) :
    Prog.PostState (pingThread std i answers now : Prog ε _ _) n Free := by
  rw [pingThread, Prog.PostState, Prog.post_bind, Prog.post_get]
  cases n.detached[i]? with
  | none => exact hfree
  | some kn =>
    simp only [Prog.post_bind, Prog.post_modify]
    split
    · exact hfree
    · have hfree' : Free { n with detached := n.detached.eraseIdx i } := hfree
      rw [Prog.post_bind, post_lock hfree']
      exact rfl

theorem free_ping (id : KadId) (address : Bytes) {n : LocalNode db} (hfree : n.Free) :
    Prog.PostState (ping id address : Prog ε _ _) n Free := by
  rw [ping, Prog.PostState, Prog.post_bind, Prog.post_get]
  split
  · exact Prog.post_abort.mpr trivial
  · exact hfree

section

variable [Hashing]

theorem free_findResults (std : StdSort) (env : Surroundings) (query : Bytes) {n : LocalNode db}
    (hfree : n.Free) : Prog.PostState (findResults std env query : Prog ε _ _) n Free := by
  rw [findResults, Prog.PostState, Prog.post_bind, post_lock hfree, Prog.post_bind, onSearchesDB,
    Prog.post_zoom]
  refine (SearchEntriesDB.post_doSearch env query _).mono ?_ fun _ h => h.elim
  intro results s _
  split
  · exact rfl
  · exact rfl

/-- **`storeResult` ends with the mutex free exactly where the store accepts the
entry.** -/
theorem free_storeResult_iff (env : Surroundings) (se : SearchEntry) {n : LocalNode db}
    (hfree : n.Free) :
    Prog.PostState (storeResult env se : Prog ε _ _) n Free ↔ n.searchesDB.Accepts env se := by
  rw [storeResult, Prog.PostState, Prog.post_bind, post_lock hfree, Prog.post_bind, onSearchesDB,
    Prog.post_zoom, ← SearchEntriesDB.post_insertResult_iff (ε := ε) env se]
  constructor
  · intro h
    refine h.mono (fun _ _ _ => trivial) ?_
    intro s hs
    exact Bool.noConfusion hs
  · intro h
    refine h.mono (fun _ s _ => rfl) ?_
    exact fun _ h => h.elim

end

/-! ### Events -/

theorem silent_lock : Prog.Silent (lock : Prog ε (LocalNode db) Unit) := by
  refine Prog.notes_get.bind fun n => ?_
  split
  · exact Prog.notes_stuck
  · exact Prog.notes_modify _

theorem silent_ping (id : KadId) (address : Bytes) :
    Prog.Silent (ping id address : Prog ε (LocalNode db) ℤ) := by
  refine Prog.notes_get.bind fun n => ?_
  split
  · exact Prog.notes_abort
  · exact (Prog.notes_modify _).bind fun _ => Prog.notes_pure 0

theorem silent_storeResult [Hashing] (env : Surroundings) (se : SearchEntry) :
    Prog.Silent (storeResult env se : Prog ε (LocalNode db) ℤ) := by
  refine silent_lock.bind fun _ => ?_
  refine (SearchEntriesDB.silent_insertResult env se).zoom.bind fun _ => ?_
  exact (Prog.notes_modify _).bind fun _ => Prog.notes_pure 0

theorem silent_findNode (std : StdSort) (id : KadId) :
    Prog.Silent (findNode std id : Prog ε (LocalNode db) NearestMap) := by
  refine silent_lock.bind fun _ => Prog.Notes.bind ?_ fun _ => ?_
  · exact Prog.notes_get.bind fun _ => Prog.notes_pure _
  · exact (Prog.notes_modify _).bind fun _ => Prog.notes_pure _

theorem silent_findResults [Hashing] (std : StdSort) (env : Surroundings) (query : Bytes) :
    Prog.Silent (findResults std env query : Prog ε (LocalNode db) _) := by
  refine silent_lock.bind fun _ => ?_
  refine (SearchEntriesDB.silent_doSearch env query).zoom.bind fun results => ?_
  split
  · refine Prog.Notes.bind (Prog.notes_get.bind fun _ => Prog.notes_pure _) fun _ => ?_
    exact (Prog.notes_modify _).bind fun _ => Prog.notes_pure _
  · exact (Prog.notes_modify _).bind fun _ => Prog.notes_pure _

/-- The nodes that `findNode` hands out, while nobody holds the mutex. -/
theorem findNode_of_free (std : StdSort) (id : KadId) {n : LocalNode db} (hfree : n.Free) :
    (findNode std id : Prog ε (LocalNode db) NearestMap) n =
      ([], .returned (nearestOf (n.ktable.getKClosestTo std id)) n) := by
  obtain ⟨mutex, ktable, searchesDB, detached⟩ := n
  have hmutex : mutex = false := hfree
  subst hmutex
  rfl

/-- It waits where somebody does. -/
theorem findNode_of_not_free (std : StdSort) (id : KadId) {n : LocalNode db} (h : ¬ n.Free) :
    (findNode std id : Prog ε (LocalNode db) NearestMap) n = ([], .stuck) := by
  obtain ⟨mutex, ktable, searchesDB, detached⟩ := n
  have hmutex : mutex = true := by simpa [Free] using h
  subst hmutex
  rfl

end LocalNode

end SniffDogSniff
