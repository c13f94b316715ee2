import SniffDogSniff.Kademlia.CutFiles
import SniffDogSniff.Kademlia.HexId
import SniffDogSniff.P2P.TableChanges
import SniffDogSniff.SdsCore.ConfigLookups

/-!
# The lives of the nodes

A node saves its table when it is shut down, and reads it when it is started again.  What
is saved may be cut off by a full disk, and a process may end without saving anything.  The
peers of the configuration file are pushed into a table that could not be read to its end.

## Main definitions

* `KadRoutingTable.load`, `LocalNode.start` — the table and the node that a start makes.
* `LifeState`, `LifeEvent`, `LifeState.step` — the runs of a network whose nodes come and go.
* `LifeState.Sound` — the tables and the files are in order.

## Main results

* `inOrder_run` — **nobody is made up and no bound is broken through any number of lives.**
* `restart_run` — **what is saved is what the next lives begin with.**
* `selfId_run` — **a node keeps its id.**
-/

namespace SniffDogSniff

open TableFile

/-! ### Starts -/

/-- What a start of a node meets. -/
structure StartEnv where
  /-- The configuration file, as it was parsed. -/
  config : SdsConfigFile
  /-- `randomId`. -/
  freshId : KadId
  std : StdSort
  /-- The clock, as a peer is pushed. -/
  now : KadNode → Int64
  /-- The memory behind the ids of the peers. -/
  behind : Bytes

/-- A start without a configuration file. -/
def StartEnv.plain : StartEnv := ⟨SdsConfigFile.new, KadId.ofNat 3, StdSort.insertion, fun _ => 0, []⟩

/-- The peers of a configuration file. -/
def SdsConfigFile.peers (config : SdsConfigFile) : List (Bytes × Bytes) :=
  ((config.lookupSection (ascii "peers")).map (·.valuesList)).getD []

namespace KadRoutingTable

/-- Push the peers; `none` where the id of one is not read, which nobody catches, or is
written to the memory behind it. -/
def pushPeers (env : StartEnv) : List (Bytes × Bytes) → KadRoutingTable → Option KadRoutingTable
  | [], t => some t
  | p :: ps, t =>
      let call := KadId.fromHexString (CString.ofMemory p.1) env.behind
      if call.written.any fun i => decide (KAD_ID_LENGTH ≤ i) then none
      else
        match call.result with
        | .error _ => none
        | .ok id =>
            let kn := KadNode.new id p.2
            pushPeers env ps (t.pushNode env.std (env.now kn) kn).1

/-- The table that the constructor of `LocalNode` makes; `none` where reading the file
overruns a buffer, or the peers cannot be pushed. -/
def load (env : StartEnv) (file : Option Bytes) : Option KadRoutingTable :=
  match (init env.freshId).readFile file with
  | (_, none) => none
  | (t, some ret) => if ret = 0 then some t else pushPeers env env.config.peers t

/-! ### Tables that are loaded -/

variable {P : KadId → Bytes → Prop} {env : StartEnv} {t t' : KadRoutingTable}

/-- Every entry satisfies `P`. -/
def Within (P : KadId → Bytes → Prop) (t : KadRoutingTable) : Prop :=
  ∀ h, ∀ kn ∈ (t.buckets h).entries, P kn.id kn.address

/-- What a disk has of a table in order. -/
def SavedFrom (P : KadId → Bytes → Prop) (file : Bytes) : Prop :=
  ∃ t : KadRoutingTable, t.WellFormed ∧ t.Within P ∧ ∃ room, file = t.writes.flatten.take room

/-- **The peers are pushed**, one after the other. -/
theorem pushPeers_eq_run {ps : List (Bytes × Bytes)} (h : pushPeers env ps t = some t') :
    ∃ calls, t' = Runs.run (step env.std) t calls ∧ ∀ call ∈ calls, ∃ p ∈ ps, ∃ id,
      (KadId.fromHexString (CString.ofMemory p.1) env.behind).result = .ok id ∧
        call = .pushNode (env.now (KadNode.new id p.2)) (KadNode.new id p.2) := by
  induction ps generalizing t with
  | nil => exact ⟨[], (Option.some.inj h).symm, fun _ hmem => absurd hmem List.not_mem_nil⟩
  | cons p ps ih =>
    rw [pushPeers] at h
    dsimp only at h
    split at h
    · cases h
    · split at h
      · cases h
      · next id hid =>
        obtain ⟨calls, rfl, hcalls⟩ := ih h
        refine ⟨.pushNode (env.now (KadNode.new id p.2)) (KadNode.new id p.2) :: calls, rfl, ?_⟩
        rintro call hmem
        rcases List.mem_cons.mp hmem with rfl | hmem
        · exact ⟨p, List.mem_cons_self, id, hid, rfl⟩
        · obtain ⟨p', hp', hcall⟩ := hcalls call hmem
          exact ⟨p', List.mem_cons_of_mem _ hp', hcall⟩

theorem wellFormed_within_init (id : KadId) : (init id).WellFormed ∧ (init id).Within P :=
  ⟨wellFormed_init id, fun _ _ hkn => absurd hkn List.not_mem_nil⟩

section

variable (hP : ∀ id address, P id address → 0 ∉ address ∧ TableFile.Fits address)
include hP

theorem cleanString_of_fits : ∀ id address, P id address → SdsBytesBuf.CleanString address :=
  fun id address hmem => ⟨(hP id address hmem).2.1, (hP id address hmem).1⟩

theorem nulFree_addressesFit (ht : t.Within P) : t.NulFree ∧ t.AddressesFit :=
  ⟨fun h kn hkn => (hP _ _ (ht h kn hkn)).1, fun h kn hkn => (hP _ _ (ht h kn hkn)).2⟩

/-- **A file that was saved is read without overrunning the buffer**, and gives a table in
order. -/
theorem readFile_of_saved {file : Option Bytes} (hfile : ∀ bytes ∈ file, SavedFrom P bytes)
    (freshId : KadId) :
    ∃ t ret, (init freshId).readFile file = (t, some ret) ∧ t.WellFormed ∧ t.Within P := by
  cases file with
  | none => exact ⟨_, -1, rfl, wellFormed_within_init freshId⟩
  | some bytes =>
    obtain ⟨t, ht, hwithin, room, rfl⟩ := hfile bytes rfl
    obtain ⟨hnul, hfit⟩ := nulFree_addressesFit hP hwithin
    obtain ⟨t', ret, hread, hcut, -⟩ := readFile_take ht.1 hnul hfit freshId room
    exact ⟨t', ret, hread, hcut.wellFormed ht,
      fun h kn hkn => hwithin h kn ((hcut.buckets h).mem_entries hkn)⟩

/-- **A table that is loaded is in order.** -/
theorem inOrder_load {file : Option Bytes} (hfile : ∀ bytes ∈ file, SavedFrom P bytes)
    (hpeers : ∀ p ∈ env.config.peers, ∀ id,
      (KadId.fromHexString (CString.ofMemory p.1) env.behind).result = .ok id → P id p.2)
    (h : load env file = some t) : t.WellFormed ∧ t.Within P := by
  obtain ⟨t₀, ret, hread, ht₀, hwithin⟩ := readFile_of_saved hP hfile env.freshId
  rw [load, hread] at h
  dsimp only at h
  split at h
  · cases h
    exact ⟨ht₀, hwithin⟩
  · obtain ⟨calls, rfl, hcalls⟩ := pushPeers_eq_run h
    refine ⟨Runs.run_induction (wellFormed_step env.std) calls ht₀, ?_⟩
    refine entries_run env.std t₀ calls hwithin fun now kn hpush => ?_
    obtain ⟨p, hp, id, hid, hcall⟩ := hcalls _ hpush
    obtain ⟨-, rfl⟩ := Call.pushNode.inj hcall
    exact hpeers p hp id hid

end

/-- The own id is the one that the file begins with. -/
theorem selfId_load {id : KadId} {bytes : Bytes} (hid : id.id <+: bytes)
    (h : load env (some bytes) = some t) : t.selfNode.id = id := by
  obtain ⟨rest, rfl⟩ := hid
  have hread : ((init env.freshId).readFile (some (id.id ++ rest))).1.selfNode.id = id := by
    rw [readFile, fread_append id.length_id]
    exact KadId.ofBytes_id id
  rw [load] at h
  split at h
  · cases h
  · next t₀ ret heq =>
    rw [heq] at hread
    split at h
    · cases h
      exact hread
    · obtain ⟨calls, rfl, hcalls⟩ := pushPeers_eq_run h
      refine (kept_selfId id).kept_run env.std hread fun call hmem address heq => ?_
      obtain ⟨p, -, id', -, rfl⟩ := hcalls call hmem
      cases heq

end KadRoutingTable

section

variable [Hashing] {db : LookupDB}

/-- `LocalNode` with a store that has been opened, and `setSelfNodeAddress`. -/
def LocalNode.start {db : BerkeleyDB} (env : StartEnv) (file : Option Bytes)
    (searchesDB : SearchEntriesDB db) (address : Bytes) : Option (LocalNode db) :=
  (KadRoutingTable.load env file).map fun t =>
    { mutex := false
      ktable := t.setSelfNodeAddress address
      searchesDB := searchesDB
      detached := [] }

/-! ### Runs -/

/-- A network with the files `ktable.dat` of its nodes. -/
structure LifeState (ι : Type) (db : LookupDB) where
  net : NetState ι db
  files : ι → Option Bytes

/-- What happens to nodes that come and go. -/
inductive LifeEvent (ι : Type) (db : LookupDB)
  | runs (e : NetEvent ι)
  /-- The process of a node ends without having saved anything. -/
  | crashes (i : ι)
  /-- `shutdown`, on a disk with some room left; without any, the file is not opened. -/
  | shutsDown (i : ι) (disk : Option ℕ)
  | starts (i : ι) (env : StartEnv) (searchesDB : SearchEntriesDB db.toBerkeleyDB)
      (address : Bytes)

namespace LifeState

variable {ι : Type} [DecidableEq ι]

/-- The process of a node ends. -/
def ended (net : NetState ι db) (i : ι) : NetState ι db :=
  { net with nodes := Function.update net.nodes i { net.nodes i with alive := false } }

/-- One event.  A shutdown waits for the mutex.  A new life has nothing of the tasks of the
old one, and no answers to their calls. -/
def step (s : LifeState ι db) : LifeEvent ι db → LifeState ι db
  | .runs e => { s with net := s.net.step e }
  | .crashes i => { s with net := ended s.net i }
  | .shutsDown i disk =>
      if (s.net.nodes i).alive && !(s.net.nodes i).node.mutex then
        { net := ended s.net i
          files := Function.update s.files i
            (((s.net.nodes i).node.ktable.writeFile disk).2.or (s.files i)) }
      else s
  | .starts i env searchesDB address =>
      if (s.net.nodes i).alive then s
      else
        match LocalNode.start env (s.files i) searchesDB address with
        | none => s
        | some n =>
            { s with
              net :=
                { nodes := Function.update s.net.nodes i ⟨n, true, []⟩
                  answers := s.net.answers.filter fun a => a.caller ≠ i } }

/-- The calls and answers are as in a network, and everyone who starts and every peer of a
configuration file satisfies `P`. -/
def Admissible (P : KadId → Bytes → Prop) (s : LifeState ι db) : LifeEvent ι db → Prop
  | .runs e => s.net.Admissible e
  | .starts i env searchesDB address =>
      (∀ p ∈ env.config.peers, ∀ id,
        (KadId.fromHexString (CString.ofMemory p.1) env.behind).result = .ok id → P id p.2) ∧
      ∀ n, LocalNode.start env (s.files i) searchesDB address = some n →
        P n.ktable.selfNode.id address
  | _ => True

/-! ### What is kept -/

/-- The tables and the files are in order, and all that is mentioned satisfies `P`. -/
structure Sound (P : KadId → Bytes → Prop) (s : LifeState ι db) : Prop where
  within : s.net.Within P
  wellFormed : ∀ i, (s.net.nodes i).node.ktable.WellFormed
  files : ∀ i, ∀ bytes ∈ s.files i, KadRoutingTable.SavedFrom P bytes

variable {P : KadId → Bytes → Prop} {s : LifeState ι db}

theorem within_ended {net : NetState ι db} (h : net.Within P) (i : ι) : (ended net i).Within P := by
  refine ⟨fun j => ?_, h.answers⟩
  by_cases hj : j = i
  · subst hj
    simp only [ended, Function.update_self]
    exact (h.nodes j).dead
  · simp only [ended, Function.update_of_ne hj]
    exact h.nodes j

omit [DecidableEq ι] in
theorem Sound.within_ktable (h : s.Sound P) (i : ι) : (s.net.nodes i).node.ktable.Within P :=
  (h.within.nodes i).table

theorem alive_ended (net : NetState ι db) (i : ι) : ((ended net i).nodes i).alive = false := by
  simp only [ended, Function.update_self]

theorem node_ended (net : NetState ι db) (i j : ι) :
    ((ended net i).nodes j).node = (net.nodes j).node := by
  by_cases hj : j = i
  · subst hj
    simp only [ended, Function.update_self]
  · simp only [ended, Function.update_of_ne hj]

section

variable (hP : ∀ id address, P id address → 0 ∉ address ∧ TableFile.Fits address)
include hP

/-- **An event keeps the tables and the files in order.** -/
theorem sound_step (h : s.Sound P) {e : LifeEvent ι db} (he : s.Admissible P e) :
    (s.step e).Sound P := by
  have hclean := KadRoutingTable.cleanString_of_fits hP
  cases e with
  | runs e =>
    exact ⟨NetState.within_step hclean h.within he, fun i =>
      NetState.kept_step KadRoutingTable.kept_wellFormed hclean h.within he (h.wellFormed i),
      h.files⟩
  | crashes i =>
    refine ⟨within_ended h.within i, fun j => ?_, h.files⟩
    rw [step, node_ended]
    exact h.wellFormed j
  | shutsDown i disk =>
    rw [step]
    split
    · refine ⟨within_ended h.within i, fun j => ?_, fun j bytes hbytes => ?_⟩
      · rw [node_ended]
        exact h.wellFormed j
      · dsimp only at hbytes
        by_cases hj : j = i
        · subst hj
          rw [Function.update_self] at hbytes
          cases disk with
          | none => exact h.files j bytes hbytes
          | some room =>
            rw [KadRoutingTable.writeFile_eq_take, Option.some_or] at hbytes
            exact ⟨_, h.wellFormed j, h.within_ktable j, room, (Option.mem_some.mp hbytes).symm⟩
        · rw [Function.update_of_ne hj] at hbytes
          exact h.files j bytes hbytes
    · exact h
  | starts i env searchesDB address =>
    obtain ⟨hpeers, hown⟩ := he
    rw [step]
    split
    · exact h
    · split
      · exact h
      · next n hn =>
        obtain ⟨t, ht, rfl⟩ := Option.map_eq_some_iff.mp hn
        obtain ⟨hwell, hwithin⟩ := KadRoutingTable.inOrder_load hP (h.files i) hpeers ht
        refine ⟨⟨fun j => ?_, fun a ha => h.within.answers a (List.mem_of_mem_filter ha)⟩,
          fun j => ?_, h.files⟩
        · by_cases hj : j = i
          · subst hj
            simp only [Function.update_self]
            exact ⟨hown _ hn, hwithin, fun _ hkn => absurd hkn List.not_mem_nil,
              fun _ ha => absurd ha List.not_mem_nil⟩
          · simp only [Function.update_of_ne hj]
            exact h.within.nodes j
        · by_cases hj : j = i
          · subst hj
            simp only [Function.update_self]
            exact KadRoutingTable.wellFormed_step env.std t (.setSelfNodeAddress address) hwell
          · simp only [Function.update_of_ne hj]
            exact h.wellFormed j

theorem sound_run (h : s.Sound P) {events : List (LifeEvent ι db)}
    (hrun : Runs.Along step (Admissible P) s events) : (Runs.run step s events).Sound P := by
  have hall : Runs.Always step (Sound P) s events :=
    Runs.always_of_along (fun _ _ hs he => sound_step hP hs he) events s h hrun
  exact hall.last

/-- **Through any number of lives** nobody is made up, the bounds of the tables hold, and no
file overruns the buffer of its reader. -/
theorem inOrder_run (h : s.Sound P) {events : List (LifeEvent ι db)}
    (hrun : Runs.Along step (Admissible P) s events) :
    (∀ id address, (Runs.run step s events).net.Mentions id address → P id address) ∧
      (∀ i, ((Runs.run step s events).net.nodes i).node.ktable.WellFormed) ∧
        ∀ i freshId, ((KadRoutingTable.init freshId).readFile
          ((Runs.run step s events).files i)).2 ≠ none := by
  have hsound := sound_run hP h hrun
  refine ⟨NetState.within_iff.mp hsound.within, hsound.wellFormed, fun i freshId => ?_⟩
  obtain ⟨t, ret, hread, -⟩ := KadRoutingTable.readFile_of_saved hP (hsound.files i) freshId
  rw [hread]
  exact Option.some_ne_none ret

end

/-! ### What a file gives back -/

/-- Nobody but a node that is shut down writes its file. -/
theorem files_step {i : ι} {e : LifeEvent ι db} (he : ∀ disk, e ≠ .shutsDown i disk) :
    (s.step e).files i = s.files i := by
  cases e with
  | runs e => rfl
  | crashes j => rfl
  | shutsDown j disk =>
    have hij : i ≠ j := by
      rintro rfl
      exact he disk rfl
    rw [step]
    split
    · exact Function.update_of_ne hij _ _
    · rfl
  | starts j env searchesDB address =>
    rw [step]
    split
    · rfl
    · split <;> rfl

/-- A start that succeeds. -/
theorem step_starts {i : ι} {env : StartEnv} (searchesDB : SearchEntriesDB db.toBerkeleyDB)
    (address : Bytes) (hdead : (s.net.nodes i).alive = false) {t : KadRoutingTable}
    (ht : KadRoutingTable.load env (s.files i) = some t) :
    (s.step (.starts i env searchesDB address)).net.nodes i =
      ⟨⟨false, t.setSelfNodeAddress address, searchesDB, []⟩, true, []⟩ := by
  rw [step, if_neg (by rw [hdead]; decide), LocalNode.start, ht]
  exact Function.update_self _ _ _

/-- **Saved and started again**: what a node had when it was shut down, on a disk with enough
room, is what its next lives begin with, until one of them saves it again. -/
theorem restart_run (hP : ∀ id address, P id address → 0 ∉ address ∧ TableFile.Fits address)
    (h : s.Sound P) {events later : List (LifeEvent ι db)}
    (hrun : Runs.Along step (Admissible P) s events) {i : ι} {disk : Option ℕ} {env : StartEnv}
    {searchesDB : SearchEntriesDB db.toBerkeleyDB} {address : Bytes}
    (halive : ((Runs.run step s events).net.nodes i).alive = true)
    (hfree : ((Runs.run step s events).net.nodes i).node.Free)
    (hdisk : (((Runs.run step s events).net.nodes i).node.ktable.writeFile disk).1 = 0)
    (hlater : ∀ disk', .shutsDown i disk' ∉ later)
    (hdead : ((Runs.run step s (events ++ .shutsDown i disk :: later)).net.nodes i).alive = false) :
    let saved := ((Runs.run step s events).net.nodes i).node.ktable
    let x := (Runs.run step s (events ++ .shutsDown i disk :: later ++
      [.starts i env searchesDB address])).net.nodes i
    x.alive = true ∧ x.node.ktable.selfNode.id = saved.selfNode.id ∧
      x.node.ktable.selfNode.address = address ∧ x.node.ktable.buckets = saved.buckets := by
  have hsound := sound_run hP h hrun
  have hfile : (Runs.run step s (events ++ .shutsDown i disk :: later)).files i =
      some ((Runs.run step s events).net.nodes i).node.ktable.writes.flatten := by
    rw [Runs.run, List.foldl_append, List.foldl_cons]
    refine Runs.run_induction_of_mem (P := fun s' : LifeState ι db => s'.files i = _)
      (K := fun e => ∀ disk', e ≠ .shutsDown i disk') ?_ later ?_ ?_
    · exact fun s' e he hs' => (files_step he).trans hs'
    · rintro e he disk' rfl
      exact hlater disk' he
    · have hcond : (((Runs.run step s events).net.nodes i).alive &&
          !((Runs.run step s events).net.nodes i).node.mutex) = true := by
        rw [halive, hfree]
        rfl
      refine (congrArg (fun s' : LifeState ι db => s'.files i) (if_pos hcond)).trans ?_
      exact (Function.update_self _ _ _).trans
        (congrArg (fun f : Option Bytes => f.or _) (KadRoutingTable.writeFile_eq_zero hdisk))
  obtain ⟨hnul, hfit⟩ := KadRoutingTable.nulFree_addressesFit hP (hsound.within_ktable i)
  obtain ⟨t, ret, hread, -, hall⟩ := KadRoutingTable.readFile_take (hsound.wellFormed i).1 hnul
    hfit env.freshId ((Runs.run step s events).net.nodes i).node.ktable.writes.flatten.length
  obtain ⟨rfl, hid, hbuckets⟩ := hall le_rfl
  rw [List.take_length] at hread
  have hload : KadRoutingTable.load env
      ((Runs.run step s (events ++ .shutsDown i disk :: later)).files i) = some t := by
    rw [hfile, KadRoutingTable.load, hread]
    rfl
  have hstart := step_starts searchesDB address hdead hload
  dsimp only
  rw [Runs.run, List.foldl_append, List.foldl_cons, List.foldl_nil, ← Runs.run, hstart]
  exact ⟨rfl, hid, rfl, hbuckets⟩

/-- A node has an id, and so has its file. -/
structure HasId (i : ι) (id : KadId) (s : LifeState ι db) : Prop where
  own : (s.net.nodes i).node.ktable.selfNode.id = id
  file : ∃ bytes, s.files i = some bytes ∧ id.id <+: bytes

theorem hasId_step (hP : ∀ id address, P id address → 0 ∉ address ∧ TableFile.Fits address)
    (h : s.Sound P) {e : LifeEvent ι db} (he : s.Admissible P e) {i : ι} {id : KadId}
    (hroom : ∀ room, e = .shutsDown i (some room) → KAD_ID_LENGTH ≤ room)
    (hid : s.HasId i id) : (s.step e).HasId i id := by
  obtain ⟨hown, bytes, hbytes, hprefix⟩ := hid
  cases e with
  | runs e =>
    refine ⟨?_, bytes, hbytes, hprefix⟩
    exact NetState.kept_step (KadRoutingTable.kept_selfId id)
      (KadRoutingTable.cleanString_of_fits hP) h.within he hown
  | crashes j =>
    refine ⟨?_, bytes, hbytes, hprefix⟩
    rw [step, node_ended]
    exact hown
  | shutsDown j disk =>
    rw [step]
    split
    · refine ⟨(congrArg (fun n => n.ktable.selfNode.id) (node_ended s.net j i)).trans hown, ?_⟩
      by_cases hij : i = j
      · subst hij
        dsimp only
        rw [Function.update_self]
        cases disk with
        | none => exact ⟨bytes, hbytes, hprefix⟩
        | some room =>
          -- the id is the first thing that is written
          rw [KadRoutingTable.writeFile_eq_take, Option.some_or]
          refine ⟨_, rfl, ?_⟩
          rw [KadRoutingTable.writes, List.flatten_cons, hown]
          refine List.prefix_take_iff.mpr ⟨List.prefix_append _ _, ?_⟩
          exact id.length_id.trans_le (hroom room rfl)
      · refine ⟨bytes, ?_, hprefix⟩
        exact (Function.update_of_ne hij _ _).trans hbytes
    · exact ⟨hown, bytes, hbytes, hprefix⟩
  | starts j env searchesDB address =>
    refine ⟨?_, bytes, ?_, hprefix⟩
    · rw [step]
      split
      · exact hown
      · split
        · exact hown
        · next n hn =>
          by_cases hij : i = j
          · subst hij
            obtain ⟨t, ht, rfl⟩ := Option.map_eq_some_iff.mp hn
            simp only [Function.update_self]
            exact (KadRoutingTable.selfId_load hprefix (hbytes ▸ ht) : t.selfNode.id = id)
          · simp only [Function.update_of_ne hij]
            exact hown
    · refine (files_step fun disk heq => ?_).trans hbytes
      cases heq

/-- **A node keeps its id for all its lives**, as long as the id itself gets onto the disk. -/
theorem selfId_run (hP : ∀ id address, P id address → 0 ∉ address ∧ TableFile.Fits address)
    (h : s.Sound P) {events : List (LifeEvent ι db)}
    (hrun : Runs.Along step (Admissible P) s events) {i : ι} {id : KadId} (hid : s.HasId i id)
    (hroom : ∀ room, .shutsDown i (some room) ∈ events → KAD_ID_LENGTH ≤ room) :
    Runs.Always step (fun s' => (s'.net.nodes i).node.ktable.selfNode.id = id) s events := by
  have hall : Runs.Always step (fun s' => s'.Sound P ∧ s'.HasId i id) s events := by
    refine Runs.always_of_along ?_ events s ⟨h, hid⟩ (Runs.along_and_mem hrun)
    rintro s' e ⟨hs', hid'⟩ ⟨he, hmem⟩
    exact ⟨sound_step hP hs' he, hasId_step hP hs' he (fun room heq => hroom room (heq ▸ hmem)) hid'⟩
  exact hall.mono fun s' hs' => hs'.2.own

end LifeState

end

/-! ### A node that comes back -/

namespace LifeState

/-- Two nodes; of the file of one there is no more than its id. -/
def pair [Hashing] : LifeState Bool LookupDB.inMap where
  net := NetState.aboutToPing
  files i := if i then some (KadId.ofNat 1).id else none

/-- The addresses of the two. -/
def OfPair (_ : KadId) (address : Bytes) : Prop := address = [97] ∨ address = [98]

theorem storable_of_ofPair (id : KadId) (address : Bytes) (h : OfPair id address) :
    0 ∉ address ∧ TableFile.Fits address := by
  rcases h with rfl | rfl <;> exact ⟨by decide, by decide, by decide⟩

theorem sound_pair [Hashing] : pair.Sound OfPair := by
  refine ⟨⟨fun i => ?_, fun a ha => absurd ha List.not_mem_nil⟩, fun i => ?_, fun i => ?_⟩
  · cases i
    · exact ⟨Or.inr rfl, fun _ _ hkn => absurd hkn List.not_mem_nil,
        fun _ hkn => absurd hkn List.not_mem_nil, fun _ ha => absurd ha List.not_mem_nil⟩
    · refine ⟨Or.inl rfl, fun _ _ hkn => absurd hkn List.not_mem_nil,
        fun _ hkn => absurd hkn List.not_mem_nil, ?_⟩
      intro a ha kn hkn
      rw [List.mem_singleton.mp ha] at hkn
      rw [List.mem_singleton.mp hkn]
      exact Or.inr rfl
  · cases i <;> exact ⟨fun _ => KadBucket.inv_empty, KadRoutingTable.placed_init _⟩
  · cases i
    · exact fun _ hbytes => absurd hbytes (Option.not_mem_none _)
    · intro bytes hbytes
      rw [← Option.mem_some.mp hbytes]
      obtain ⟨hwell, hwithin⟩ := KadRoutingTable.wellFormed_within_init (P := OfPair) (KadId.ofNat 1)
      refine ⟨_, hwell, hwithin, KAD_ID_LENGTH, ?_⟩
      rw [KadRoutingTable.writes, List.flatten_cons, List.take_left' (KadId.length_id _)]
      rfl

theorem hasId_pair [Hashing] : pair.HasId true (KadId.ofNat 1) :=
  ⟨rfl, _, rfl, List.prefix_rfl⟩

/-- One pings the other one. -/
def pings [Hashing] : List (LifeEvent Bool LookupDB.inMap) := NetEvent.pinged.map .runs

/-- The store that it finds. -/
def emptyStore [Hashing] : SearchEntriesDB LookupDB.inMap.toBerkeleyDB := ⟨∅, some OrdMap.empty⟩

/-- It starts again. -/
def comesBack [Hashing] : LifeEvent Bool LookupDB.inMap :=
  .starts true StartEnv.plain emptyStore [97]

/-- And it saves what it can in between. -/
def comings [Hashing] : List (LifeEvent Bool LookupDB.inMap) :=
  pings ++ [.shutsDown true (some 100), comesBack]

theorem exchangeFits_pings [Hashing] : ExchangeFits ServerEnv.zero ClientEnv.zero
    (pair.net.nodes false).node (.ping (KadId.ofNat 1) [97]) := by
  have hlength : ((Call.ping (KadId.ofNat 1) [97]).args ClientEnv.zero).encode.length = 26 := rfl
  exact NetState.exchangeFits_lone _ _ _ _ (hlength.trans_lt (by decide))

theorem along_pings [Hashing] : Runs.Along step (Admissible OfPair) pair pings :=
  ⟨⟨⟨_, rfl, Or.inl rfl⟩, exchangeFits_pings⟩, trivial, trivial⟩

theorem along_comings [Hashing] : Runs.Along step (Admissible OfPair) pair comings :=
  ⟨⟨⟨_, rfl, Or.inl rfl⟩, exchangeFits_pings⟩, trivial, trivial,
    ⟨fun _ hp => absurd hp List.not_mem_nil, fun _ _ => Or.inl rfl⟩, trivial⟩

theorem inOrder_run_pair :
    letI := Hashing.blank
    (∀ id address, (Runs.run step pair comings).net.Mentions id address → OfPair id address) ∧
      (∀ i, ((Runs.run step pair comings).net.nodes i).node.ktable.WellFormed) ∧
        ∀ i freshId, ((KadRoutingTable.init freshId).readFile
          ((Runs.run step pair comings).files i)).2 ≠ none :=
  @inOrder_run Hashing.blank _ _ _ OfPair (@pair Hashing.blank) storable_of_ofPair
    (@sound_pair Hashing.blank) (@comings Hashing.blank) (@along_comings Hashing.blank)

/-- What the node has that has pinged the other one. -/
def savedOfPair [Hashing] : KadRoutingTable :=
  ((Runs.run step pair pings).net.nodes true).node.ktable

/-- A disk with room for it. -/
def roomy [Hashing] : Option ℕ := some savedOfPair.writes.flatten.length

theorem alive_pings [Hashing] : ((Runs.run step pair pings).net.nodes true).alive = true := rfl

theorem free_pings [Hashing] : ((Runs.run step pair pings).net.nodes true).node.Free := rfl

theorem writeFile_savedOfPair [Hashing] : (savedOfPair.writeFile roomy).1 = 0 :=
  savedOfPair.writeFile_of_room

theorem dead_pings [Hashing] : ((Runs.run step pair (pings ++
    .shutsDown true roomy :: [.crashes true])).net.nodes true).alive = false := by
  rw [Runs.run, List.foldl_append, List.foldl_cons, List.foldl_cons, List.foldl_nil]
  exact alive_ended _ true

theorem not_mem_crashes [Hashing] (disk : Option ℕ) :
    (.shutsDown true disk : LifeEvent Bool LookupDB.inMap) ∉ [.crashes true] := by
  intro hmem
  cases List.mem_singleton.mp hmem

/-- The node that has come back. -/
def cameBack [Hashing] : NetNode LookupDB.inMap :=
  (Runs.run step pair (pings ++ .shutsDown true roomy :: [.crashes true] ++
    [comesBack])).net.nodes true

theorem restart_run_pair :
    letI := Hashing.blank
    cameBack.alive = true ∧ cameBack.node.ktable.selfNode.id = savedOfPair.selfNode.id ∧
      cameBack.node.ktable.selfNode.address = [97] ∧
        cameBack.node.ktable.buckets = savedOfPair.buckets := by
  unfold cameBack comesBack savedOfPair
  exact @restart_run Hashing.blank _ _ _ OfPair (@pair Hashing.blank) storable_of_ofPair
    (@sound_pair Hashing.blank) _ _ (@along_pings Hashing.blank) true (@roomy Hashing.blank)
    StartEnv.plain (@emptyStore Hashing.blank) [97] (@alive_pings Hashing.blank)
    (@free_pings Hashing.blank) (@writeFile_savedOfPair Hashing.blank)
    (@not_mem_crashes Hashing.blank) (@dead_pings Hashing.blank)

theorem le_room_of_mem_comings [Hashing] (room : ℕ) (h : .shutsDown true (some room) ∈ comings) :
    KAD_ID_LENGTH ≤ room := by
  rcases List.mem_append.mp h with hmem | hmem
  · obtain ⟨e, -, heq⟩ := List.mem_map.mp hmem
    cases heq
  · rcases List.mem_cons.mp hmem with heq | hmem
    · cases heq
      decide
    · cases List.mem_singleton.mp hmem

theorem selfId_run_pair :
    letI := Hashing.blank
    Runs.Always step (fun s' => (s'.net.nodes true).node.ktable.selfNode.id = KadId.ofNat 1) pair
      comings :=
  @selfId_run Hashing.blank _ _ _ OfPair (@pair Hashing.blank) storable_of_ofPair
    (@sound_pair Hashing.blank) (@comings Hashing.blank) (@along_comings Hashing.blank) true
    (KadId.ofNat 1) (@hasId_pair Hashing.blank) (@le_room_of_mem_comings Hashing.blank)

end LifeState

end SniffDogSniff
