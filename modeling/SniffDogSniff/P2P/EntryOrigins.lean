import SniffDogSniff.SdsCore.LocalResults
import SniffDogSniff.P2P.Bindings

/-!
# Where stored entries come from

Entries come into a network of nodes from the users and from the crawlers.  A node sends on
what its store makes of its records, and what a search has found.  But the store reads its
records back without their titles, and what `findResults` brings is never an entry: its stub
is answered by the handler of `findNode`.  So what a user inserts stays with the node of
this user, and what goes around has been crawled or has no title.

## Main definitions

* `NetEvent.crawled` — what the crawlers find.
* `NetNode.Keeps`, `NetState.Keeps` — what is carried along, and what has been stored.

## Main results

* `head_title_of_onWire` — a title keeps its first letter on the wire.
* `record_run` — **what a store holds after a run**, in a network that starts idle.
* `carried_run` — **what is sent on, and what a search has found.**
-/

namespace SniffDogSniff

open SdsBytesBuf

section

variable [Hashing]

/-! ### The wire -/

omit [Hashing] in
/-- A string is at least its first letter, be it the terminator. -/
theorem head_readString {buf : SdsBytesBuf} {b : UInt8} {rest : Bytes} (h : buf.At (b :: rest)) :
    (readString.value buf).head? = some b := by
  have hremaining : buf.remaining ≠ 0 := by
    rw [remaining_of_at h]
    exact Nat.succ_ne_zero _
  obtain ⟨n, hn⟩ := Nat.exists_eq_add_one.mpr (nextLength_pos hremaining)
  have hmem : buf.mem (buf.pos + 0) = b := getElem_of_at h (Nat.succ_pos _)
  rw [value_readString, hn, slice_succ, List.head?_cons, ← hmem, Nat.add_zero]

/-- **The title of an entry keeps its first letter on the wire**; where there is none, its
terminator becomes a letter. -/
theorem head_title_of_onWire {se se' : SearchEntry} (h : OnWire se se') :
    se'.title.head? = (se.title ++ [0]).head? := by
  obtain ⟨args, hargs, rfl⟩ := h
  obtain ⟨-, hfinal⟩ := SimHash.reads_read SearchEntry.default.simHash se.simHash args _ hargs
  have hat := at_advance hargs
  rw [← hfinal] at hat
  have hvalue : ((StoreResultArgs.read ⟨SearchEntry.default⟩).value args).se.title =
      readString.value ((SearchEntry.default.simHash.read).final args) := rfl
  rw [hvalue]
  rw [encodeString] at hat
  cases htitle : se.title ++ [0] with
  | nil => exact absurd htitle (List.append_ne_nil_of_right_ne_nil _ (List.cons_ne_nil _ _))
  | cons b bs =>
    rw [htitle] at hat
    exact head_readString hat

/-! ### Nodes -/

variable {db : LookupDB} {C S : SearchEntry → Prop}

namespace NetNode

/-- The entries that are carried along satisfy `C`, and what has been stored since `s₀`
satisfies `S`. -/
structure Keeps (C S : SearchEntry → Prop) (s₀ : SearchEntriesDB db.toBerkeleyDB)
    (x : NetNode db) : Prop where
  carried : ∀ a ∈ x.activities, ∀ se ∈ a.entries, C se
  stored : SearchEntriesDB.StoredFrom S s₀ x.node.searchesDB

variable {s₀ : SearchEntriesDB db.toBerkeleyDB} {x : NetNode db}

theorem Keeps.erase (h : x.Keeps C S s₀) (k : ℕ) :
    { x with activities := x.activities.eraseIdx k }.Keeps C S s₀ :=
  ⟨fun a ha => h.carried a (List.mem_of_mem_eraseIdx ha), h.stored⟩

theorem Keeps.append (h : x.Keeps C S s₀) {as : List Activity}
    (has : ∀ a ∈ as, ∀ se ∈ a.entries, C se) :
    { x with activities := x.activities ++ as }.Keeps C S s₀ :=
  ⟨fun a ha => (List.mem_append.mp ha).elim (h.carried a) (has a), h.stored⟩

/-- A part of a task. -/
theorem Keeps.keeps_perform {ε α : Type} {m : Prog ε (LocalNode db.toBerkeleyDB) α}
    {next : α → List Activity} (hx : x.Keeps C S s₀)
    (h : Prog.Leaves m x.node
      (fun a n => SearchEntriesDB.StoredFrom S x.node.searchesDB n.searchesDB ∧
        ∀ b ∈ next a, ∀ se ∈ b.entries, C se)
      (fun n => SearchEntriesDB.StoredFrom S x.node.searchesDB n.searchesDB)) :
    (x.perform m next).Keeps C S s₀ := by
  have hstored : ∀ n : LocalNode db.toBerkeleyDB,
      SearchEntriesDB.StoredFrom S x.node.searchesDB n.searchesDB →
        { x with node := n }.Keeps C S s₀ := fun n hn => ⟨hx.carried, hx.stored.trans hn⟩
  refine perform_induction hx (fun y hy => ⟨hy.carried, hy.stored⟩) (h.mono ?_ hstored)
  exact fun a n hn => (hstored n hn.1).append hn.2

theorem Keeps.keeps_checks (hx : x.Keeps C S s₀) (k : ℕ) : (x.checks k).Keeps C S s₀ := by
  rw [checks]
  split
  · exact hx
  · next kn hkn =>
    refine Keeps.append (x := { x with
      node := { x.node with detached := x.node.detached.eraseIdx k } })
      ⟨hx.carried, hx.stored⟩ fun a ha => ?_
    split at ha
    · cases ha
    · rw [List.mem_singleton.mp ha]
      exact fun se hse => absurd hse List.not_mem_nil

/-- **Serving a call** stores what a call of `storeResult` has brought. -/
theorem Keeps.keeps_serves (hx : x.Keeps C S s₀) {c : Call} (hc : c.Sendable)
    (hclean : c.SentCleanly) (hstore : ∀ se se', c = .storeResult se → OnWire se se' → S se')
    {net : Network} {cenv : ClientEnv} {senv : ServerEnv}
    (hsize : (c.args cenv).encode.length < 2 ^ 64) :
    (NetState.serves x c net cenv senv).Keeps C S s₀ := by
  rw [NetState.serves, sent_connect hc]
  have hchanged : ∀ n, Changed x.node c n →
      SearchEntriesDB.StoredFrom S x.node.searchesDB n.searchesDB := by
    intro n hn
    cases hn with
    | nothing => exact SearchEntriesDB.storedFrom_of_dbp_eq rfl
    | pinged id address => exact SearchEntriesDB.storedFrom_of_dbp_eq rfl
    | stored se se' s mutex hwire hs =>
      exact hs.mono fun y hy => hy ▸ hstore se se' rfl hwire
  generalize hm : SdsP2PServer.handleRequest senv
    (net.deliver MessageRequestHeader.word.width (c.request cenv)) = m
  refine hx.keeps_perform ((leaves_handleRequest hclean hsize hm x.node).mono ?_ hchanged)
  exact fun _ n hn => ⟨hchanged n hn, fun a ha => absurd ha List.not_mem_nil⟩

/-- The replies to the calls of a search bring no entries. -/
def BringsNothing : Task → TaskEnd → Prop
  | .search _ _, .search env => ∀ kn reply, env.reply kn = some reply → reply.results = []
  | _, _ => True

/-- What the crawlers find at the end of a task. -/
def crawledAtEnd : TaskEnd → List SearchEntry
  | .search env => env.crawled
  | _ => []

/-- Such a search finds what it has found in the own store. -/
theorem results_search_of_bringsNothing {env : SearchEnv} {targetNodes : OrdSet KadNode.order}
    {results : List SearchEntry} (h : BringsNothing (.search targetNodes results) (.search env)) :
    ((LocalNode.entered targetNodes results).searchLoop env none).results = results := by
  rw [SearchState.results_search, SearchState.replied]
  refine (congrArg _ (List.flatMap_eq_nil_iff.mpr fun kn _ => ?_)).trans (List.append_nil _)
  split
  · rfl
  · next reply hreply =>
    split
    · exact h kn reply hreply
    · rfl

theorem carried_leftBehind {task : Task} {how : TaskEnd} (hnothing : BringsNothing task how)
    (hentries : ∀ se ∈ (Activity.task task).entries, C se)
    (hcrawled : ∀ se ∈ crawledAtEnd how, C se) :
    ∀ a ∈ leftBehind task how, ∀ se ∈ a.entries, C se := by
  intro a ha se hse
  unfold leftBehind at ha
  split at ha
  · next targetNodes results env =>
    dsimp only at ha
    rw [results_search_of_bringsNothing hnothing] at ha
    rw [List.mem_singleton.mp ha, Activity.entries] at hse
    split at hse
    · exact hcrawled se hse
    · exact hentries se hse
  · cases ha

/-- **The end of a task**, where its calls bring no entries. -/
theorem Keeps.keeps_ends (hx : x.Keeps C S s₀) (std : StdSort) {k : ℕ} {how : TaskEnd}
    (hnothing : ∀ task, x.activities[k]? = some (.task task) → BringsNothing task how)
    (hcrawled : ∀ se ∈ crawledAtEnd how, C se) : (x.ends std k how).Keeps C S s₀ := by
  rw [ends]
  split
  · next task htask =>
    split
    · exact hx
    · split
      · exact hx
      · next r hr =>
        refine Keeps.append (x := { x with
          node := { x.node with ktable := r.ktable }
          activities := x.activities.eraseIdx k }) ⟨(hx.erase k).carried, hx.stored⟩ ?_
        exact carried_leftBehind (hnothing task htask)
          (hx.carried _ (List.mem_of_getElem? htask)) hcrawled
  · exact hx

end NetNode

/-! ### The network -/

/-- What the crawlers find. -/
def NetEvent.crawled {ι : Type} : NetEvent ι → List SearchEntry
  | .broadcast _ _ crawled => crawled
  | .ends _ _ _ how => NetNode.crawledAtEnd how
  | _ => []

namespace NetState

variable {ι : Type} {s₀ s : NetState ι db} {S : ι → SearchEntry → Prop}

/-- The entries that are carried along satisfy `C`, what node `i` has stored since `s₀`
satisfies `S i`, no search was brought an entry, and all addresses are clean. -/
structure Keeps (C : SearchEntry → Prop) (S : ι → SearchEntry → Prop) (s s₀ : NetState ι db) :
    Prop where
  nodes : ∀ i, (s.nodes i).Keeps C (S i) (s₀.nodes i).node.searchesDB
  results : ∀ a ∈ s.answers, ∀ reply, a.reply = .findResultsReply reply → reply.results = []
  addresses : s.Within fun _ address => CleanString address

/-- What is carried along may be stored by those whom it is sent to. -/
structure Spreads (C : SearchEntry → Prop) (S : ι → SearchEntry → Prop) : Prop where
  untitled : ∀ se, se.title = [] → C se
  stored : ∀ i se, C se → S i se
  sent : ∀ i se se', C se → OnWire se se' → S i se'

/-- The entries that an event brings into the network satisfy `C` and `S`. -/
def Brings (C : SearchEntry → Prop) (S : ι → SearchEntry → Prop) (e : NetEvent ι) : Prop :=
  (∀ se ∈ e.crawled, C se) ∧ ∀ i sur se, e = .inserts i sur se → S i se

/-- A call sends what is carried along. -/
theorem Keeps.storeResult_sent (h : s.Keeps C S s₀) {i : ι} {k : ℕ} {a : Activity}
    (ha : (s.nodes i).activities[k]? = some a) {se : SearchEntry}
    (hcall : a.MayCall (s.nodes i).node.ktable.selfNode (.storeResult se)) : C se := by
  refine (h.nodes i).carried a (List.mem_of_getElem? ha) se ?_
  rcases hcall with heq | hcalls
  · cases heq
  · cases a with
    | task t =>
      cases t with
      | publish m =>
        obtain ⟨g, hg, se', hse', heq⟩ := hcalls
        rw [Call.storeResult.inj heq]
        exact List.mem_flatMap.mpr ⟨g, hg, hse'⟩
      | search targetNodes results =>
        obtain ⟨query, -, heq⟩ := hcalls
        cases heq
      | lookup selfNode targetId alphaClosest => cases hcalls
      | toPing kn => exact hcalls.elim
      | pinging kn => exact hcalls.elim
    | toPublish results => exact hcalls.elim
    | republish targetNodes probedEmpty results =>
      obtain ⟨se', hse', heq⟩ := hcalls
      rw [Call.storeResult.inj heq]
      exact hse'

/-- The end of a search uses answers that brought no entries. -/
theorem Keeps.bringsNothing (h : s.Keeps C S s₀) {i : ι} {a : Option Activity} {how : TaskEnd}
    (huses : s.UsesAnswers i a how) {task : Task} (ha : a = some (.task task)) :
    NetNode.BringsNothing task how := by
  subst ha
  unfold NetNode.BringsNothing
  split
  · intro kn reply hreply
    obtain ⟨query, hmem⟩ := huses kn reply hreply
    exact h.results _ hmem reply rfl
  · trivial

variable [DecidableEq ι]

theorem keeps_onNode (h : s.Keeps C S s₀) (i : ι) (f : NetNode db → NetNode db)
    (haddresses : (s.onNode i f).Within fun _ address => CleanString address)
    (hf : (f (s.nodes i)).Keeps C (S i) (s₀.nodes i).node.searchesDB) :
    (s.onNode i f).Keeps C S s₀ := by
  refine ⟨fun j => ?_, ?_, haddresses⟩
  · rw [onNode]
    split
    · by_cases hj : j = i
      · subst hj
        simp only [Function.update_self]
        exact hf
      · simp only [Function.update_of_ne hj]
        exact h.nodes j
    · exact h.nodes j
  · rw [onNode]
    split
    · exact h.results
    · exact h.results

/-- **A call and its answer.** -/
theorem keeps_exchange (hspreads : Spreads C S) (h : s.Keeps C S s₀) {i : ι} {k : ℕ} {c : Call}
    {j : ι} {net : Network} {cenv : ClientEnv} {senv : ServerEnv}
    (he : s.Admissible (.exchange i k c j net cenv senv)) :
    (s.step (.exchange i k c j net cenv senv)).Keeps C S s₀ := by
  refine ⟨fun j' => ?_, fun b hb reply hreply => ?_,
    within_step (fun _ _ h => h) h.addresses he⟩
  · rw [step]
    split
    · by_cases hj : j' = j
      · subst hj
        simp only [Function.update_self]
        refine (h.nodes j').keeps_serves (sendable_of_admissible he)
          (h.addresses.sentCleanly (fun _ _ h => h) he) ?_ he.2.1
        rintro se se' rfl hwire
        obtain ⟨⟨a, ha, hcall⟩, -⟩ := he
        exact hspreads.sent j' se se' (h.storeResult_sent ha hcall) hwire
      · simp only [Function.update_of_ne hj]
        exact h.nodes j'
    · exact h.nodes j'
  · rw [step] at hb
    split at hb
    · rcases List.mem_append.mp hb with hb | hb
      · exact h.results b hb reply hreply
      · obtain ⟨m, hm, rfl⟩ := List.mem_map.mp hb
        cases h.addresses.told (fun _ _ h => h) he hm with
        | pong id address reply' => cases hreply
        | nodes id => cases hreply
        | noResults query id =>
          cases hreply
          rfl
    · exact h.results b hb reply hreply

/-- **An event keeps to what may be carried and stored.** -/
theorem keeps_step (hspreads : Spreads C S) (h : s.Keeps C S s₀) {e : NetEvent ι}
    (he : s.Admissible e) (hbrings : Brings C S e) : (s.step e).Keeps C S s₀ := by
  have haddresses := within_step (fun _ _ h => h) h.addresses he
  cases e with
  | exchange i k c j net cenv senv => exact keeps_exchange hspreads h he
  | checks i k =>
    rw [step] at haddresses ⊢
    exact keeps_onNode h i _ haddresses ((h.nodes i).keeps_checks k)
  | beginLookup i std targetId =>
    rw [step] at haddresses ⊢
    refine keeps_onNode h i _ haddresses ((h.nodes i).keeps_perform ?_)
    rw [Prog.leaves_bind]
    refine LocalNode.leaves_lock ⟨SearchEntriesDB.storedFrom_of_dbp_eq rfl, fun a ha se hse => ?_⟩
    rw [List.mem_singleton.mp ha] at hse
    cases hse
  | broadcast i sur crawled =>
    rw [step] at haddresses ⊢
    refine keeps_onNode h i _ haddresses ((h.nodes i).keeps_perform ?_)
    refine (EntriesPublishTask.leaves_broadcast sur crawled _).mono ?_
      fun n hn => SearchEntriesDB.storedFrom_of_dbp_eq hn.2
    rintro results n ⟨-, hdbp, hresults⟩
    refine ⟨SearchEntriesDB.storedFrom_of_dbp_eq hdbp, fun a ha se hse => ?_⟩
    split at ha
    · cases ha
    · rw [List.mem_singleton.mp ha] at hse
      exact (hresults se hse).elim (hspreads.untitled se) (hbrings.1 se)
  | beginPublish i k env =>
    rw [step] at haddresses ⊢
    refine keeps_onNode h i _ haddresses ?_
    split
    · next results hresults =>
      split
      · exact h.nodes i
      · have hC : ∀ se ∈ results, C se :=
          (h.nodes i).carried _ (List.mem_of_getElem? hresults)
        have hS := fun se hse => hspreads.stored i se (hC se hse)
        refine ((h.nodes i).erase k).keeps_perform ?_
        refine (EntriesPublishTask.leaves_beginPublish env results _).mono ?_
          fun n hn => hn.2.mono hS
        rintro m n ⟨⟨-, hstored⟩, hgroups⟩
        refine ⟨hstored.mono hS, fun a ha se hse => ?_⟩
        rw [List.mem_singleton.mp ha] at hse
        obtain ⟨g, hg, hmem⟩ := List.mem_flatMap.mp hse
        exact hC se ((hgroups g hg).2 se hmem)
    · exact h.nodes i
  | beginSearch i env query =>
    rw [step] at haddresses ⊢
    refine keeps_onNode h i _ haddresses ((h.nodes i).keeps_perform ?_)
    have hstored : ∀ n : LocalNode db.toBerkeleyDB, n.searchesDB = (s.nodes i).node.searchesDB →
        SearchEntriesDB.StoredFrom (S i) (s.nodes i).node.searchesDB n.searchesDB :=
      fun n hn => SearchEntriesDB.storedFrom_of_dbp_eq (congrArg _ hn)
    refine (LocalNode.leaves_beginSearch env query _).mono ?_ fun n hn => hstored n hn.2
    rintro st n ⟨-, hdb, -, hresults⟩
    refine ⟨hstored n hdb, fun a ha se hse => ?_⟩
    rw [List.mem_singleton.mp ha] at hse
    exact hspreads.untitled se (hresults se hse)
  | ends i k std how =>
    rw [step] at haddresses ⊢
    exact keeps_onNode h i _ haddresses
      ((h.nodes i).keeps_ends std (fun _ => h.bringsNothing he) hbrings.1)
  | finishes i k =>
    rw [step] at haddresses ⊢
    refine keeps_onNode h i _ haddresses ?_
    split
    · exact (h.nodes i).erase k
    · exact h.nodes i
  | inserts i sur se =>
    rw [step] at haddresses ⊢
    refine keeps_onNode h i _ haddresses ((h.nodes i).keeps_perform ?_)
    refine Prog.Leaves.mono (R := fun _ n =>
        SearchEntriesDB.StoredFrom (S i) (s.nodes i).node.searchesDB n.searchesDB)
      (E := fun n => SearchEntriesDB.StoredFrom (S i) (s.nodes i).node.searchesDB n.searchesDB)
      ?_ (fun _ n hn => ⟨hn, fun a ha => absurd ha List.not_mem_nil⟩) fun _ hn => hn
    have hS : ∀ se', se' = se → S i se' := fun se' heq => heq ▸ hbrings.2 i sur se rfl
    rw [Prog.leaves_tryCatch fun _ => (), Prog.leaves_bind]
    exact (LocalNode.leaves_storeResult sur se _).mono (fun _ _ hn => hn.2.mono hS)
      fun _ hn => hn.2.mono hS

end NetState

/-! ### Runs -/

/-- There is no title, or it starts with a NUL. -/
def SearchEntry.Blank (se : SearchEntry) : Prop := se.title.head?.getD 0 = 0

/-- The entry is found by a crawler in the run. -/
def Crawled {ι : Type} (events : List (NetEvent ι)) (se : SearchEntry) : Prop :=
  ∃ e ∈ events, se ∈ e.crawled

/-- What comes into the store of node `i` in the run: what a user inserts there, what is
crawled anywhere, as it is or as it comes over the wire, and entries without a title. -/
def Incoming {ι : Type} (events : List (NetEvent ι)) (i : ι) (se : SearchEntry) : Prop :=
  (∃ sur, .inserts i sur se ∈ events) ∨
    (∃ se', Crawled events se' ∧ (se = se' ∨ OnWire se' se)) ∨ se.Blank

theorem spreads_incoming {ι : Type} (events : List (NetEvent ι)) :
    NetState.Spreads (fun se => se.title = [] ∨ Crawled events se) (Incoming events) where
  untitled _ h := Or.inl h
  stored i se h := by
    rcases h with htitle | hcrawled
    · refine Or.inr (Or.inr ?_)
      rw [SearchEntry.Blank, htitle]
      rfl
    · exact Or.inr (Or.inl ⟨se, hcrawled, Or.inl rfl⟩)
  sent i se se' h hwire := by
    rcases h with htitle | hcrawled
    · refine Or.inr (Or.inr ?_)
      rw [SearchEntry.Blank, head_title_of_onWire hwire, htitle]
      rfl
    · exact Or.inr (Or.inl ⟨se, hcrawled, Or.inr hwire⟩)

namespace NetState

variable {ι : Type} [DecidableEq ι] {s : NetState ι db} {events : List (NetEvent ι)}

/-- No task is under way, and nothing was answered yet. -/
structure Idle (s : NetState ι db) : Prop where
  activities : ∀ i, (s.nodes i).activities = []
  answers : s.answers = []

theorem keeps_run (hidle : s.Idle)
    (hclean : ∀ id address, s.Mentions id address → CleanString address)
    (hrun : Runs.Along step Admissible s events) :
    (Runs.run step s events).Keeps (fun se => se.title = [] ∨ Crawled events se)
      (Incoming events) s := by
  have hinit : s.Keeps (fun se => se.title = [] ∨ Crawled events se) (Incoming events) s := by
    refine ⟨fun i => ⟨fun a ha => ?_, SearchEntriesDB.storedFrom_of_dbp_eq rfl⟩, ?_,
      within_iff.mpr hclean⟩
    · rw [hidle.activities i] at ha
      cases ha
    · rw [hidle.answers]
      exact fun a ha => nomatch ha
  have hbrings : ∀ e ∈ events,
      Brings (fun se => se.title = [] ∨ Crawled events se) (Incoming events) e := by
    intro e he
    refine ⟨fun se hse => Or.inr ⟨e, he, hse⟩, ?_⟩
    rintro i sur se rfl
    exact Or.inl ⟨sur, he⟩
  have halong : Runs.Along step (fun s e => s.Admissible e ∧ e ∈ events) s events :=
    Runs.along_and_mem hrun
  have hstep : ∀ (s' : NetState ι db) (e : NetEvent ι),
      s'.Keeps (fun se => se.title = [] ∨ Crawled events se) (Incoming events) s →
        s'.Admissible e ∧ e ∈ events →
        (s'.step e).Keeps (fun se => se.title = [] ∨ Crawled events se) (Incoming events) s :=
    fun s' e h he => keeps_step (spreads_incoming events) h he.1 (hbrings e he.2)
  exact (Runs.always_of_along hstep events s hinit halong).last

end NetState

/-- Records that are put. -/
theorem SearchEntriesDB.record_of_puts {db : ReliableDB} {st st' : db.State}
    (h : Puts S st st') {key data : Bytes} (hrecord : db.record st' key = some data) :
    db.record st key = some data ∨ ∃ se, S se ∧ data = se.encode := by
  induction h with
  | nothing => exact Or.inl hrecord
  | put st₂ key' se _ hse ih =>
    rw [db.record_put, Function.update_apply] at hrecord
    split at hrecord
    · exact Or.inr ⟨se, hse, (Option.some.inj hrecord).symm⟩
    · exact ih hrecord

end

/-! ### One node -/

/-- A single node, which does nothing yet. -/
def NetState.alone [Hashing] : NetState Unit LookupDB.inMap where
  nodes _ := NetNode.lone (KadId.ofNat 1) [97] []
  answers := []

/-- Its user inserts an entry, and then it is crawled. -/
def NetEvent.inserted : List (@NetEvent Hashing.ofLetters Unit) :=
  let _ := Hashing.ofLetters
  [.inserts () Surroundings.zero titledA, .broadcast () Surroundings.zero [titledA]]

theorem NetState.clean_alone [Hashing] :
    ∀ id address, NetState.alone.Mentions id address → CleanString address := by
  refine within_iff.mp ⟨fun i => ?_, fun a ha => nomatch ha⟩
  exact ⟨show CleanString [97] by decide, fun _ _ hkn => (nomatch hkn), fun _ hkn => (nomatch hkn),
    fun _ ha => nomatch ha⟩

end SniffDogSniff
