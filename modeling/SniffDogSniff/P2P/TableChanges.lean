import SniffDogSniff.P2P.Bindings

/-!
# Changes of the tables

In a network, a table is changed by nothing but the ends of the tasks of its node, and
these push nodes and remove them.  What pushes and removals keep is kept by all that
happens.

## Main results

* `kept_step` — **it is kept by all that happens in a network.**
-/

namespace SniffDogSniff

open SdsBytesBuf

section

variable [Hashing] {db : LookupDB} {Q : KadRoutingTable → Prop}

namespace NetNode

variable {x : NetNode db}

/-- A part of a task that leaves the table and the threads alone. -/
theorem ktable_perform {ε α : Type} {m : Prog ε (LocalNode db.toBerkeleyDB) α}
    {next : α → List Activity}
    (h : Prog.Leaves m x.node (fun _ n => x.node.Alike n) fun n => x.node.Alike n) :
    (x.perform m next).node.ktable = x.node.ktable := by
  refine perform_induction (Q := fun y => y.node.ktable = x.node.ktable) rfl (fun _ hy => hy) ?_
  exact h.mono (fun _ _ hn => hn.1) fun _ hn => hn.1

theorem ktable_checks (k : ℕ) : (x.checks k).node.ktable = x.node.ktable := by
  rw [checks]
  split <;> rfl

/-- **Serving a call does not change the table.** -/
theorem ktable_serves {c : Call} (hc : c.Sendable) (hclean : c.SentCleanly) {net : Network}
    {cenv : ClientEnv} {senv : ServerEnv} (hsize : (c.args cenv).encode.length < 2 ^ 64) :
    (NetState.serves x c net cenv senv).node.ktable = x.node.ktable := by
  rw [NetState.serves, sent_connect hc]
  have hchanged : ∀ n, Changed x.node c n → n.ktable = x.node.ktable := by
    intro n hn
    cases hn <;> rfl
  generalize hm : SdsP2PServer.handleRequest senv
    (net.deliver MessageRequestHeader.word.width (c.request cenv)) = m
  refine perform_induction (Q := fun y => y.node.ktable = x.node.ktable) rfl (fun _ hy => hy) ?_
  exact (leaves_handleRequest hclean hsize hm x.node).mono (fun _ n hn => hchanged n hn) hchanged

theorem kept_ends (hQ : KadRoutingTable.Kept Q) (std : StdSort) (k : ℕ) (how : TaskEnd)
    (hx : Q x.node.ktable) : Q (x.ends std k how).node.ktable := by
  rw [ends]
  split
  · next task htask =>
    split
    · exact hx
    · split
      · exact hx
      · next r hr => exact hQ.kept_ending (Task.ending_cases hr) hx
  · exact hx

end NetNode

namespace NetState

variable {ι : Type} [DecidableEq ι] {s : NetState ι db} {P : KadId → Bytes → Prop}

theorem kept_onNode {i j : ι} {f : NetNode db → NetNode db} (hi : Q (s.nodes i).node.ktable)
    (hf : Q (s.nodes j).node.ktable → Q (f (s.nodes j)).node.ktable) :
    Q ((s.onNode j f).nodes i).node.ktable := by
  rw [onNode]
  split
  · by_cases hij : i = j
    · subst hij
      simp only [Function.update_self]
      exact hf hi
    · simp only [Function.update_of_ne hij]
      exact hi
  · exact hi

/-- A change of a node that leaves the table alone. -/
theorem kept_of_eq {i j : ι} {f : NetNode db → NetNode db} (hi : Q (s.nodes i).node.ktable)
    (hf : (f (s.nodes j)).node.ktable = (s.nodes j).node.ktable) :
    Q ((s.onNode j f).nodes i).node.ktable :=
  kept_onNode hi fun hj => hf ▸ hj

/-- **What pushes and removals keep is kept by all that happens in a network.** -/
theorem kept_step (hQ : KadRoutingTable.Kept Q)
    (hP : ∀ id address, P id address → CleanString address) (h : s.Within P) {e : NetEvent ι}
    (he : s.Admissible e) {i : ι} (hi : Q (s.nodes i).node.ktable) :
    Q ((s.step e).nodes i).node.ktable := by
  cases e with
  | exchange j k c j' net cenv senv =>
    rw [step]
    split
    · by_cases hij : i = j'
      · subst hij
        simp only [Function.update_self]
        rw [NetNode.ktable_serves (sendable_of_admissible he) (h.sentCleanly hP he) he.2.1]
        exact hi
      · simp only [Function.update_of_ne hij]
        exact hi
    · exact hi
  | checks j k =>
    rw [step]
    exact kept_of_eq hi (NetNode.ktable_checks k)
  | beginLookup j std targetId =>
    rw [step]
    refine kept_of_eq hi (NetNode.ktable_perform ?_)
    rw [Prog.leaves_bind]
    exact LocalNode.leaves_lock ⟨rfl, rfl⟩
  | broadcast j sur crawled =>
    rw [step]
    refine kept_of_eq hi (NetNode.ktable_perform ?_)
    exact (EntriesPublishTask.leaves_broadcast sur crawled _).mono (fun _ _ hn => hn.1)
      fun _ hn => hn.1
  | beginPublish j k env =>
    rw [step]
    refine kept_of_eq hi ?_
    split
    · next results hresults =>
      split
      · rfl
      · refine NetNode.ktable_perform ?_
        exact (EntriesPublishTask.leaves_beginPublish env results _).mono (fun _ _ hn => hn.1.1)
          fun _ hn => hn.1
    · rfl
  | beginSearch j env query =>
    rw [step]
    refine kept_of_eq hi (NetNode.ktable_perform ?_)
    exact (LocalNode.leaves_beginSearch env query _).mono (fun _ _ hn => hn.1) fun _ hn => hn.1
  | ends j k std how =>
    rw [step]
    exact kept_onNode hi (NetNode.kept_ends hQ std k how)
  | finishes j k =>
    rw [step]
    refine kept_of_eq hi ?_
    split <;> rfl
  | inserts j sur se =>
    rw [step]
    refine kept_of_eq hi (NetNode.ktable_perform ?_)
    rw [Prog.leaves_tryCatch fun _ => (), Prog.leaves_bind]
    exact (LocalNode.leaves_storeResult sur se _).mono (fun _ _ hn => hn.1) fun _ hn => hn.1

end NetState

end

end SniffDogSniff
