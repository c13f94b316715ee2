import SniffDogSniff.Base.Runs
import Mathlib.Algebra.GroupWithZero.Nat
import Mathlib.Algebra.Order.Group.Nat

/-!
# Tasks and their threads

A task calls `execute` over and over in a thread of its own, and looks at `running` between
the calls and while it waits.  Its owner starts it and stops it, and a stop joins the
thread; so does the destructor, which stops the task once more.

## Main definitions

* `SdsTask`, `SdsTask.Event`, `SdsTask.step` — a task with its threads, and what happens to it.
* `SdsTask.Admissible` — the owner makes one call after the other.
* `SdsTask.Balanced` — each stop has a start of its own.

## Main results

* `thread_ends` — **there is one thread at most, and it ends after a stop.**
* `never_undefined_iff` — **every join has a thread precisely where each stop has a start.**
-/

namespace SniffDogSniff

/-- Where a thread stands in `executeFunc`. -/
inductive SdsTask.Phase
  /-- In front of the test of `running`. -/
  | testing
  | executing
  /-- It waits for the delay to be over. -/
  | waiting
  | ended
  deriving DecidableEq

/-- `SdsTask`, with the threads that were created and not joined. -/
structure SdsTask where
  running : Bool
  threads : List SdsTask.Phase
  /-- The owner is in `pthread_join`. -/
  joining : Bool
  /-- It has joined a thread that there was not. -/
  undefined : Bool

namespace SdsTask

/-- The next part of `executeFunc`, with `running` as it is; `late` tells that the delay is
over. -/
def Phase.next (running late : Bool) : Phase → Phase
  | testing => if running then executing else ended
  | executing => waiting
  | waiting => if running && !late then waiting else testing
  | ended => ended

inductive Event
  | starts
  /-- The `i`-th thread goes on. -/
  | turns (i : ℕ) (late : Bool)
  /-- `stop` up to its join; the destructor does the same. -/
  | stops
  /-- The join returns. -/
  | joins

/-- One event, for a task with a thread of its own (`detach`, as both tasks of the node have it). -/
def step (s : SdsTask) : Event → SdsTask
  | .starts =>
      if s.running then s
      else { s with running := true, threads := s.threads ++ [.testing] }
  | .turns i late => { s with threads := s.threads.modify i (Phase.next s.running late) }
  | .stops =>
      { s with
        running := false
        joining := true
        undefined := s.undefined || s.threads.isEmpty }
  | .joins => { s with threads := s.threads.dropLast, joining := false }

/-- The owner calls nothing while it waits, and the last thread is joined when it has ended. -/
def Admissible (s : SdsTask) : Event → Prop
  | .starts | .stops => s.joining = false
  | .joins => s.joining = true ∧ s.threads.getLast? = some .ended
  | .turns _ _ => True

/-- A task that has not been started. -/
def new : SdsTask := ⟨false, [], false, false⟩

/-! ### One thread -/

/-- There is one thread at most, and none outside of a start and the stop behind it. -/
structure Single (s : SdsTask) : Prop where
  length_le : s.threads.length ≤ 1
  eq_nil : s.joining = false → s.running = false → s.threads = []
  ne_nil : s.running = true → s.threads ≠ []
  stopped : s.joining = true → s.running = false

variable {s : SdsTask}

theorem single_new : new.Single :=
  ⟨Nat.zero_le 1, fun _ _ => rfl, nofun, nofun⟩

theorem single_step (h : s.Single) {e : Event} (he : s.Admissible e) : (s.step e).Single := by
  cases e with
  | starts =>
    rw [step]
    split
    · exact h
    · next hrunning =>
      have hnil : s.threads = [] := h.eq_nil he (Bool.not_eq_true _ ▸ hrunning)
      rw [hnil]
      refine ⟨le_rfl, fun _ hfalse => (Bool.noConfusion hfalse), fun _ => List.cons_ne_nil _ _, ?_⟩
      intro hjoining
      rw [show s.joining = false from he] at hjoining
      cases hjoining
  | turns i late =>
    refine ⟨(List.length_modify _ _ _).trans_le h.length_le, fun hjoining hrunning => ?_,
      fun hrunning hnil => ?_, h.stopped⟩
    · show s.threads.modify i _ = []
      rw [h.eq_nil hjoining hrunning]
      exact List.modify_nil _ _
    · have hlength := congrArg List.length hnil
      rw [step, List.length_modify, List.length_nil] at hlength
      exact h.ne_nil hrunning (List.length_eq_zero_iff.mp hlength)
  | stops => exact ⟨h.length_le, fun hfalse => Bool.noConfusion hfalse, nofun, fun _ => rfl⟩
  | joins =>
    have hrunning : s.running = false := h.stopped he.1
    have hnil : s.threads.dropLast = [] := by
      rw [← List.length_eq_zero_iff, List.length_dropLast]
      exact Nat.sub_eq_zero_of_le h.length_le
    refine ⟨(congrArg List.length hnil).trans_le (Nat.zero_le 1), fun _ _ => hnil,
      fun htrue => ?_, nofun⟩
    rw [step, hrunning] at htrue
    cases htrue

theorem single_run {events : List Event} (hrun : Runs.Along step Admissible new events) :
    (Runs.run step new events).Single := by
  have hall : Runs.Always step Single new events :=
    Runs.always_of_along (fun _ _ hs he => single_step hs he) events new single_new hrun
  exact hall.last

/-! ### Stops -/

/-- The first thread goes on. -/
def Event.isTurn : Event → Bool
  | .turns 0 _ => true
  | _ => false

/-- The calls of `execute` that begin. -/
def begun (s : SdsTask) : Event → List ℕ
  | .turns i _ => if s.running && s.threads[i]? == some .testing then [i] else []
  | _ => []

/-- How many turns a thread takes to its end, once the task has been stopped. -/
def Phase.turnsLeft : Phase → ℕ
  | ended => 0
  | testing => 1
  | waiting => 2
  | executing => 3

def turnsLeft (s : SdsTask) : ℕ := (s.threads.map Phase.turnsLeft).sum

/-- The task is stopped, and has one thread at most. -/
structure Stopped (s : SdsTask) : Prop where
  running : s.running = false
  length_le : s.threads.length ≤ 1

theorem Stopped.threads_cases (h : s.Stopped) : s.threads = [] ∨ ∃ p, s.threads = [p] := by
  rcases Nat.le_one_iff_eq_zero_or_eq_one.mp h.length_le with hzero | hone
  · exact .inl (List.eq_nil_of_length_eq_zero hzero)
  · exact .inr (List.length_eq_one_iff.mp hone)

theorem Phase.turnsLeft_next (p : Phase) (late : Bool) :
    (p.next false late).turnsLeft = p.turnsLeft - 1 := by
  cases p <;> rfl

/-- What a turn comes to behind the stop. -/
theorem stopped_turn (h : s.Stopped) (i : ℕ) (late : Bool) :
    (s.step (.turns i late)).Stopped ∧
      (s.step (.turns i late)).turnsLeft ≤
        s.turnsLeft - (if (Event.turns i late).isTurn then 1 else 0) ∧
      (s.begun (.turns i late)).length = 0 := by
  refine ⟨⟨h.running, (List.length_modify _ _ _).trans_le h.length_le⟩, ?_, ?_⟩
  · rcases h.threads_cases with hnil | ⟨p, hone⟩
    · simp [step, turnsLeft, hnil]
    · -- only the first thread is there to go on
      cases i with
      | zero => simp [step, turnsLeft, Event.isTurn, hone, h.running, Phase.turnsLeft_next]
      | succ i => simp [step, turnsLeft, Event.isTurn, hone]
  · simp [begun, h.running]

theorem Phase.turnsLeft_le (p : Phase) : p.turnsLeft ≤ 3 := by
  cases p <;> decide

theorem Phase.eq_ended {p : Phase} (h : p.turnsLeft = 0) : p = ended := by
  cases p <;> first | rfl | cases h

theorem Stopped.turnsLeft_le (h : s.Stopped) : s.turnsLeft ≤ 3 := by
  rcases h.threads_cases with hnil | ⟨p, hone⟩
  · simp [turnsLeft, hnil]
  · simpa [turnsLeft, hone] using p.turnsLeft_le

/-- The thread has ended where it has no turns left. -/
theorem Stopped.eq_ended (h : s.Stopped) (hzero : s.turnsLeft = 0) :
    ∀ p ∈ s.threads, p = .ended := by
  intro p hp
  rcases h.threads_cases with hnil | ⟨q, hone⟩
  · rw [hnil] at hp
    cases hp
  · rw [turnsLeft, hone] at hzero
    rw [hone, List.mem_singleton] at hp
    rw [hp]
    exact Phase.eq_ended hzero

/-- **A stop comes to its end**: behind it, the one thread ends in three of its turns, and begins
no further call of `execute`. -/
theorem thread_ends {events later : List Event} (hrun : Runs.Along step Admissible new events)
    (hlater : ∀ e ∈ later, ∃ i late, e = .turns i late) (hturns : 3 ≤ later.countP Event.isTurn) :
    let stopped := (Runs.run step new events).step .stops
    (Runs.run step stopped later).threads.length ≤ 1 ∧
      (∀ p ∈ (Runs.run step stopped later).threads, p = .ended) ∧
        Runs.gather step begun stopped later = [] := by
  dsimp only
  have hsingle := single_run hrun
  generalize Runs.run step new events = s at hsingle
  have hstopped : (s.step .stops).Stopped := ⟨rfl, hsingle.length_le⟩
  have hstep : ∀ (s : SdsTask) (e : Event), (∃ i late, e = .turns i late) → s.Stopped →
      (s.step e).Stopped := by
    rintro s e ⟨i, late, rfl⟩ hs
    exact (stopped_turn hs i late).1
  have hend : (Runs.run step (s.step .stops) later).Stopped :=
    Runs.run_induction_of_mem hstep later hlater hstopped
  have hrank : (Runs.run step (s.step .stops) later).turnsLeft ≤
      (s.step .stops).turnsLeft - later.countP Event.isTurn := by
    refine Runs.rank_run hstep ?_ later hlater hstopped
    rintro s e ⟨i, late, rfl⟩ hs
    exact (stopped_turn hs i late).2.1
  have hbegun : (Runs.gather step begun (s.step .stops) later).length ≤ 0 := by
    refine @Runs.length_gather_le SdsTask Event step ℕ begun Stopped
      (fun e => ∃ i late, e = .turns i late) (fun _ => 0) hstep ?_ later _ hlater hstopped
    rintro s e ⟨i, late, rfl⟩ hs
    exact (stopped_turn hs i late).2.2.le
  have hthree := hstopped.turnsLeft_le
  have hzero : (Runs.run step (s.step .stops) later).turnsLeft = 0 := by omega
  exact ⟨hend.length_le, hend.eq_ended hzero,
    List.eq_nil_of_length_eq_zero (Nat.le_zero.mp hbegun)⟩

/-- A task that was started and stopped: its thread looks at `running` and ends. -/
theorem thread_ends_started :
    let stopped := (Runs.run step new [.starts, .turns 0 false]).step .stops
    let later : List Event := [.turns 0 false, .turns 0 false, .turns 0 true]
    (Runs.run step stopped later).threads.length ≤ 1 ∧
      (∀ p ∈ (Runs.run step stopped later).threads, p = .ended) ∧
        Runs.gather step begun stopped later = [] :=
  thread_ends ⟨rfl, trivial, trivial⟩
    (List.forall_mem_cons.mpr ⟨⟨0, false, rfl⟩, List.forall_mem_cons.mpr
      ⟨⟨0, false, rfl⟩, List.forall_mem_singleton.mpr ⟨0, true, rfl⟩⟩⟩)
    (Nat.le_refl 3)

/-! ### Joins -/

/-- Each stop has a start of its own, the first one if the task is not `started`. -/
def Balanced : Bool → List Event → Prop
  | _, [] => True
  | _, .starts :: es => Balanced true es
  | started, .stops :: es => started = true ∧ Balanced false es
  | started, .turns _ _ :: es => Balanced started es
  | started, .joins :: es => Balanced started es

/-- A stop finds a thread exactly where the task is running. -/
theorem undefined_stops_iff (h : s.Single) (hfree : s.joining = false)
    (hdefined : s.undefined = false) : (s.step .stops).undefined = false ↔ s.running = true := by
  have hempty : (s.step .stops).undefined = s.threads.isEmpty := by
    rw [step, hdefined]
    rfl
  rw [hempty]
  cases hrunning : s.running with
  | false =>
    rw [h.eq_nil hfree hrunning]
    exact iff_of_false (fun htrue => Bool.noConfusion htrue) fun hfalse => Bool.noConfusion hfalse
  | true =>
    refine iff_of_true ?_ rfl
    rw [List.isEmpty_eq_false_iff]
    exact h.ne_nil hrunning

theorem running_starts (s : SdsTask) : (s.step .starts).running = true := by
  rw [step]
  split
  · assumption
  · rfl

theorem undefined_starts (s : SdsTask) : (s.step .starts).undefined = s.undefined := by
  rw [step]
  split <;> rfl

/-- The condition for a task that may be running, by what is left of its owner's calls. -/
theorem always_defined_iff {events : List Event} (h : s.Single) (hdefined : s.undefined = false)
    (hrun : Runs.Along step Admissible s events) :
    Runs.Always step (fun s => s.undefined = false) s events ↔ Balanced s.running events := by
  induction events generalizing s with
  | nil => exact iff_of_true hdefined trivial
  | cons e events ih =>
    obtain ⟨he, hrest⟩ := hrun
    have hsingle := single_step h he
    rw [Runs.Always, and_iff_right hdefined]
    cases e with
    | starts =>
      have hsame : (s.step .starts).undefined = false := by rw [undefined_starts, hdefined]
      rw [ih hsingle hsame hrest, running_starts, Balanced]
    | turns i late => exact ih hsingle hdefined hrest
    | stops =>
      have hiff := undefined_stops_iff h he hdefined
      rw [Balanced]
      constructor
      · intro hall
        have hhead := hall.head
        exact ⟨hiff.mp hhead, (ih hsingle hhead hrest).mp hall⟩
      · rintro ⟨hrunning, hbalanced⟩
        exact (ih hsingle (hiff.mpr hrunning) hrest).mpr hbalanced
    | joins => exact ih hsingle hdefined hrest

/-- **No stop joins a thread that there is not exactly if each stop has a start of its own.** -/
theorem never_undefined_iff {events : List Event} (hrun : Runs.Along step Admissible new events) :
    Runs.Always step (fun s => s.undefined = false) new events ↔ Balanced false events :=
  always_defined_iff single_new rfl hrun

/-- A task that is stopped and then destroyed. -/
theorem never_undefined_iff_started :
    Runs.Always step (fun s => s.undefined = false) new
        [.starts, .stops, .turns 0 false, .joins, .stops] ↔
      Balanced false [.starts, .stops, .turns 0 false, .joins, .stops] :=
  never_undefined_iff ⟨rfl, rfl, trivial, ⟨rfl, rfl⟩, rfl, trivial⟩

/-- What `main` does with both tasks: it stops them in `shutdown`, and their destructors stop them
once more, with a join of a thread that was joined before. -/
example : ¬ Balanced false [.starts, .stops, .turns 0 false, .joins, .stops] :=
  fun h => Bool.noConfusion h.2.1

end SdsTask

end SniffDogSniff
