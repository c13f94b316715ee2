import Mathlib.Data.List.Forall2
import Mathlib.Data.Nat.Notation

/-!
# Runs of a state machine

A deterministic machine is a step function `σ → ε → σ`; a run is the fold of the
step over a list of events.  What has to hold along a run is either a property of
the states it goes through (`Always`) or a condition on each event in the state
in front of it (`Along`).

## Main definitions

* `run step s es` — the state after the events `es`.
* `Always step P s es` — `P` holds in every state of the run, first and last included.
* `Along step Ok s es` — every event meets `Ok` in the state in front of it.
* `gather step out s es` — what the events give, one after the other.

## Main results

* `run_induction` — an invariant of the step holds after every run.
* `always_iff_along`, `always_iff_along_of` — a property that a step keeps exactly when
  its event meets `Ok` holds all along a run exactly when every event of the run meets `Ok`.
* `along_of_along` — one condition on the events that brings another one along.
* `always_and_along_iff` — the same with a condition on the events next to it.
* `along_iff_along` — two conditions on the events that agree all along.
* `forall_along_iff` — events of which a part is not determined.
* `gather_fifo` — what is put into a queue is taken out of it in the same order.
* `rank_run` — a bound on the number of turns.
-/

namespace Runs

variable {σ ε : Type*} (step : σ → ε → σ)

/-- The state after a list of events. -/
def run (s : σ) (es : List ε) : σ := es.foldl step s

/-- `P` holds in every state of the run. -/
def Always (P : σ → Prop) : σ → List ε → Prop
  | s, [] => P s
  | s, e :: es => P s ∧ Always P (step s e) es

/-- Every event meets `Ok` in the state in front of it. -/
def Along (Ok : σ → ε → Prop) : σ → List ε → Prop
  | _, [] => True
  | s, e :: es => Ok s e ∧ Along Ok (step s e) es

variable {step}

@[simp] theorem run_nil (s : σ) : run step s [] = s := rfl

@[simp] theorem run_cons (s : σ) (e : ε) (es : List ε) :
    run step s (e :: es) = run step (step s e) es := rfl

/-- **An invariant of the step is an invariant of the run.** -/
theorem run_induction {P : σ → Prop} (hstep : ∀ s e, P s → P (step s e)) :
    ∀ (es : List ε) {s : σ}, P s → P (run step s es) := by
  intro es
  induction es with
  | nil => intro s hs; exact hs
  | cons e es ih => intro s hs; exact ih (hstep s e hs)

/-- An invariant of the steps over events of one kind. -/
theorem run_induction_of_mem {P : σ → Prop} {K : ε → Prop}
    (hstep : ∀ s e, K e → P s → P (step s e)) :
    ∀ (es : List ε) {s : σ}, (∀ e ∈ es, K e) → P s → P (run step s es) := by
  intro es
  induction es with
  | nil => intro s _ hs; exact hs
  | cons e es ih =>
    intro s hK hs
    exact ih (fun e' he' => hK e' (List.mem_cons_of_mem _ he'))
      (hstep s e (hK e List.mem_cons_self) hs)

theorem Always.head {P : σ → Prop} {s : σ} {es : List ε} (h : Always step P s es) : P s := by
  cases es with
  | nil => exact h
  | cons e es => exact h.1

theorem Always.last {P : σ → Prop} :
    ∀ {es : List ε} {s : σ}, Always step P s es → P (run step s es) := by
  intro es
  induction es with
  | nil => exact fun h => h
  | cons e es ih => exact fun h => ih h.2

theorem Always.mono {P Q : σ → Prop} (hPQ : ∀ s, P s → Q s) :
    ∀ {es : List ε} {s : σ}, Always step P s es → Always step Q s es := by
  intro es
  induction es with
  | nil => exact fun h => hPQ _ h
  | cons e es ih => exact fun ⟨h, hs⟩ => ⟨hPQ _ h, ih hs⟩

/-- A property that every step keeps whose event meets `Ok`. -/
theorem always_of_along {P : σ → Prop} {Ok : σ → ε → Prop}
    (hstep : ∀ s e, P s → Ok s e → P (step s e)) :
    ∀ (es : List ε) (s : σ), P s → Along step Ok s es → Always step P s es := by
  intro es
  induction es with
  | nil => exact fun s hs _ => hs
  | cons e es ih => exact fun s hs ⟨hok, h⟩ => ⟨hs, ih _ (hstep s e hs hok) h⟩

/-- What every step does whose event meets `Ok`, in states that satisfy an invariant which
these steps keep. -/
theorem along_of_along {Inv : σ → Prop} {Ok Good : σ → ε → Prop}
    (hinv : ∀ s e, Inv s → Ok s e → Inv (step s e))
    (hgood : ∀ s e, Inv s → Ok s e → Good s e) :
    ∀ (es : List ε) (s : σ), Inv s → Along step Ok s es → Along step Good s es := by
  intro es
  induction es with
  | nil => exact fun s _ _ => trivial
  | cons e es ih => exact fun s hs ⟨hok, h⟩ => ⟨hgood s e hs hok, ih _ (hinv s e hs hok) h⟩

/-- **A property kept exactly by the steps that meet `Ok`**, among events that meet `In`: it
holds all along a run exactly when every event of the run meets `Ok`.  The invariant `Inv` is
needed only as long as the events do. -/
theorem always_iff_along_of {Inv P : σ → Prop} {In Ok : σ → ε → Prop}
    (hinv : ∀ s e, Inv s → P s → In s e → Ok s e → Inv (step s e))
    (hstep : ∀ s e, Inv s → P s → In s e → (P (step s e) ↔ Ok s e)) :
    ∀ (es : List ε) (s : σ), Inv s → P s → Along step In s es →
      (Always step P s es ↔ Along step Ok s es) := by
  intro es
  induction es with
  | nil =>
    intro s _ hP _
    exact ⟨fun _ => trivial, fun _ => hP⟩
  | cons e es ih =>
    rintro s hs hP ⟨hin, hins⟩
    constructor
    -- `P` holds behind the first event, so that event met `Ok`
    · rintro ⟨-, h⟩
      have hok : Ok s e := (hstep s e hs hP hin).mp h.head
      exact ⟨hok, (ih _ (hinv s e hs hP hin hok) ((hstep s e hs hP hin).mpr hok) hins).mp h⟩
    · rintro ⟨hok, h⟩
      have hP' : P (step s e) := (hstep s e hs hP hin).mpr hok
      exact ⟨hP, (ih _ (hinv s e hs hP hin hok) hP' hins).mpr h⟩

/-- Every event of the run is an event of the run. -/
theorem along_and_mem {Ok : σ → ε → Prop} {es : List ε} {s : σ} (h : Along step Ok s es) :
    Along step (fun s e => Ok s e ∧ e ∈ es) s es := by
  have hsub : ∀ {es' : List ε} {s : σ}, es' ⊆ es → Along step Ok s es' →
      Along step (fun s e => Ok s e ∧ e ∈ es) s es' := by
    intro es'
    induction es' with
    | nil => exact fun _ _ => trivial
    | cons e es' ih =>
      rintro s hsub ⟨hok, h⟩
      exact ⟨⟨hok, hsub List.mem_cons_self⟩,
        ih (fun _ he => hsub (List.mem_cons_of_mem _ he)) h⟩
  exact hsub (List.Subset.refl es) h

theorem along_true (es : List ε) (s : σ) : Along step (fun _ _ => True) s es := by
  induction es generalizing s with
  | nil => trivial
  | cons e es ih => exact ⟨trivial, ih _⟩

/-- The same over all events, with an invariant of every step. -/
theorem always_iff_along {Inv P : σ → Prop} {Ok : σ → ε → Prop}
    (hinv : ∀ s e, Inv s → Inv (step s e))
    (hstep : ∀ s e, Inv s → P s → (P (step s e) ↔ Ok s e))
    (es : List ε) (s : σ) (hs : Inv s) (hP : P s) :
    Always step P s es ↔ Along step Ok s es :=
  always_iff_along_of (fun s e hs _ _ _ => hinv s e hs) (fun s e hs hP _ => hstep s e hs hP) es s
    hs hP (along_true es s)

/-- **Two conditions, on the states and on the events**, that together are met by exactly
the events that meet `Ok`. -/
theorem always_and_along_iff {P : σ → Prop} {Q Ok : σ → ε → Prop}
    (hstep : ∀ s e, P s → (P (step s e) ∧ Q s e ↔ Ok s e)) :
    ∀ (es : List ε) (s : σ), P s →
      (Always step P s es ∧ Along step Q s es ↔ Along step Ok s es) := by
  intro es
  induction es with
  | nil =>
    intro s hP
    exact ⟨fun _ => trivial, fun _ => ⟨hP, trivial⟩⟩
  | cons e es ih =>
    intro s hP
    constructor
    · rintro ⟨⟨-, hP'⟩, hQ, hQ'⟩
      exact ⟨(hstep s e hP).mp ⟨hP'.head, hQ⟩, (ih _ hP'.head).mp ⟨hP', hQ'⟩⟩
    · rintro ⟨hok, h⟩
      obtain ⟨hP', hQ⟩ := (hstep s e hP).mpr hok
      obtain ⟨halways, halong⟩ := (ih _ hP').mpr h
      exact ⟨⟨hP, halways⟩, hQ, halong⟩

/-- **Two conditions on the events that agree**, for events that meet a third one, in
states with an invariant that the second one keeps. -/
theorem along_iff_along {P : σ → Prop} {In Good Ok : σ → ε → Prop}
    (hiff : ∀ s e, P s → In s e → (Good s e ↔ Ok s e))
    (hinv : ∀ s e, P s → In s e → Ok s e → P (step s e)) :
    ∀ (es : List ε) (s : σ), P s → Along step In s es →
      (Along step Good s es ↔ Along step Ok s es) := by
  intro es
  induction es with
  | nil => exact fun s _ _ => Iff.rfl
  | cons e es ih =>
    rintro s hs ⟨hin, hins⟩
    constructor
    · rintro ⟨hgood, h⟩
      have hok : Ok s e := (hiff s e hs hin).mp hgood
      exact ⟨hok, (ih _ (hinv s e hs hin hok) hins).mp h⟩
    · rintro ⟨hok, h⟩
      exact ⟨(hiff s e hs hin).mpr hok, (ih _ (hinv s e hs hin hok) hins).mpr h⟩

theorem Along.mono {Ok Ok' : σ → ε → Prop} (hOk : ∀ s e, Ok s e → Ok' s e) :
    ∀ {es : List ε} {s : σ}, Along step Ok s es → Along step Ok' s es := by
  intro es
  induction es with
  | nil => exact fun _ => trivial
  | cons e es ih => exact fun ⟨hok, h⟩ => ⟨hOk _ _ hok, ih h⟩

/-- One more condition, on the events alone. -/
theorem Along.and_of_forall_mem {Ok : σ → ε → Prop} {K : ε → Prop} :
    ∀ {es : List ε} {s : σ}, Along step Ok s es → (∀ e ∈ es, K e) →
      Along step (fun s e => Ok s e ∧ K e) s es := by
  intro es
  induction es with
  | nil => exact fun _ _ => trivial
  | cons e es ih =>
    exact fun ⟨hok, h⟩ hK =>
      ⟨⟨hok, hK e List.mem_cons_self⟩, ih h fun e' he' => hK e' (List.mem_cons_of_mem _ he')⟩

theorem along_of_forall_mem {K : ε → Prop} {es : List ε} (h : ∀ e ∈ es, K e) (s : σ) :
    Along step (fun _ e => K e) s es := by
  induction es generalizing s with
  | nil => trivial
  | cons e es ih =>
    exact ⟨h e List.mem_cons_self, ih (fun e' he' => h e' (List.mem_cons_of_mem _ he')) _⟩

/-- **Events of which a part is not determined**: `Like` says which events one may turn out to
be.  Where `Ok` is what makes all of them good, and they then have the same effect, all runs
are good exactly if the events of one of them meet `Ok`. -/
theorem forall_along_iff {P : σ → Prop} {I Good Ok : σ → ε → Prop} {Like : ε → ε → Prop}
    (hrefl : ∀ e, Like e e)
    (hstep : ∀ s e, P s → I s e → ((∀ e', Like e e' → Good s e') ↔ Ok s e))
    (hsame : ∀ s e e', P s → Ok s e → Like e e' → step s e' = step s e)
    (hinv : ∀ s e, P s → I s e → Ok s e → P (step s e)) :
    ∀ (es : List ε) (s : σ), P s → Along step I s es →
      ((∀ es', List.Forall₂ Like es es' → Along step Good s es') ↔ Along step Ok s es) := by
  intro es
  induction es with
  | nil =>
    intro s _ _
    refine iff_of_true (fun es' hes' => ?_) trivial
    rw [List.forall₂_nil_left_iff.mp hes']
    trivial
  | cons e es ih =>
    rintro s hs ⟨hin, hins⟩
    constructor
    · intro h
      have hes : List.Forall₂ Like es es := List.forall₂_same.mpr fun e _ => hrefl e
      have hok : Ok s e := (hstep s e hs hin).mp fun e' he' => (h (e' :: es) (.cons he' hes)).1
      refine ⟨hok, (ih _ (hinv s e hs hin hok) hins).mp fun es' hes' => ?_⟩
      exact (h (e :: es') (.cons (hrefl e) hes')).2
    · rintro ⟨hok, hoks⟩ es' hes'
      obtain ⟨e', es'', he', hes'', rfl⟩ := List.forall₂_cons_left_iff.mp hes'
      refine ⟨(hstep s e hs hin).mpr hok e' he', ?_⟩
      rw [hsame s e e' hs hok he']
      exact (ih _ (hinv s e hs hin hok) hins).mpr hoks es'' hes''

/-! ### What comes out of a run -/

/-- What the events of a run give, in their order. -/
def gather (step : σ → ε → σ) {α : Type*} (out : σ → ε → List α) : σ → List ε → List α
  | _, [] => []
  | s, e :: es => out s e ++ gather step out (step s e) es

/-- **First in, first out**: where every event takes from the front and puts behind, all that
has been put is what has been taken and what is left. -/
theorem gather_fifo {α : Type*} {pending : σ → List α} {put taken : σ → ε → List α}
    {Ok : σ → ε → Prop}
    (h : ∀ s e, Ok s e → taken s e ++ pending (step s e) = pending s ++ put s e) :
    ∀ (es : List ε) (s : σ), Along step Ok s es →
      gather step taken s es ++ pending (run step s es) = pending s ++ gather step put s es := by
  intro es
  induction es with
  | nil =>
    intro s _
    exact (List.append_nil _).symm
  | cons e es ih =>
    intro s hrun
    rw [gather, gather, run_cons, List.append_assoc, ih _ hrun.2, ← List.append_assoc, h s e hrun.1,
      List.append_assoc]

/-- **A rank goes down with every turn**, whatever comes between the turns. -/
theorem rank_run {P : σ → Prop} {K : ε → Prop} {rank : σ → ℕ} {turn : ε → Bool}
    (hstep : ∀ s e, K e → P s → P (step s e))
    (hrank : ∀ s e, K e → P s → rank (step s e) ≤ rank s - if turn e then 1 else 0) :
    ∀ (es : List ε) {s : σ}, (∀ e ∈ es, K e) → P s →
      rank (run step s es) ≤ rank s - es.countP turn := by
  intro es
  induction es with
  | nil => intro s _ _; exact Nat.le_refl _
  | cons e es ih =>
    intro s hK hs
    have he := hK e List.mem_cons_self
    have hrest := ih (fun e' he' => hK e' (List.mem_cons_of_mem _ he')) (hstep s e he hs)
    have hfirst := hrank s e he hs
    rw [run_cons, List.countP_cons]
    omega

/-- A bound on how much comes out. -/
theorem length_gather_le {α : Type*} {out : σ → ε → List α} {P : σ → Prop} {K : ε → Prop}
    {rank : σ → ℕ} (hstep : ∀ s e, K e → P s → P (step s e))
    (hrank : ∀ s e, K e → P s → (out s e).length + rank (step s e) ≤ rank s) :
    ∀ (es : List ε) {s : σ}, (∀ e ∈ es, K e) → P s → (gather step out s es).length ≤ rank s := by
  intro es
  induction es with
  | nil => intro s _ _; exact Nat.zero_le _
  | cons e es ih =>
    intro s hK hs
    have he := hK e List.mem_cons_self
    have hrest := ih (fun e' he' => hK e' (List.mem_cons_of_mem _ he')) (hstep s e he hs)
    have hfirst := hrank s e he hs
    rw [gather, List.length_append]
    omega

end Runs
