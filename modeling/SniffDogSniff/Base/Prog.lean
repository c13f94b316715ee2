import Mathlib.Tactic.Common

/-!
# Programs with exceptions

A program works on a state, may note events on the way, and ends in one of
several ways: it returns, it throws, or it does not get to an end at all, because
the process dies, because the language does not say what happens, or because it
waits or runs for ever.

`Post` is what holds at the two regular ends, of a program that does not wait or
run for ever.  Nothing is asked where the process dies or the behaviour is
undefined.

## Main definitions

* `Outcome`, `Prog` — the ends, and the programs, a monad.
* `Prog.events`, `Prog.outcome` — the two parts of a run.
* `Prog.tryCatch`, `Prog.zoom` — catching an exception, and running a program on a
  part of the state.
* `Prog.relabel` — other names for the events.
* `Prog.Post` — the condition at the regular ends.
* `Prog.Ends` — the same, and the program does come to one of them.
* `Prog.Returns` — the condition where the program returns.
* `Prog.Leaves` — the condition where it leaves a state behind.
* `Prog.Yields` — the condition on the value, where there is one.
* `Prog.Guarded` — the condition on an event behind those in front of it.
* `Prog.Notes` — the condition on all events; `Prog.Silent` where there are none.

## Main results

* `post_bind`, `post_zoom`, `post_tryCatch` — the rules, all of them exact; so are
  `ends_bind`, `ends_zoom`, `ends_tryCatch`, `returns_bind`, `returns_zoom`, `leaves_bind`,
  `leaves_zoom` and `leaves_tryCatch`.
-/

/-- How a program ends. -/
inductive Outcome (σ α : Type)
  | returned (a : α) (s : σ)
  | threw (what : String) (s : σ)
  /-- The process is gone. -/
  | aborted
  /-- The behaviour is undefined. -/
  | undefined
  /-- It waits or runs for ever. -/
  | stuck

/-- The end is not a return. -/
def Outcome.Fails {σ α : Type} : Outcome σ α → Prop
  | returned _ _ => False
  | _ => True

theorem Outcome.returned_or_fails {σ α : Type} (o : Outcome σ α) :
    (∃ a s, o = returned a s) ∨ o.Fails := by
  cases o with
  | returned a s => exact Or.inl ⟨a, s, rfl⟩
  | threw what s => exact Or.inr trivial
  | aborted => exact Or.inr trivial
  | undefined => exact Or.inr trivial
  | stuck => exact Or.inr trivial

/-- A program on a state of type `σ` that notes events of type `ε`. -/
def Prog (ε σ α : Type) : Type := σ → List ε × Outcome σ α

namespace Prog

variable {ε σ τ α β : Type}

/-- The events that a run from `s` notes. -/
def events (m : Prog ε σ α) (s : σ) : List ε := (m s).1

/-- The end of a run from `s`. -/
def outcome (m : Prog ε σ α) (s : σ) : Outcome σ α := (m s).2

/-- Go on from a return. -/
def andThen (r : List ε × Outcome σ α) (f : α → Prog ε σ β) : List ε × Outcome σ β :=
  match r with
  | (es, .returned a s) => (es ++ (f a s).1, (f a s).2)
  | (es, .threw what s) => (es, .threw what s)
  | (es, .aborted) => (es, .aborted)
  | (es, .undefined) => (es, .undefined)
  | (es, .stuck) => (es, .stuck)

instance : Monad (Prog ε σ) where
  pure a := fun s => ([], .returned a s)
  bind m f := fun s => andThen (m s) f

theorem andThen_pure (r : List ε × Outcome σ α) : andThen r (fun a => pure (id a)) = r := by
  rcases r with ⟨es, o⟩
  cases o with
  | returned a s => exact Prod.ext (List.append_nil es) rfl
  | threw what s => rfl
  | aborted => rfl
  | undefined => rfl
  | stuck => rfl

theorem andThen_andThen {γ : Type} (r : List ε × Outcome σ α) (f : α → Prog ε σ β)
    (g : β → Prog ε σ γ) :
    andThen (andThen r f) g = andThen r fun a s => andThen (f a s) g := by
  rcases r with ⟨es, o⟩
  cases o with
  | returned a s =>
    simp only [andThen]
    rcases f a s with ⟨es', o'⟩
    cases o' with
    | returned b s' => exact Prod.ext (List.append_assoc es es' _) rfl
    | threw what s' => rfl
    | aborted => rfl
    | undefined => rfl
    | stuck => rfl
  | threw what s => rfl
  | aborted => rfl
  | undefined => rfl
  | stuck => rfl

instance : LawfulMonad (Prog ε σ) :=
  LawfulMonad.mk' _ (fun m => funext fun s => andThen_pure (m s)) (fun _ _ => rfl)
    fun m f g => funext fun s => andThen_andThen (m s) f g

/-- The state. -/
def get : Prog ε σ σ := fun s => ([], .returned s s)

/-- Change the state. -/
def modify (f : σ → σ) : Prog ε σ Unit := fun s => ([], .returned () (f s))

/-- Note an event. -/
def note (e : ε) : Prog ε σ Unit := fun s => ([e], .returned () s)

/-- Note several events. -/
def noteAll (es : List ε) : Prog ε σ Unit := fun s => (es, .returned () s)

/-- Throw a `runtime_error` with a text. -/
def throw (what : String) : Prog ε σ α := fun s => ([], .threw what s)

/-- The process dies. -/
def abort : Prog ε σ α := fun _ => ([], .aborted)

/-- The language does not say what happens. -/
def undefined : Prog ε σ α := fun _ => ([], .undefined)

/-- Wait or run for ever. -/
def stuck : Prog ε σ α := fun _ => ([], .stuck)

/-- Go on with the value, if there is one. -/
def ofOption (o : Option α) (otherwise : Prog ε σ α) : Prog ε σ α :=
  match o with
  | some a => pure a
  | none => otherwise

/-- Run `handler` where `m` throws. -/
def tryCatch (m : Prog ε σ α) (handler : String → Prog ε σ α) : Prog ε σ α := fun s =>
  match m s with
  | (es, .threw what s) => (es ++ (handler what s).1, (handler what s).2)
  | r => r

/-- Run a program on the part of the state that `part` reads and `put` writes. -/
def zoom (part : σ → τ) (put : τ → σ → σ) (m : Prog ε τ α) : Prog ε σ α := fun s =>
  match m (part s) with
  | (es, .returned a t) => (es, .returned a (put t s))
  | (es, .threw what t) => (es, .threw what (put t s))
  | (es, .aborted) => (es, .aborted)
  | (es, .undefined) => (es, .undefined)
  | (es, .stuck) => (es, .stuck)

/-- The same program, with its events under other names. -/
def relabel {δ : Type} (f : ε → δ) (m : Prog ε σ α) : Prog δ σ α := fun s =>
  ((m s).1.map f, (m s).2)

/-- The program does not wait or run for ever; `R` holds where it returns, `E`
where it throws. -/
def Post (m : Prog ε σ α) (s : σ) (R : α → σ → Prop) (E : σ → Prop) : Prop :=
  match m.outcome s with
  | .returned a s => R a s
  | .threw _ s => E s
  | .aborted => True
  | .undefined => True
  | .stuck => False

variable {m : Prog ε σ α} {f : α → Prog ε σ β} {s : σ} {E : σ → Prop}

/-- The state at both regular ends. -/
abbrev PostState (m : Prog ε σ α) (s : σ) (P : σ → Prop) : Prop := Post m s (fun _ => P) P

@[simp] theorem post_pure (a : α) {R : α → σ → Prop} :
    Post (pure a : Prog ε σ α) s R E ↔ R a s := Iff.rfl

@[simp] theorem post_get {R : σ → σ → Prop} : Post (get : Prog ε σ σ) s R E ↔ R s s := Iff.rfl

@[simp] theorem post_modify (g : σ → σ) {R : Unit → σ → Prop} :
    Post (modify g : Prog ε σ Unit) s R E ↔ R () (g s) := Iff.rfl

@[simp] theorem post_note (e : ε) {R : Unit → σ → Prop} : Post (note e) s R E ↔ R () s := Iff.rfl

@[simp] theorem post_throw (what : String) {R : α → σ → Prop} :
    Post (throw what : Prog ε σ α) s R E ↔ E s := Iff.rfl

@[simp] theorem post_abort {R : α → σ → Prop} : Post (abort : Prog ε σ α) s R E ↔ True := Iff.rfl

@[simp] theorem post_undefined {R : α → σ → Prop} :
    Post (undefined : Prog ε σ α) s R E ↔ True := Iff.rfl

@[simp] theorem post_stuck {R : α → σ → Prop} : Post (stuck : Prog ε σ α) s R E ↔ False := Iff.rfl

/-- **The rule for sequences.** -/
theorem post_bind {R : β → σ → Prop} :
    Post (m >>= f) s R E ↔ Post m s (fun a s' => Post (f a) s' R E) E := by
  show Post (fun s => andThen (m s) f) s R E ↔ _
  simp only [Post, outcome]
  rcases hm : m s with ⟨es, o⟩
  cases o <;> rfl

/-- **The rule for a part of the state.** -/
theorem post_zoom {part : τ → σ} {put : σ → τ → τ} {t : τ} {R : α → τ → Prop} {E : τ → Prop} :
    Post (zoom part put m) t R E ↔
      Post m (part t) (fun a s' => R a (put s' t)) (fun s' => E (put s' t)) := by
  simp only [Post, outcome, zoom]
  rcases hm : m (part t) with ⟨es, o⟩
  cases o <;> rfl

/-- **The rule for a handler** that returns in any case: for a condition on the
state alone, it makes no difference. -/
theorem post_tryCatch (g : String → α) {P : σ → Prop} :
    PostState (tryCatch m fun what => pure (g what)) s P ↔ PostState m s P := by
  simp only [PostState, Post, outcome, tryCatch]
  rcases hm : m s with ⟨es, o⟩
  cases o <;> rfl

/-- A weaker condition. -/
theorem Post.mono {R R' : α → σ → Prop} {E E' : σ → Prop} (h : Post m s R E)
    (hR : ∀ a s', R a s' → R' a s') (hE : ∀ s', E s' → E' s') : Post m s R' E' := by
  unfold Post at h ⊢
  split at h
  · exact hR _ _ h
  · exact hE _ h
  · trivial
  · trivial
  · exact h

/-- The program comes to a regular end; `R` holds where it returns, `E` where it
throws. -/
def Ends (m : Prog ε σ α) (s : σ) (R : α → σ → Prop) (E : σ → Prop) : Prop :=
  match m.outcome s with
  | .returned a s => R a s
  | .threw _ s => E s
  | .aborted => False
  | .undefined => False
  | .stuck => False

@[simp] theorem ends_pure (a : α) {R : α → σ → Prop} :
    Ends (pure a : Prog ε σ α) s R E ↔ R a s := Iff.rfl

@[simp] theorem ends_get {R : σ → σ → Prop} : Ends (get : Prog ε σ σ) s R E ↔ R s s := Iff.rfl

@[simp] theorem ends_modify (g : σ → σ) {R : Unit → σ → Prop} :
    Ends (modify g : Prog ε σ Unit) s R E ↔ R () (g s) := Iff.rfl

@[simp] theorem ends_note (e : ε) {R : Unit → σ → Prop} : Ends (note e) s R E ↔ R () s := Iff.rfl

/-- **The rule for sequences.** -/
theorem ends_bind {R : β → σ → Prop} :
    Ends (m >>= f) s R E ↔ Ends m s (fun a s' => Ends (f a) s' R E) E := by
  show Ends (fun s => andThen (m s) f) s R E ↔ _
  simp only [Ends, outcome]
  rcases hm : m s with ⟨es, o⟩
  cases o <;> rfl

/-- **The rule for a part of the state.** -/
theorem ends_zoom {part : τ → σ} {put : σ → τ → τ} {t : τ} {R : α → τ → Prop} {E : τ → Prop} :
    Ends (zoom part put m) t R E ↔
      Ends m (part t) (fun a s' => R a (put s' t)) (fun s' => E (put s' t)) := by
  simp only [Ends, outcome, zoom]
  rcases hm : m (part t) with ⟨es, o⟩
  cases o <;> rfl

/-- **The rule for a handler** that returns in any case. -/
theorem ends_tryCatch (g : String → α) :
    Ends (tryCatch m fun what => pure (g what)) s (fun _ _ => True) E ↔
      Ends m s (fun _ _ => True) fun _ => True := by
  simp only [Ends, outcome, tryCatch]
  rcases hm : m s with ⟨es, o⟩
  cases o <;> rfl

/-- **The rule for a part with other events.** -/
theorem ends_relabel {δ : Type} {g : ε → δ} {R : α → σ → Prop} :
    Ends (relabel g m) s R E ↔ Ends m s R E := by
  simp only [Ends, outcome, relabel]

theorem Ends.mono {R R' : α → σ → Prop} {E E' : σ → Prop} (h : Ends m s R E)
    (hR : ∀ a s, R a s → R' a s) (hE : ∀ s, E s → E' s) : Ends m s R' E' := by
  rw [Ends] at h ⊢
  split at h
  · exact hR _ _ h
  · exact hE _ h
  all_goals exact h

/-- What comes to a regular end is defined. -/
theorem Ends.ne_undefined {R : α → σ → Prop} (h : Ends m s R E) : m.outcome s ≠ .undefined := by
  intro hundefined
  rw [Ends, hundefined] at h
  exact h

/-- The end of a program that always returns. -/
theorem ends_true_iff : Ends m s (fun _ _ => True) (fun _ => False) ↔
    ∃ a s', m.outcome s = .returned a s' := by
  rw [Ends]
  cases m.outcome s with
  | returned a s' => exact iff_of_true trivial ⟨a, s', rfl⟩
  | threw what s' => exact iff_of_false id fun ⟨_, _, h⟩ => (nomatch h)
  | aborted => exact iff_of_false id fun ⟨_, _, h⟩ => (nomatch h)
  | undefined => exact iff_of_false id fun ⟨_, _, h⟩ => (nomatch h)
  | stuck => exact iff_of_false id fun ⟨_, _, h⟩ => (nomatch h)

/-! ### Returns -/

/-- `R` holds where the program returns; nothing is asked at the other ends. -/
def Returns (m : Prog ε σ α) (s : σ) (R : α → σ → Prop) : Prop :=
  match m.outcome s with
  | .returned a s => R a s
  | _ => True

@[simp] theorem returns_get {R : σ → σ → Prop} : Returns (get : Prog ε σ σ) s R ↔ R s s := Iff.rfl

@[simp] theorem returns_modify (g : σ → σ) {R : Unit → σ → Prop} :
    Returns (modify g : Prog ε σ Unit) s R ↔ R () (g s) := Iff.rfl

@[simp] theorem returns_note (e : ε) {R : Unit → σ → Prop} :
    Returns (note e) s R ↔ R () s := Iff.rfl

theorem returns_stuck {R : α → σ → Prop} : Returns (stuck : Prog ε σ α) s R := trivial

/-- **The rule for sequences.** -/
theorem returns_bind {R : β → σ → Prop} :
    Returns (m >>= f) s R ↔ Returns m s fun a s' => Returns (f a) s' R := by
  show Returns (fun s => andThen (m s) f) s R ↔ _
  simp only [Returns, outcome]
  rcases hm : m s with ⟨es, o⟩
  cases o <;> rfl

/-- **The rule for a part of the state.** -/
theorem returns_zoom {part : τ → σ} {put : σ → τ → τ} {t : τ} {R : α → τ → Prop} :
    Returns (zoom part put m) t R ↔ Returns m (part t) fun a s' => R a (put s' t) := by
  simp only [Returns, outcome, zoom]
  rcases hm : m (part t) with ⟨es, o⟩
  cases o <;> rfl

theorem Returns.mono {R R' : α → σ → Prop} (h : Returns m s R) (hR : ∀ a s, R a s → R' a s) :
    Returns m s R' := by
  unfold Returns at h ⊢
  cases hm : m.outcome s with
  | returned a s' =>
    rw [hm] at h
    exact hR a s' h
  | threw what s' => trivial
  | aborted => trivial
  | undefined => trivial
  | stuck => trivial

/-- What holds of every state holds where a program returns. -/
theorem returns_of_forall {R : α → σ → Prop} (h : ∀ a s', R a s') : Returns m s R := by
  unfold Returns
  cases m.outcome s with
  | returned a s' => exact h a s'
  | threw what s' => trivial
  | aborted => trivial
  | undefined => trivial
  | stuck => trivial

/-! ### What is left behind -/

/-- `R` holds where the program returns, `E` where it throws; nothing is asked where it
leaves no state behind. -/
def Leaves (m : Prog ε σ α) (s : σ) (R : α → σ → Prop) (E : σ → Prop) : Prop :=
  match m.outcome s with
  | .returned a s => R a s
  | .threw _ s => E s
  | _ => True

@[simp] theorem leaves_pure (a : α) {R : α → σ → Prop} :
    Leaves (pure a : Prog ε σ α) s R E ↔ R a s := Iff.rfl

@[simp] theorem leaves_get {R : σ → σ → Prop} : Leaves (get : Prog ε σ σ) s R E ↔ R s s := Iff.rfl

@[simp] theorem leaves_modify (g : σ → σ) {R : Unit → σ → Prop} :
    Leaves (modify g : Prog ε σ Unit) s R E ↔ R () (g s) := Iff.rfl

@[simp] theorem leaves_note (e : ε) {R : Unit → σ → Prop} :
    Leaves (note e) s R E ↔ R () s := Iff.rfl

@[simp] theorem leaves_throw (what : String) {R : α → σ → Prop} :
    Leaves (throw what : Prog ε σ α) s R E ↔ E s := Iff.rfl

theorem leaves_abort {R : α → σ → Prop} : Leaves (abort : Prog ε σ α) s R E := trivial

theorem leaves_undefined {R : α → σ → Prop} : Leaves (undefined : Prog ε σ α) s R E := trivial

theorem leaves_stuck {R : α → σ → Prop} : Leaves (stuck : Prog ε σ α) s R E := trivial

/-- **The rule for sequences.** -/
theorem leaves_bind {R : β → σ → Prop} :
    Leaves (m >>= f) s R E ↔ Leaves m s (fun a s' => Leaves (f a) s' R E) E := by
  show Leaves (fun s => andThen (m s) f) s R E ↔ _
  simp only [Leaves, outcome]
  rcases hm : m s with ⟨es, o⟩
  cases o <;> rfl

/-- **The rule for a part of the state.** -/
theorem leaves_zoom {part : τ → σ} {put : σ → τ → τ} {t : τ} {R : α → τ → Prop} {E : τ → Prop} :
    Leaves (zoom part put m) t R E ↔
      Leaves m (part t) (fun a s' => R a (put s' t)) (fun s' => E (put s' t)) := by
  simp only [Leaves, outcome, zoom]
  rcases hm : m (part t) with ⟨es, o⟩
  cases o <;> rfl

/-- **The rule for a handler** that returns in any case. -/
theorem leaves_tryCatch (g : String → α) {P : σ → Prop} :
    Leaves (tryCatch m fun what => pure (g what)) s (fun _ => P) P ↔
      Leaves m s (fun _ => P) P := by
  simp only [Leaves, outcome, tryCatch]
  rcases hm : m s with ⟨es, o⟩
  cases o <;> rfl

theorem Leaves.mono {R R' : α → σ → Prop} {E E' : σ → Prop} (h : Leaves m s R E)
    (hR : ∀ a s', R a s' → R' a s') (hE : ∀ s', E s' → E' s') : Leaves m s R' E' := by
  unfold Leaves at h ⊢
  cases hm : m.outcome s with
  | returned a s' =>
    rw [hm] at h
    exact hR a s' h
  | threw what s' =>
    rw [hm] at h
    exact hE s' h
  | aborted => trivial
  | undefined => trivial
  | stuck => trivial

/-- It is about the run from this state alone. -/
theorem leaves_congr {m' : Prog ε σ α} (h : m s = m' s) {R : α → σ → Prop} :
    Leaves m s R E ↔ Leaves m' s R E := by
  rw [Leaves, Leaves, outcome, outcome, h]

/-- Going on with a value that may not be there. -/
theorem leaves_ofOption {o : Option α} {R : α → σ → Prop} (h : ∀ a, o = some a → R a s) :
    Leaves (ofOption o stuck : Prog ε σ α) s R E := by
  cases o with
  | none => trivial
  | some a => exact h a rfl

/-! ### Events behind events -/

/-- Every event is allowed behind those that are noted in front of it, and `R` holds of all of
them where the program returns; `before` are noted in front of the program. -/
structure Guarded (allowed : List ε → ε → Prop) (before : List ε) (m : Prog ε σ α) (s : σ)
    (R : List ε → α → σ → Prop) : Prop where
  allowed : ∀ es e es', m.events s = es ++ e :: es' → allowed (before ++ es) e
  returned : ∀ es a s', m s = (es, .returned a s') → R (before ++ es) a s'

section

variable {allowed : List ε → ε → Prop} {before : List ε}

theorem guarded_of_nil {o : Outcome σ α} (h : m s = ([], o)) {R : List ε → α → σ → Prop}
    (hR : ∀ a s', o = .returned a s' → R before a s') : Guarded allowed before m s R := by
  refine ⟨fun es e es' hes => ?_, fun es a s' hrun => ?_⟩
  · have hevents : m.events s = [] := congrArg Prod.fst h
    rw [hevents] at hes
    exact absurd hes.symm (List.append_ne_nil_of_right_ne_nil _ (List.cons_ne_nil _ _))
  · rw [h] at hrun
    obtain ⟨rfl, rfl⟩ := Prod.mk.inj hrun
    rw [List.append_nil]
    exact hR a s' rfl

theorem guarded_pure {a : α} {R : List ε → α → σ → Prop} (h : R before a s) :
    Guarded allowed before (pure a : Prog ε σ α) s R :=
  guarded_of_nil rfl fun _ _ heq => by cases heq; exact h

theorem guarded_get {R : List ε → σ → σ → Prop} (h : R before s s) :
    Guarded allowed before (get : Prog ε σ σ) s R :=
  guarded_of_nil rfl fun _ _ heq => by cases heq; exact h

theorem guarded_modify {g : σ → σ} {R : List ε → Unit → σ → Prop} (h : R before () (g s)) :
    Guarded allowed before (modify g : Prog ε σ Unit) s R :=
  guarded_of_nil rfl fun _ _ heq => by cases heq; exact h

theorem guarded_undefined {R : List ε → α → σ → Prop} :
    Guarded allowed before (undefined : Prog ε σ α) s R :=
  guarded_of_nil rfl fun _ _ heq => nomatch heq

theorem guarded_note {e : ε} {R : List ε → Unit → σ → Prop} (h : allowed before e)
    (hR : R (before ++ [e]) () s) : Guarded allowed before (note e : Prog ε σ Unit) s R := by
  refine ⟨fun es e' es' hes => ?_, fun es a s' hrun => ?_⟩
  · have hnote : [e] = es ++ e' :: es' := hes
    obtain ⟨rfl, hrest⟩ | ⟨bs, rfl, hrest⟩ := List.append_eq_cons_iff.mp hnote.symm
    · obtain ⟨rfl, -⟩ := List.cons.inj hrest
      rwa [List.append_nil]
    · exact absurd hrest.symm (List.append_ne_nil_of_right_ne_nil _ (List.cons_ne_nil _ _))
  · obtain ⟨rfl, heq⟩ := Prod.mk.inj hrun
    cases heq
    exact hR

/-- **The rule for sequences.** -/
theorem guarded_bind {R : List ε → β → σ → Prop}
    (h : Guarded allowed before m s fun es a s' => Guarded allowed es (f a) s' R) :
    Guarded allowed before (m >>= f) s R := by
  rcases hrun : m s with ⟨es₁, o⟩
  have hevents : m.events s = es₁ := congrArg Prod.fst hrun
  have hbind : (m >>= f) s = andThen (es₁, o) f := by
    rw [← hrun]
    rfl
  refine ⟨fun es e es' hes => ?_, fun es b s'' hb => ?_⟩
  · rw [events, hbind] at hes
    cases o with
    | returned a s' =>
      have hsecond := h.returned es₁ a s' hrun
      rcases List.append_eq_append_iff.mp hes.symm with ⟨bs, rfl, hrest⟩ | ⟨bs, rfl, hrest⟩
      -- the event is noted in the first part, or in the second one
      · cases bs with
        | nil =>
          have hallowed := hsecond.allowed [] e es' hrest.symm
          rwa [List.append_nil, List.append_nil] at hallowed
        | cons b bs =>
          obtain ⟨rfl, -⟩ := List.cons.inj hrest
          exact h.allowed es e bs hevents
      · rw [← List.append_assoc]
        exact hsecond.allowed bs e es' hrest
    | threw what s' => exact h.allowed es e es' (hevents.trans hes)
    | aborted => exact h.allowed es e es' (hevents.trans hes)
    | undefined => exact h.allowed es e es' (hevents.trans hes)
    | stuck => exact h.allowed es e es' (hevents.trans hes)
  · rw [hbind] at hb
    cases o with
    | returned a s' =>
      obtain ⟨rfl, ho⟩ := Prod.mk.inj hb
      rw [← List.append_assoc]
      exact (h.returned es₁ a s' hrun).returned _ b s'' (Prod.ext rfl ho)
    | threw what s' => cases hb
    | aborted => cases hb
    | undefined => cases hb
    | stuck => cases hb

theorem Guarded.mono {R R' : List ε → α → σ → Prop} (h : Guarded allowed before m s R)
    (hR : ∀ es a s', R es a s' → R' es a s') : Guarded allowed before m s R' :=
  ⟨h.allowed, fun es a s' hrun => hR _ a s' (h.returned es a s' hrun)⟩

end

/-! ### Runs -/

/-- Going on from a return. -/
theorem bind_of_returned {es : List ε} {a : α} {s' : σ} (h : m s = (es, .returned a s')) :
    (m >>= f) s = (es ++ (f a s').1, (f a s').2) := by
  show andThen (m s) f = _
  rw [h]
  rfl

theorem outcome_bind_of_returned {a : α} {s' : σ} (h : m.outcome s = .returned a s') :
    (m >>= f).outcome s = (f a).outcome s' := by
  have hm : m s = (m.events s, .returned a s') := Prod.ext rfl h
  rw [outcome, bind_of_returned hm, outcome]

/-- The same where the first part notes nothing. -/
theorem bind_of_returned_nil {a : α} {s' : σ} (h : m s = ([], .returned a s')) :
    (m >>= f) s = f a s' := by
  rw [bind_of_returned h]
  rfl

/-- Going on from a look at the state. -/
theorem get_bind (f : σ → Prog ε σ β) (s : σ) : (get >>= f) s = f s s := bind_of_returned_nil rfl

/-- Going on from a change. -/
theorem modify_bind (g : σ → σ) (f : Unit → Prog ε σ β) (s : σ) :
    (modify g >>= f) s = f () (g s) := bind_of_returned_nil rfl

/-- Going on from an event. -/
theorem note_bind (e : ε) (f : Unit → Prog ε σ β) (s : σ) :
    (note e >>= f) s = ([e] ++ (f () s).1, (f () s).2) :=
  bind_of_returned rfl

theorem bind_of_undefined {es : List ε} (h : m s = (es, .undefined)) :
    (m >>= f) s = (es, .undefined) :=
  congrArg (andThen · f) h

theorem outcome_bind_of_undefined (h : m.outcome s = .undefined) :
    (m >>= f).outcome s = .undefined := by
  have hm : m s = (m.events s, .undefined) := Prod.ext rfl h
  rw [outcome, bind_of_undefined hm]

/-- Nothing comes after any other end. -/
theorem bind_of_fails {es : List ε} {o : Outcome σ α} (h : m s = (es, o))
    (ho : o.Fails) : ∃ o', (m >>= f) s = (es, o') ∧ o'.Fails := by
  have hbind : (m >>= f) s = andThen (es, o) f := congrArg (andThen · f) h
  rw [hbind]
  cases o with
  | returned a s' => exact ho.elim
  | threw what s' => exact ⟨.threw what s', rfl, trivial⟩
  | aborted => exact ⟨.aborted, rfl, trivial⟩
  | undefined => exact ⟨.undefined, rfl, trivial⟩
  | stuck => exact ⟨.stuck, rfl, trivial⟩

/-! ### Values -/

/-- Whatever the program returns satisfies `R`. -/
def Yields (R : α → Prop) (m : Prog ε σ α) : Prop :=
  ∀ s a s', m.outcome s = .returned a s' → R a

theorem yields_pure {R : α → Prop} {a : α} (h : R a) : Yields R (pure a : Prog ε σ α) := by
  intro s a' s' hrun
  cases hrun
  exact h

/-- What a sequence returns is returned by its second part, for a value of the first. -/
theorem Yields.bind {Q : α → Prop} {R : β → Prop} (hm : Yields Q m)
    (hf : ∀ a, Q a → Yields R (f a)) : Yields R (m >>= f) := by
  intro s b s' hrun
  have hs := hm s
  have hbind : (m >>= f) s = andThen (m s) f := rfl
  rw [outcome, hbind] at hrun
  simp only [outcome] at hs
  rcases hm : m s with ⟨es, o⟩
  rw [hm] at hrun hs
  cases o with
  | returned a s'' => exact hf a (hs a s'' rfl) s'' b s' hrun
  | threw what s'' => cases hrun
  | aborted => cases hrun
  | undefined => cases hrun
  | stuck => cases hrun

theorem yields_true : Yields (fun _ => True) m := fun _ _ _ _ => trivial

/-- Where nothing is known of that value. -/
theorem yields_bind {R : β → Prop} (hf : ∀ a, Yields R (f a)) : Yields R (m >>= f) :=
  yields_true.bind fun a _ => hf a

theorem Yields.tryCatch {R : α → Prop} {handler : String → Prog ε σ α} (hm : Yields R m)
    (hh : ∀ what, Yields R (handler what)) : Yields R (tryCatch m handler) := by
  intro s a s' hrun
  have hs := hm s
  simp only [Prog.tryCatch, outcome] at hrun hs
  rcases hrun' : m s with ⟨es, o⟩
  rw [hrun'] at hs hrun
  cases o with
  | threw what s'' => exact hh what s'' a s' hrun
  | returned a' s'' => exact hs a s' hrun
  | aborted => cases hrun
  | undefined => cases hrun
  | stuck => cases hrun

/-! ### Events -/

/-- Every event that the program notes satisfies `P`. -/
def Notes (P : ε → Prop) (m : Prog ε σ α) : Prop := ∀ s, ∀ e ∈ (m s).1, P e

/-- The program notes nothing. -/
abbrev Silent (m : Prog ε σ α) : Prop := Notes (fun _ => False) m

section

variable {P : ε → Prop}

theorem notes_pure (a : α) : Notes P (pure a : Prog ε σ α) := fun _ _ he => nomatch he

theorem notes_get : Notes P (get : Prog ε σ σ) := fun _ _ he => nomatch he

theorem notes_modify (g : σ → σ) : Notes P (modify g : Prog ε σ Unit) := fun _ _ he => nomatch he

theorem notes_throw (what : String) : Notes P (throw what : Prog ε σ α) := fun _ _ he => nomatch he

theorem notes_abort : Notes P (abort : Prog ε σ α) := fun _ _ he => nomatch he

theorem notes_undefined : Notes P (undefined : Prog ε σ α) := fun _ _ he => nomatch he

theorem notes_stuck : Notes P (stuck : Prog ε σ α) := fun _ _ he => nomatch he

theorem notes_note {e : ε} (he : P e) : Notes P (note e : Prog ε σ Unit) := by
  intro s e' he'
  rwa [List.mem_singleton.mp he']

theorem Notes.bind (hm : Notes P m) (hf : ∀ a, Notes P (f a)) : Notes P (m >>= f) := by
  intro s e he
  have hs := hm s
  have hbind : (m >>= f) s = andThen (m s) f := rfl
  rw [hbind] at he
  rcases hrun : m s with ⟨es, o⟩
  rw [hrun] at hs he
  cases o with
  | returned a s' =>
    rcases List.mem_append.mp he with he | he
    · exact hs e he
    · exact hf a s' e he
  | threw what s' => exact hs e he
  | aborted => exact hs e he
  | undefined => exact hs e he
  | stuck => exact hs e he

/-- The events stay when the program goes on. -/
theorem mem_events_bind {e : ε} (he : e ∈ m.events s) : e ∈ (m >>= f).events s := by
  have hbind : (m >>= f) s = andThen (m s) f := rfl
  rw [events] at he
  rw [events, hbind]
  rcases hrun : m s with ⟨es, o⟩
  rw [hrun] at he
  cases o with
  | returned a s' => exact List.mem_append_left _ he
  | threw what s' => exact he
  | aborted => exact he
  | undefined => exact he
  | stuck => exact he

theorem notes_ofOption (o : Option α) {otherwise : Prog ε σ α} (h : Notes P otherwise) :
    Notes P (ofOption o otherwise) := by
  cases o with
  | none => exact h
  | some a => exact notes_pure a

theorem Notes.zoom {part : τ → σ} {put : σ → τ → τ} (hm : Notes P m) :
    Notes P (zoom part put m) := by
  intro t e he
  have hs := hm (part t)
  simp only [Prog.zoom] at he
  rcases hrun : m (part t) with ⟨es, o⟩
  rw [hrun] at hs he
  cases o <;> exact hs e he

theorem Notes.tryCatch {handler : String → Prog ε σ α} (hm : Notes P m)
    (hh : ∀ what, Notes P (handler what)) : Notes P (tryCatch m handler) := by
  intro s e he
  have hs := hm s
  simp only [Prog.tryCatch] at he
  rcases hrun : m s with ⟨es, o⟩
  rw [hrun] at hs he
  cases o with
  | threw what s' =>
    rcases List.mem_append.mp he with he | he
    · exact hs e he
    · exact hh what s' e he
  | returned a s' => exact hs e he
  | aborted => exact hs e he
  | undefined => exact hs e he
  | stuck => exact hs e he

theorem notes_relabel {δ : Type} {Q : δ → Prop} {f : ε → δ} (hm : Notes (fun e => Q (f e)) m) :
    Notes Q (relabel f m) := by
  intro s e he
  obtain ⟨e', he', rfl⟩ := List.mem_map.mp he
  exact hm s e' he'

theorem Notes.mono {Q : ε → Prop} (hm : Notes P m) (h : ∀ e, P e → Q e) : Notes Q m :=
  fun s e he => h e (hm s e he)

end

/-! ### Lists of values -/

theorem exists_mapM {f : α → Option β} (h : ∀ a, ∃ b, f a = some b) (l : List α) :
    ∃ bs, l.mapM f = some bs := by
  induction l with
  | nil => exact ⟨[], rfl⟩
  | cons a l ih =>
    obtain ⟨b, hb⟩ := h a
    obtain ⟨bs, hbs⟩ := ih
    refine ⟨b :: bs, ?_⟩
    rw [List.mapM_cons, hb, hbs]
    rfl

theorem exists_of_mem_mapM {f : α → Option β} {l : List α} {bs : List β}
    (h : l.mapM f = some bs) : ∀ b ∈ bs, ∃ a ∈ l, f a = some b := by
  induction l generalizing bs with
  | nil =>
    cases h
    exact fun b hb => absurd hb List.not_mem_nil
  | cons a l ih =>
    rw [List.mapM_cons] at h
    obtain ⟨b, hb, hrest⟩ := Option.bind_eq_some_iff.mp h
    obtain ⟨bs', hbs', heq⟩ := Option.bind_eq_some_iff.mp hrest
    cases heq
    intro b' hb'
    rcases List.mem_cons.mp hb' with rfl | hb'
    · exact ⟨a, List.mem_cons_self, hb⟩
    · obtain ⟨a', ha', heq⟩ := ih hbs' b' hb'
      exact ⟨a', List.mem_cons_of_mem _ ha', heq⟩

/-- What a silent program does from a state. -/
theorem Silent.run (hm : Silent m) (s : σ) : m s = ([], m.outcome s) :=
  Prod.ext (List.eq_nil_iff_forall_not_mem.mpr (hm s)) rfl

end Prog
