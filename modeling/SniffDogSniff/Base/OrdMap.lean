import SniffDogSniff.Base.Comparator
import Mathlib.Algebra.BigOperators.Group.List.Basic
import Mathlib.Data.List.Induction
import Mathlib.Data.List.Pairwise

/-!
# Ordered maps over a comparator

`std::map` keeps its entries in the order of a comparator and holds at most one
entry of each equivalence class.  A key that is only *equivalent* to a stored one
finds it, replaces its value, and is itself forgotten.

## Main definitions

* `OrdMap c ν` — the entries, strictly ascending.
* `OrdMap.alter` — what `m[k]` followed by a change of the value does;
  `OrdMap.set` is the assignment `m[k] = v`.
* `OrdMap.group` — values collected under their keys.
* `OrdMap.find?`, `OrdMap.erase` — lookup and removal by equivalence.

## Main results

* `OrdMap.mem_alter_iff` — the entries after a change.
* `OrdMap.foldl_set_entries` — assigning the entries of a map one by one to an
  empty map gives the map back.
* `OrdMap.mem_setAll_of_size` — a map that has grown by every assignment has all of
  them among its entries.
-/

/-- The entries of a map, strictly ascending by key. -/
structure OrdMap {κ : Type} (c : Comparator κ) (ν : Type) where
  entries : List (κ × ν)
  sorted : entries.Pairwise fun a b => c.lt a.1 b.1 = true

namespace OrdMap

variable {κ ν : Type} {c : Comparator κ}

@[ext] theorem ext {m n : OrdMap c ν} (h : m.entries = n.entries) : m = n := by
  cases m; cases n; congr

instance [DecidableEq κ] [DecidableEq ν] : DecidableEq (OrdMap c ν) := fun m n =>
  decidable_of_iff (m.entries = n.entries) ⟨OrdMap.ext, fun h => h ▸ rfl⟩

/-- The map without entries. -/
def empty : OrdMap c ν := ⟨[], List.Pairwise.nil⟩

instance : EmptyCollection (OrdMap c ν) := ⟨empty⟩

@[simp] theorem entries_empty : (∅ : OrdMap c ν).entries = [] := rfl

/-- `m.size()`. -/
def size (m : OrdMap c ν) : ℕ := m.entries.length

/-! ### Changing the value at a key -/

/-- Change the value at a key equivalent to `k`, or enter `k` with the changed
default. -/
def alterList (c : Comparator κ) (k : κ) (d : ν) (f : ν → ν) : List (κ × ν) → List (κ × ν)
  | [] => [(k, f d)]
  | e :: es =>
      if c.lt k e.1 then (k, f d) :: e :: es
      else if c.lt e.1 k then e :: alterList c k d f es
      else (e.1, f e.2) :: es

/-- A new entry, where nothing is equivalent to its key. -/
theorem mem_cons_of_forall_not_equiv {k : κ} {d : ν} {f : ν → ν} {es : List (κ × ν)}
    (hne : ∀ e ∈ es, ¬ c.Equiv k e.1) {x : κ × ν} :
    x ∈ (k, f d) :: es ↔
      (x ∈ es ∧ ¬ c.Equiv k x.1) ∨
      (∃ e ∈ es, c.Equiv k e.1 ∧ x = (e.1, f e.2)) ∨
      ((∀ e ∈ es, ¬ c.Equiv k e.1) ∧ x = (k, f d)) := by
  constructor
  · intro hx
    rcases List.mem_cons.mp hx with rfl | hx
    · exact Or.inr (Or.inr ⟨hne, rfl⟩)
    · exact Or.inl ⟨hx, hne x hx⟩
  · rintro (⟨hx, -⟩ | ⟨e, he, heq, -⟩ | ⟨-, rfl⟩)
    · exact List.mem_cons_of_mem _ hx
    · exact absurd heq (hne e he)
    · exact List.mem_cons_self

/-- A changed entry, where it is the only one that is equivalent to the key. -/
theorem mem_cons_of_equiv {k : κ} {d : ν} {f : ν → ν} {e : κ × ν} {es : List (κ × ν)}
    (heq : c.Equiv k e.1) (hne : ∀ e' ∈ es, ¬ c.Equiv k e'.1) {x : κ × ν} :
    x ∈ (e.1, f e.2) :: es ↔
      (x ∈ e :: es ∧ ¬ c.Equiv k x.1) ∨
      (∃ e' ∈ e :: es, c.Equiv k e'.1 ∧ x = (e'.1, f e'.2)) ∨
      ((∀ e' ∈ e :: es, ¬ c.Equiv k e'.1) ∧ x = (k, f d)) := by
  constructor
  · intro hx
    rcases List.mem_cons.mp hx with rfl | hx
    · exact Or.inr (Or.inl ⟨e, List.mem_cons_self, heq, rfl⟩)
    · exact Or.inl ⟨List.mem_cons_of_mem _ hx, hne x hx⟩
  · rintro (⟨hx, hn⟩ | ⟨e', he', heq', rfl⟩ | ⟨hn, -⟩)
    · rcases List.mem_cons.mp hx with rfl | hx
      · exact absurd heq hn
      · exact List.mem_cons_of_mem _ hx
    · rcases List.mem_cons.mp he' with rfl | he'
      · exact List.mem_cons_self
      · exact absurd heq' (hne e' he')
    · exact absurd heq (hn e List.mem_cons_self)

/-- An entry after a change is the changed one or an old one of another class. -/
theorem mem_alterList {k : κ} {d : ν} {f : ν → ν} {es : List (κ × ν)}
    (hs : es.Pairwise fun a b => c.lt a.1 b.1 = true) {x : κ × ν} :
    x ∈ alterList c k d f es ↔
      (x ∈ es ∧ ¬ c.Equiv k x.1) ∨
      (∃ e ∈ es, c.Equiv k e.1 ∧ x = (e.1, f e.2)) ∨
      ((∀ e ∈ es, ¬ c.Equiv k e.1) ∧ x = (k, f d)) := by
  induction es with
  | nil => simp [alterList]
  | cons e es ih =>
    have hcons := List.pairwise_cons.mp hs
    rw [alterList]
    split
    · next h =>
      -- `k` is in front of everything, so nothing is equivalent to it
      exact mem_cons_of_forall_not_equiv fun e' he' =>
        Comparator.not_equiv_of_lt (Comparator.lt_of_lt_head hs h e' he')
    · next h1 =>
      split
      · next h2 =>
        have hne : ¬ c.Equiv k e.1 := Comparator.not_equiv_of_gt h2
        rw [List.mem_cons, ih hcons.2]
        simp only [List.mem_cons, exists_eq_or_imp, forall_eq_or_imp]
        constructor
        · rintro (rfl | ⟨hx, hn⟩ | hx | ⟨hn, hx⟩)
          · exact Or.inl ⟨Or.inl rfl, hne⟩
          · exact Or.inl ⟨Or.inr hx, hn⟩
          · exact Or.inr (Or.inl (Or.inr hx))
          · exact Or.inr (Or.inr ⟨⟨hne, hn⟩, hx⟩)
        · rintro (⟨rfl | hx, hn⟩ | (⟨heq, -⟩ | hx) | ⟨⟨-, hn⟩, hx⟩)
          · exact Or.inl rfl
          · exact Or.inr (Or.inl ⟨hx, hn⟩)
          · exact absurd heq hne
          · exact Or.inr (Or.inr (Or.inl hx))
          · exact Or.inr (Or.inr (Or.inr ⟨hn, hx⟩))
      · next h2 =>
        have heq : c.Equiv k e.1 := ⟨by simpa using h1, by simpa using h2⟩
        exact mem_cons_of_equiv heq fun e' he' =>
          Comparator.not_equiv_of_lt (heq.lt_left (hcons.1 e' he'))

theorem sorted_alterList {k : κ} {d : ν} {f : ν → ν} {es : List (κ × ν)}
    (hs : es.Pairwise fun a b => c.lt a.1 b.1 = true) :
    (alterList c k d f es).Pairwise fun a b => c.lt a.1 b.1 = true := by
  induction es with
  | nil => exact List.pairwise_singleton _ _
  | cons e es ih =>
    have hcons := List.pairwise_cons.mp hs
    rw [alterList]
    split
    · next h =>
      exact List.pairwise_cons.mpr ⟨Comparator.lt_of_lt_head hs h, hs⟩
    · split
      · next h2 =>
        refine List.pairwise_cons.mpr ⟨?_, ih hcons.2⟩
        intro x hx
        rcases (mem_alterList hcons.2).mp hx with ⟨hx, -⟩ | ⟨e', he', -, rfl⟩ | ⟨-, rfl⟩
        · exact hcons.1 x hx
        · exact hcons.1 e' he'
        · exact h2
      · exact List.pairwise_cons.mpr ⟨hcons.1, hcons.2⟩

/-- `m[k]` and a change of the value it refers to. -/
def alter (m : OrdMap c ν) (k : κ) (d : ν) (f : ν → ν) : OrdMap c ν :=
  ⟨alterList c k d f m.entries, sorted_alterList m.sorted⟩

/-- `m[k] = v`. -/
def set (m : OrdMap c ν) (k : κ) (v : ν) : OrdMap c ν := m.alter k v fun _ => v

theorem mem_alter_iff {m : OrdMap c ν} {k : κ} {d : ν} {f : ν → ν} {x : κ × ν} :
    x ∈ (m.alter k d f).entries ↔
      (x ∈ m.entries ∧ ¬ c.Equiv k x.1) ∨
      (∃ e ∈ m.entries, c.Equiv k e.1 ∧ x = (e.1, f e.2)) ∨
      ((∀ e ∈ m.entries, ¬ c.Equiv k e.1) ∧ x = (k, f d)) :=
  mem_alterList m.sorted

/-- Assign to every entry a value that depends on it. -/
def mapValues (m : OrdMap c ν) (f : κ × ν → ν) : OrdMap c ν :=
  ⟨m.entries.map fun e => (e.1, f e), List.pairwise_map.mpr m.sorted⟩

theorem mapValues_of_forall_eq {m : OrdMap c ν} {f : κ × ν → ν} (h : ∀ e ∈ m.entries, f e = e.2) :
    m.mapValues f = m := by
  apply OrdMap.ext
  refine (List.map_congr_left fun e he => ?_).trans (List.map_id m.entries)
  rw [h e he]
  rfl

/-! ### Lookup and removal -/

/-- The entry `m.find(k)` points at. -/
def find? (m : OrdMap c ν) (k : κ) : Option (κ × ν) :=
  m.entries.find? fun e => decide (c.Equiv k e.1)

/-- `m.find(k) != m.end()`. -/
def contains (m : OrdMap c ν) (k : κ) : Bool := m.entries.any fun e => decide (c.Equiv k e.1)

theorem contains_iff {m : OrdMap c ν} {k : κ} :
    m.contains k = true ↔ ∃ e ∈ m.entries, c.Equiv k e.1 := by
  simp [contains]

/-- `m.erase(k)`. -/
def erase (m : OrdMap c ν) (k : κ) : OrdMap c ν :=
  ⟨m.entries.filter fun e => !decide (c.Equiv k e.1), m.sorted.filter _⟩

theorem mem_erase {m : OrdMap c ν} {k : κ} {x : κ × ν} :
    x ∈ (m.erase k).entries ↔ x ∈ m.entries ∧ ¬ c.Equiv k x.1 := by
  simp [erase]

/-- What is not found is not erased. -/
theorem erase_of_find?_eq_none {m : OrdMap c ν} {k : κ} (h : m.find? k = none) : m.erase k = m := by
  refine ext (List.filter_eq_self.mpr fun e he => ?_)
  simpa using List.find?_eq_none.mp h e he

/-- Two entries with equivalent keys are one entry. -/
theorem eq_of_equiv {m : OrdMap c ν} {x y : κ × ν} (hx : x ∈ m.entries) (hy : y ∈ m.entries)
    (h : c.Equiv x.1 y.1) : x = y := by
  by_contra hne
  have hpair : m.entries.Pairwise fun a b => ¬ c.Equiv a.1 b.1 :=
    m.sorted.imp Comparator.not_equiv_of_lt
  have hsymm : Std.Symm fun a b : κ × ν => ¬ c.Equiv a.1 b.1 := ⟨fun _ _ hab hba => hab hba.symm⟩
  exact hpair.forall hx hy hne h

/-! ### Assigning in ascending order -/

theorem alterList_of_forall_lt {k : κ} {d : ν} {f : ν → ν} {es : List (κ × ν)}
    (h : ∀ e ∈ es, c.lt e.1 k = true) : alterList c k d f es = es ++ [(k, f d)] := by
  induction es with
  | nil => rfl
  | cons e es ih =>
    have he := h e List.mem_cons_self
    rw [alterList, Comparator.asymm he, he]
    simp [ih fun e' he' => h e' (List.mem_cons_of_mem _ he')]

/-- Assign a list of entries one after the other. -/
def setAll (m : OrdMap c ν) (es : List (κ × ν)) : OrdMap c ν :=
  es.foldl (fun acc e => acc.set e.1 e.2) m

@[simp] theorem setAll_nil (m : OrdMap c ν) : m.setAll [] = m := rfl

@[simp] theorem setAll_cons (m : OrdMap c ν) (e : κ × ν) (es : List (κ × ν)) :
    m.setAll (e :: es) = (m.set e.1 e.2).setAll es := rfl

theorem entries_setAll_of_sorted {es : List (κ × ν)} (m : OrdMap c ν)
    (hs : (m.entries ++ es).Pairwise fun a b => c.lt a.1 b.1 = true) :
    (m.setAll es).entries = m.entries ++ es := by
  induction es generalizing m with
  | nil => simp
  | cons e es ih =>
    have hlt : ∀ x ∈ m.entries, c.lt x.1 e.1 = true := fun x hx =>
      (List.pairwise_append.mp hs).2.2 x hx e List.mem_cons_self
    -- the next key lies behind all that are there
    have hset : (m.set e.1 e.2).entries = m.entries ++ [e] := alterList_of_forall_lt hlt
    rw [setAll_cons, ih _ (by rw [hset]; simpa using hs), hset]
    simp

/-- **Assigning the entries of a map to an empty map gives the map back.** -/
theorem foldl_set_entries (m : OrdMap c ν) : (∅ : OrdMap c ν).setAll m.entries = m :=
  OrdMap.ext (entries_setAll_of_sorted ∅ (by simpa using m.sorted))

/-! ### Keys with no other equivalent one -/

theorem mem_set_iff_of_eq (heq : ∀ a b, c.Equiv a b → a = b) {m : OrdMap c ν} {k : κ} {v : ν}
    {x : κ × ν} : x ∈ (m.set k v).entries ↔ x = (k, v) ∨ (x ∈ m.entries ∧ x.1 ≠ k) := by
  have hequiv : ∀ a b, c.Equiv a b ↔ a = b := fun a b => ⟨heq a b, fun h => h ▸ Comparator.Equiv.refl a⟩
  rw [set, mem_alter_iff]
  simp only [hequiv]
  constructor
  · rintro (⟨hx, hne⟩ | ⟨e, -, rfl, rfl⟩ | ⟨-, rfl⟩)
    · exact Or.inr ⟨hx, Ne.symm hne⟩
    · exact Or.inl rfl
    · exact Or.inl rfl
  · rintro (rfl | ⟨hx, hne⟩)
    · by_cases h : ∃ e ∈ m.entries, k = e.1
      · obtain ⟨e, he, hk⟩ := h
        exact Or.inr (Or.inl ⟨e, he, hk, by rw [← hk]⟩)
      · exact Or.inr (Or.inr ⟨fun e he hk => h ⟨e, he, hk⟩, rfl⟩)
    · exact Or.inl ⟨hx, Ne.symm hne⟩

/-- The value under a key is the one of its only entry. -/
theorem find?_eq_some_iff_of_eq (heq : ∀ a b, c.Equiv a b → a = b) {m : OrdMap c ν} {k : κ}
    {v : ν} : (m.find? k).map Prod.snd = some v ↔ (k, v) ∈ m.entries := by
  rw [find?, Option.map_eq_some_iff]
  constructor
  · rintro ⟨x, hx, rfl⟩
    obtain rfl := heq k x.1 (by simpa using List.find?_some hx)
    exact List.mem_of_find?_eq_some hx
  · intro hmem
    have hsome : (m.entries.find? fun e => decide (c.Equiv k e.1)).isSome = true :=
      List.find?_isSome.mpr ⟨_, hmem, by simpa using Comparator.Equiv.refl k⟩
    obtain ⟨x, hx⟩ := Option.isSome_iff_exists.mp hsome
    have hkey : c.Equiv k x.1 := by simpa using List.find?_some hx
    exact ⟨x, hx, congrArg Prod.snd (eq_of_equiv (List.mem_of_find?_eq_some hx) hmem hkey.symm)⟩

theorem find?_set_of_eq [DecidableEq κ] (heq : ∀ a b, c.Equiv a b → a = b) (m : OrdMap c ν)
    (k : κ) (v : ν) : (fun k' => ((m.set k v).find? k').map Prod.snd) =
      Function.update (fun k' => (m.find? k').map Prod.snd) k (some v) := by
  funext k'
  refine Option.ext fun v' => ?_
  rw [find?_eq_some_iff_of_eq heq, Function.update_apply, mem_set_iff_of_eq heq]
  split
  · next h =>
    subst h
    simp [eq_comm]
  · next h =>
    rw [find?_eq_some_iff_of_eq heq]
    simp [h]

theorem find?_erase_of_eq [DecidableEq κ] (heq : ∀ a b, c.Equiv a b → a = b) (m : OrdMap c ν)
    (k : κ) : (fun k' => ((m.erase k).find? k').map Prod.snd) =
      Function.update (fun k' => (m.find? k').map Prod.snd) k none := by
  funext k'
  refine Option.ext fun v' => ?_
  rw [find?_eq_some_iff_of_eq heq, Function.update_apply, mem_erase]
  split
  · next h =>
    subst h
    simp [Comparator.Equiv.refl]
  · next h =>
    rw [find?_eq_some_iff_of_eq heq]
    have hne : ¬ c.Equiv k k' := fun hk => h (heq k k' hk).symm
    simp [hne]

/-- **The value under a key is the last one that was assigned.** -/
theorem find?_setAll_of_eq [DecidableEq κ] (heq : ∀ a b, c.Equiv a b → a = b)
    (es : List (κ × ν)) (m : OrdMap c ν) (k : κ) :
    ((m.setAll es).find? k).map Prod.snd =
      ((es.reverse.find? fun e => decide (e.1 = k)).map Prod.snd).or
        ((m.find? k).map Prod.snd) := by
  induction es generalizing m with
  | nil => rfl
  | cons e es ih =>
    have hset := congrFun (find?_set_of_eq heq m e.1 e.2) k
    simp only [Function.update_apply] at hset
    rw [setAll_cons, ih, hset, List.reverse_cons, List.find?_append, Option.map_or, Option.or_assoc]
    congr 1
    by_cases hk : k = e.1
    · rw [if_pos hk, List.find?_singleton, if_pos (decide_eq_true hk.symm)]
      rfl
    · rw [if_neg hk, List.find?_singleton, if_neg fun h => hk (of_decide_eq_true h).symm]
      rfl

/-- **Assignments that do not contradict each other are the entries afterwards**, next
to those that were there under other keys. -/
theorem mem_setAll_iff_of_eq (heq : ∀ a b, c.Equiv a b → a = b) {es : List (κ × ν)}
    (hes : ∀ p ∈ es, ∀ q ∈ es, p.1 = q.1 → p = q) (m : OrdMap c ν) {x : κ × ν} :
    x ∈ (m.setAll es).entries ↔ x ∈ es ∨ (x ∈ m.entries ∧ ∀ p ∈ es, x.1 ≠ p.1) := by
  induction es generalizing m with
  | nil => simp
  | cons e es ih =>
    have hrest : ∀ p ∈ es, ∀ q ∈ es, p.1 = q.1 → p = q := fun p hp q hq =>
      hes p (List.mem_cons_of_mem _ hp) q (List.mem_cons_of_mem _ hq)
    rw [setAll_cons, ih hrest, mem_set_iff_of_eq heq, List.mem_cons, List.forall_mem_cons]
    constructor
    · rintro (hx | ⟨rfl | ⟨hx, hne⟩, hall⟩)
      · exact Or.inl (Or.inr hx)
      · exact Or.inl (Or.inl rfl)
      · exact Or.inr ⟨hx, hne, hall⟩
    · rintro ((rfl | hx) | ⟨hx, hne, hall⟩)
      · by_cases h : ∃ p ∈ es, x.1 = p.1
        -- the key comes once more, with the same value
        · obtain ⟨p, hp, hkey⟩ := h
          have hsame := hes x List.mem_cons_self p (List.mem_cons_of_mem _ hp) hkey
          exact Or.inl (hsame ▸ hp)
        · exact Or.inr ⟨Or.inl rfl, fun p hp hkey => h ⟨p, hp, hkey⟩⟩
      · exact Or.inl hx
      · exact Or.inr ⟨Or.inr ⟨hx, hne⟩, hall⟩

/-! ### Sizes -/

/-- A key that is equivalent to a stored one does not make the list longer. -/
theorem length_alterList {k : κ} {d : ν} {f : ν → ν} {es : List (κ × ν)}
    (hs : es.Pairwise fun a b => c.lt a.1 b.1 = true) :
    (alterList c k d f es).length =
      if ∃ e ∈ es, c.Equiv k e.1 then es.length else es.length + 1 := by
  induction es with
  | nil => simp [alterList]
  | cons e es ih =>
    rw [alterList]
    split
    · next h =>
      -- `k` is in front of everything
      have hne : ¬ ∃ e' ∈ e :: es, c.Equiv k e'.1 := by
        rintro ⟨e', he', heq⟩
        exact Comparator.not_equiv_of_lt (Comparator.lt_of_lt_head hs h e' he') heq
      rw [if_neg hne]
      rfl
    · next h1 =>
      split
      · next h2 =>
        have hne : ¬ c.Equiv k e.1 := Comparator.not_equiv_of_gt h2
        rw [List.length_cons, ih (List.pairwise_cons.mp hs).2]
        simp only [List.mem_cons, exists_eq_or_imp, hne, false_or]
        split <;> rfl
      · next h2 =>
        have heq : c.Equiv k e.1 := ⟨by simpa using h1, by simpa using h2⟩
        rw [if_pos ⟨e, List.mem_cons_self, heq⟩]
        rfl

theorem size_set (m : OrdMap c ν) (k : κ) (v : ν) :
    (m.set k v).size = if ∃ e ∈ m.entries, c.Equiv k e.1 then m.size else m.size + 1 :=
  length_alterList m.sorted

theorem contains_set_iff {m : OrdMap c ν} {k k' : κ} {v : ν} :
    (m.set k v).contains k' = true ↔ c.Equiv k' k ∨ m.contains k' = true := by
  rw [contains_iff, contains_iff]
  constructor
  · rintro ⟨e, he, heq⟩
    rcases mem_alter_iff.mp he with ⟨he, -⟩ | ⟨e', he', -, rfl⟩ | ⟨-, rfl⟩
    · exact Or.inr ⟨e, he, heq⟩
    · exact Or.inr ⟨e', he', heq⟩
    · exact Or.inl heq
  · intro h
    by_cases hold : ∃ e ∈ m.entries, c.Equiv k e.1
    · obtain ⟨e, he, hk⟩ := hold
      -- an equivalent key is there, so only its value changes
      have hmem : (e.1, v) ∈ (m.set k v).entries :=
        mem_alter_iff.mpr (Or.inr (Or.inl ⟨e, he, hk, rfl⟩))
      rcases h with h | ⟨e', he', heq⟩
      · exact ⟨(e.1, v), hmem, h.trans hk⟩
      · by_cases hk' : c.Equiv k e'.1
        · exact ⟨(e.1, v), hmem, heq.trans (hk'.symm.trans hk)⟩
        · exact ⟨e', mem_alter_iff.mpr (Or.inl ⟨he', hk'⟩), heq⟩
    · push Not at hold
      rcases h with h | ⟨e', he', heq⟩
      · exact ⟨(k, v), mem_alter_iff.mpr (Or.inr (Or.inr ⟨hold, rfl⟩)), h⟩
      · exact ⟨e', mem_alter_iff.mpr (Or.inl ⟨he', hold e' he'⟩), heq⟩

/-- No key is made up. -/
theorem mem_of_mem_set {m : OrdMap c ν} {k : κ} {v : ν} {x : κ × ν} (h : x ∈ (m.set k v).entries) :
    (x.1 = k ∨ ∃ e ∈ m.entries, e.1 = x.1 ∧ c.Equiv k x.1) ∧ x.2 = v ∨
      x ∈ m.entries ∧ ¬ c.Equiv k x.1 := by
  rcases mem_alter_iff.mp h with hold | ⟨e, he, heq, rfl⟩ | ⟨-, rfl⟩
  · exact Or.inr hold
  · exact Or.inl ⟨Or.inr ⟨e, he, rfl, heq⟩, rfl⟩
  · exact Or.inl ⟨Or.inl rfl, rfl⟩

theorem alterList_of_fixed {k : κ} {d : ν} {f : ν → ν} {e : κ × ν} (heq : c.Equiv k e.1)
    (hf : f e.2 = e.2) {es : List (κ × ν)} (hs : es.Pairwise fun a b => c.lt a.1 b.1 = true)
    (he : e ∈ es) : alterList c k d f es = es := by
  induction es with
  | nil => cases he
  | cons x es ih =>
    rw [List.pairwise_cons] at hs
    rw [alterList]
    rcases List.mem_cons.mp he with rfl | he
    · rw [if_neg (by simp [heq.1]), if_neg (by simp [heq.2]), hf]
    · have hlt : c.lt x.1 k = true := heq.lt_right (hs.1 e he)
      rw [if_neg (by simp [Comparator.asymm hlt]), if_pos hlt, ih hs.2 he]

/-- An assignment changes nothing where the value is there already. -/
theorem set_eq_self_iff {m : OrdMap c ν} {k : κ} {v : ν} :
    m.set k v = m ↔ ∃ e ∈ m.entries, c.Equiv k e.1 ∧ e.2 = v := by
  constructor
  · intro h
    have hmem : ∀ x ∈ (m.set k v).entries, x ∈ m.entries := fun x hx => by rwa [h] at hx
    by_cases hex : ∃ e ∈ m.entries, c.Equiv k e.1
    · obtain ⟨e, he, heq⟩ := hex
      exact ⟨_, hmem _ (mem_alter_iff.mpr (Or.inr (Or.inl ⟨e, he, heq, rfl⟩))), heq, rfl⟩
    · have hnone : ∀ e ∈ m.entries, ¬ c.Equiv k e.1 := fun e he heq => hex ⟨e, he, heq⟩
      exact ⟨_, hmem _ (mem_alter_iff.mpr (Or.inr (Or.inr ⟨hnone, rfl⟩))), Comparator.Equiv.refl k, rfl⟩
  · rintro ⟨e, he, heq, rfl⟩
    exact ext (alterList_of_fixed heq rfl m.sorted he)

theorem size_set_of_not_contains {m : OrdMap c ν} {k : κ} (h : m.contains k = false) (v : ν) :
    (m.set k v).size = m.size + 1 := by
  rw [size_set, if_neg]
  intro hex
  rw [contains_iff.mpr hex] at h
  cases h

theorem size_set_le (m : OrdMap c ν) (k : κ) (v : ν) : (m.set k v).size ≤ m.size + 1 := by
  rw [size_set]
  split <;> omega

theorem size_setAll_le (es : List (κ × ν)) (m : OrdMap c ν) :
    (m.setAll es).size ≤ m.size + es.length := by
  induction es generalizing m with
  | nil => exact le_rfl
  | cons e es ih =>
    have hset := size_set_le m e.1 e.2
    have hrest := ih (m.set e.1 e.2)
    rw [setAll_cons, List.length_cons]
    omega

/-- **Where every assignment makes the map larger, none of them has been
overwritten**, and neither has an entry of the map. -/
theorem mem_setAll_of_size {es : List (κ × ν)} {m : OrdMap c ν}
    (h : (m.setAll es).size = m.size + es.length) {x : κ × ν} (hx : x ∈ m.entries ∨ x ∈ es) :
    x ∈ (m.setAll es).entries := by
  induction es generalizing m with
  | nil => simpa using hx
  | cons e es ih =>
    rw [setAll_cons, List.length_cons] at h
    have hle := size_setAll_le es (m.set e.1 e.2)
    have hset := size_set m e.1 e.2
    -- the first assignment makes the map larger, so it finds no equivalent key
    by_cases hdup : ∃ e' ∈ m.entries, c.Equiv e.1 e'.1
    · rw [if_pos hdup] at hset
      omega
    rw [if_neg hdup] at hset
    push Not at hdup
    rw [setAll_cons]
    apply ih (by omega)
    rw [List.mem_cons] at hx
    rcases hx with hx | rfl | hx
    · exact Or.inl (mem_alter_iff.mpr (Or.inl ⟨hx, hdup x hx⟩))
    · exact Or.inl (mem_alter_iff.mpr (Or.inr (Or.inr ⟨hdup, rfl⟩)))
    · exact Or.inr hx

/-- A sum over the entries grows by `a` where the changed entry grows by `a` and a new
one is `a`. -/
theorem sum_alterList {M : Type} [AddCommMonoid M] (g : κ × ν → M) (a : M) {k : κ} {d : ν}
    {f : ν → ν} {es : List (κ × ν)}
    (hold : ∀ e ∈ es, c.Equiv k e.1 → g (e.1, f e.2) = g e + a) (hnew : g (k, f d) = a) :
    ((alterList c k d f es).map g).sum = (es.map g).sum + a := by
  induction es with
  | nil => simp [alterList, hnew]
  | cons e es ih =>
    rw [alterList]
    split
    · rw [List.map_cons, List.sum_cons, hnew, add_comm]
    · next h1 =>
      split
      · rw [List.map_cons, List.sum_cons, List.map_cons, List.sum_cons,
          ih fun e' he' => hold e' (List.mem_cons_of_mem _ he'), add_assoc]
      · next h2 =>
        have heq : c.Equiv k e.1 := ⟨by simpa using h1, by simpa using h2⟩
        rw [List.map_cons, List.sum_cons, List.map_cons, List.sum_cons,
          hold e List.mem_cons_self heq, add_right_comm]

/-! ### The set of keys -/

/-- The key is there, and not only one that is equivalent. -/
def HasKey (m : OrdMap c ν) (k : κ) : Prop := ∃ e ∈ m.entries, e.1 = k

/-- **An assignment enters its key and no other one** exactly where no other key is
equivalent to it. -/
theorem hasKey_set_iff {m : OrdMap c ν} {k : κ} {v : ν} :
    (∀ k', (m.set k v).HasKey k' ↔ k' = k ∨ m.HasKey k') ↔
      ∀ e ∈ m.entries, c.Equiv k e.1 → e.1 = k := by
  constructor
  · intro h e he heq
    obtain ⟨x, hx, hkey⟩ := (h k).mpr (Or.inl rfl)
    have hold : (e.1, v) ∈ (m.set k v).entries :=
      mem_alter_iff.mpr (Or.inr (Or.inl ⟨e, he, heq, rfl⟩))
    have hsame := eq_of_equiv hold hx (hkey ▸ heq.symm)
    exact (congrArg Prod.fst hsame).trans hkey
  · intro h k'
    constructor
    · rintro ⟨x, hx, rfl⟩
      rcases mem_of_mem_set hx with ⟨hkey | ⟨e, he, hkey, -⟩, -⟩ | ⟨hold, -⟩
      · exact Or.inl hkey
      · exact Or.inr ⟨e, he, hkey⟩
      · exact Or.inr ⟨x, hold, rfl⟩
    · rintro (rfl | ⟨e, he, rfl⟩)
      · obtain ⟨e, he, heq⟩ := contains_iff.mp
          (contains_set_iff.mpr (Or.inl (Comparator.Equiv.refl k')) : (m.set k' v).contains k' = true)
        refine ⟨e, he, ?_⟩
        rcases mem_of_mem_set he with ⟨hkey | ⟨e', he', hkey, -⟩, -⟩ | ⟨hold, -⟩
        · exact hkey
        · exact hkey ▸ h e' he' (hkey ▸ heq)
        · exact h e hold heq
      · by_cases heq : c.Equiv k e.1
        · exact ⟨(e.1, v), mem_alter_iff.mpr (Or.inr (Or.inl ⟨e, he, heq, rfl⟩)), rfl⟩
        · exact ⟨e, mem_alter_iff.mpr (Or.inl ⟨he, heq⟩), rfl⟩

theorem contains_setAll_iff {es : List (κ × ν)} {m : OrdMap c ν} {k : κ} :
    (m.setAll es).contains k = true ↔ (∃ e ∈ es, c.Equiv k e.1) ∨ m.contains k = true := by
  induction es generalizing m with
  | nil => simp
  | cons e es ih =>
    rw [setAll_cons, ih, contains_set_iff]
    constructor
    · rintro (⟨e', he', heq⟩ | heq | hold)
      · exact Or.inl ⟨e', List.mem_cons_of_mem _ he', heq⟩
      · exact Or.inl ⟨e, List.mem_cons_self, heq⟩
      · exact Or.inr hold
    · rintro (⟨e', he', heq⟩ | hold)
      · rcases List.mem_cons.mp he' with rfl | he'
        · exact Or.inr (Or.inl heq)
        · exact Or.inl ⟨e', he', heq⟩
      · exact Or.inr (Or.inr hold)

theorem hasKey_of_mem_setAll {es : List (κ × ν)} {m : OrdMap c ν} {k : κ}
    (h : (m.setAll es).HasKey k) : (∃ e ∈ es, e.1 = k) ∨ m.HasKey k := by
  induction es generalizing m with
  | nil => exact Or.inr h
  | cons e es ih =>
    rcases ih h with ⟨e', he', hkey⟩ | ⟨x, hx, rfl⟩
    · exact Or.inl ⟨e', List.mem_cons_of_mem _ he', hkey⟩
    · rcases mem_of_mem_set hx with ⟨hkey | ⟨e', he', hkey, -⟩, -⟩ | ⟨hold, -⟩
      · exact Or.inl ⟨e, List.mem_cons_self, hkey.symm⟩
      · exact Or.inr ⟨e', he', hkey⟩
      · exact Or.inr ⟨x, hold, rfl⟩

/-- Nor is a value. -/
theorem value_of_mem_setAll {es : List (κ × ν)} {m : OrdMap c ν} {x : κ × ν}
    (h : x ∈ (m.setAll es).entries) : (∃ e ∈ es, e.2 = x.2) ∨ ∃ e ∈ m.entries, e.2 = x.2 := by
  induction es generalizing m with
  | nil => exact Or.inr ⟨x, h, rfl⟩
  | cons e es ih =>
    rcases ih h with ⟨e', he', hvalue⟩ | ⟨e', he', hvalue⟩
    · exact Or.inl ⟨e', List.mem_cons_of_mem _ he', hvalue⟩
    · rcases mem_of_mem_set he' with ⟨-, hnew⟩ | ⟨hold, -⟩
      · exact Or.inl ⟨e, List.mem_cons_self, hnew.symm.trans hvalue⟩
      · exact Or.inr ⟨e', hold, hvalue⟩

/-- The same for several assignments to an empty map. -/
theorem hasKey_setAll_iff {es : List (κ × ν)} :
    (∀ k, ((∅ : OrdMap c ν).setAll es).HasKey k ↔ ∃ e ∈ es, e.1 = k) ↔
      ∀ e ∈ es, ∀ e' ∈ es, c.Equiv e.1 e'.1 → e.1 = e'.1 := by
  constructor
  · intro h e he e' he' heq
    obtain ⟨x, hx, hkey⟩ := (h e.1).mpr ⟨e, he, rfl⟩
    obtain ⟨x', hx', hkey'⟩ := (h e'.1).mpr ⟨e', he', rfl⟩
    have hsame : x = x' := eq_of_equiv hx hx' (by rw [hkey, hkey']; exact heq)
    rw [← hkey, hsame, hkey']
  · intro h k
    constructor
    · intro hkey
      rcases hasKey_of_mem_setAll hkey with hkey | ⟨x, hx, -⟩
      · exact hkey
      · exact absurd hx List.not_mem_nil
    · rintro ⟨e, he, rfl⟩
      obtain ⟨x, hx, heq⟩ := contains_iff.mp
        (contains_setAll_iff.mpr (Or.inl ⟨e, he, Comparator.Equiv.refl _⟩) :
          ((∅ : OrdMap c ν).setAll es).contains e.1 = true)
      refine ⟨x, hx, ?_⟩
      rcases hasKey_of_mem_setAll ⟨x, hx, rfl⟩ with ⟨e', he', hkey⟩ | ⟨x', hx', -⟩
      · rw [← hkey] at heq ⊢
        exact (h e he e' he' heq).symm
      · exact absurd hx' List.not_mem_nil

/-! ### Grouping -/

/-- Collect values under their keys: `m[k].push_back(v)` for each pair. -/
def group (c : Comparator κ) (ps : List (κ × ν)) : OrdMap c (List ν) :=
  ps.foldl (fun m p => m.alter p.1 [] (· ++ [p.2])) ∅

/-- Every value is under an equivalent key. -/
theorem exists_mem_group {ps : List (κ × ν)} {p : κ × ν} (hp : p ∈ ps) :
    ∃ e ∈ (group c ps).entries, c.Equiv p.1 e.1 ∧ p.2 ∈ e.2 := by
  induction ps using List.reverseRecOn with
  | nil => cases hp
  | append_singleton ps q ih =>
    rw [group, List.foldl_append, List.foldl_cons, List.foldl_nil, ← group]
    rcases List.mem_append.mp hp with hp | hp
    · obtain ⟨e, he, heq, hmem⟩ := ih hp
      by_cases hq : c.Equiv q.1 e.1
      -- the new value may go to the same entry, which keeps its key
      · refine ⟨(e.1, e.2 ++ [q.2]), mem_alter_iff.mpr (Or.inr (Or.inl ⟨e, he, hq, rfl⟩)), heq, ?_⟩
        exact List.mem_append_left _ hmem
      · exact ⟨e, mem_alter_iff.mpr (Or.inl ⟨he, hq⟩), heq, hmem⟩
    · rw [List.mem_singleton] at hp
      subst hp
      by_cases hold : ∃ e ∈ (group c ps).entries, c.Equiv p.1 e.1
      · obtain ⟨e, he, heq⟩ := hold
        refine ⟨(e.1, e.2 ++ [p.2]), mem_alter_iff.mpr (Or.inr (Or.inl ⟨e, he, heq, rfl⟩)), heq, ?_⟩
        exact List.mem_append_right _ (List.mem_singleton_self _)
      · push Not at hold
        exact ⟨(p.1, [p.2]), mem_alter_iff.mpr (Or.inr (Or.inr ⟨hold, rfl⟩)), Comparator.Equiv.refl _,
          List.mem_singleton_self _⟩

/-- A key of the groups is a key of the list, and what is under it belongs to
equivalent keys. -/
theorem of_mem_group {ps : List (κ × ν)} {e : κ × List ν} (he : e ∈ (group c ps).entries) :
    (∃ p ∈ ps, p.1 = e.1) ∧ ∀ v ∈ e.2, ∃ p ∈ ps, c.Equiv p.1 e.1 ∧ p.2 = v := by
  induction ps using List.reverseRecOn generalizing e with
  | nil => cases he
  | append_singleton ps q ih =>
    rw [group, List.foldl_append, List.foldl_cons, List.foldl_nil, ← group] at he
    have hleft : ∀ {p}, p ∈ ps → p ∈ ps ++ [q] := fun hp => List.mem_append_left _ hp
    have hlast : q ∈ ps ++ [q] := List.mem_append_right _ (List.mem_singleton_self _)
    rcases mem_alter_iff.mp he with ⟨hold, -⟩ | ⟨e', he', heq, rfl⟩ | ⟨-, rfl⟩
    · obtain ⟨⟨p, hp, hkey⟩, hvalues⟩ := ih hold
      refine ⟨⟨p, hleft hp, hkey⟩, fun v hv => ?_⟩
      obtain ⟨p', hp', h⟩ := hvalues v hv
      exact ⟨p', hleft hp', h⟩
    · obtain ⟨⟨p, hp, hkey⟩, hvalues⟩ := ih he'
      refine ⟨⟨p, hleft hp, hkey⟩, fun v hv => ?_⟩
      rcases List.mem_append.mp hv with hv | hv
      · obtain ⟨p', hp', h⟩ := hvalues v hv
        exact ⟨p', hleft hp', h⟩
      · exact ⟨q, hlast, heq, (List.mem_singleton.mp hv).symm⟩
    · refine ⟨⟨q, hlast, rfl⟩, fun v hv => ?_⟩
      exact ⟨q, hlast, Comparator.Equiv.refl _, (List.mem_singleton.mp hv).symm⟩

end OrdMap
