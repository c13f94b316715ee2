import SniffDogSniff.Base.Comparator
import Mathlib.Data.List.Pairwise

/-!
# Ordered sets over a comparator

`std::set` keeps its elements in the order of a comparator and holds at most one
element of each equivalence class.  An iterator stays valid while elements are
inserted, and meets those that come to lie in front of it.

## Main definitions

* `OrdSet c`, `OrdSet.insert` — the elements, strictly ascending, and insertion.
* `OrdSet.firsts` — of a list, the first element of each class.
* `OrdSet.after` — what an iterator has in front of it.

## Main results

* `perm_insertAll_empty` — what a list leaves in an empty set.
* `after_some_of_after_eq_cons` — a step of an iterator.
* `after_insert` — **what an iterator has in front of it after an insertion.**
-/

/-- The elements of a set, strictly ascending. -/
structure OrdSet {α : Type} (c : Comparator α) where
  elems : List α
  sorted : elems.Pairwise fun a b => c.lt a b = true

namespace OrdSet

variable {α : Type} {c : Comparator α}

/-- The set without elements. -/
def empty : OrdSet c := ⟨[], List.Pairwise.nil⟩

instance : EmptyCollection (OrdSet c) := ⟨empty⟩

/-- Put an element at its place, unless an equivalent one is there. -/
def insertList (c : Comparator α) (a : α) : List α → List α
  | [] => [a]
  | b :: l =>
      if c.lt a b then a :: b :: l
      else if c.lt b a then b :: insertList c a l
      else b :: l

theorem mem_insertList {a x : α} {l : List α} (hs : l.Pairwise fun a b => c.lt a b = true) :
    x ∈ insertList c a l ↔ x ∈ l ∨ ((∀ b ∈ l, ¬ c.Equiv a b) ∧ x = a) := by
  induction l with
  | nil => simp [insertList]
  | cons b l ih =>
    rw [insertList]
    split
    · next h =>
      -- `a` is in front of everything
      have hne : ∀ b' ∈ b :: l, ¬ c.Equiv a b' := fun b' hb' =>
        Comparator.not_equiv_of_lt (Comparator.lt_of_lt_head hs h b' hb')
      rw [List.mem_cons]
      constructor
      · rintro (rfl | hx)
        · exact Or.inr ⟨hne, rfl⟩
        · exact Or.inl hx
      · rintro (hx | ⟨-, rfl⟩)
        · exact Or.inr hx
        · exact Or.inl rfl
    · next h1 =>
      split
      · next h2 =>
        have hne : ¬ c.Equiv a b := Comparator.not_equiv_of_gt h2
        rw [List.mem_cons, ih (List.pairwise_cons.mp hs).2, List.mem_cons, List.forall_mem_cons]
        constructor
        · rintro (hx | hx | ⟨hn, hx⟩)
          · exact Or.inl (Or.inl hx)
          · exact Or.inl (Or.inr hx)
          · exact Or.inr ⟨⟨hne, hn⟩, hx⟩
        · rintro ((hx | hx) | ⟨⟨-, hn⟩, hx⟩)
          · exact Or.inl hx
          · exact Or.inr (Or.inl hx)
          · exact Or.inr (Or.inr ⟨hn, hx⟩)
      · next h2 =>
        have heq : c.Equiv a b := ⟨by simpa using h1, by simpa using h2⟩
        constructor
        · exact fun hx => Or.inl hx
        · rintro (hx | ⟨hn, -⟩)
          · exact hx
          · exact absurd heq (hn b List.mem_cons_self)

theorem sorted_insertList {a : α} {l : List α} (hs : l.Pairwise fun a b => c.lt a b = true) :
    (insertList c a l).Pairwise fun a b => c.lt a b = true := by
  induction l with
  | nil => exact List.pairwise_singleton _ _
  | cons b l ih =>
    have hcons := List.pairwise_cons.mp hs
    rw [insertList]
    split
    · next h =>
      exact List.pairwise_cons.mpr ⟨Comparator.lt_of_lt_head hs h, hs⟩
    · split
      · next h2 =>
        refine List.pairwise_cons.mpr ⟨?_, ih hcons.2⟩
        intro x hx
        rcases (mem_insertList hcons.2).mp hx with hx | ⟨-, rfl⟩
        · exact hcons.1 x hx
        · exact h2
      · exact hs

/-- `s.insert(a)`. -/
def insert (s : OrdSet c) (a : α) : OrdSet c := ⟨insertList c a s.elems, sorted_insertList s.sorted⟩

theorem mem_insert {s : OrdSet c} {a x : α} :
    x ∈ (s.insert a).elems ↔ x ∈ s.elems ∨ ((∀ b ∈ s.elems, ¬ c.Equiv a b) ∧ x = a) :=
  mem_insertList s.sorted

/-- `s.find(a) != s.end()`. -/
def contains (s : OrdSet c) (a : α) : Bool := s.elems.any fun b => decide (c.Equiv a b)

theorem contains_iff {s : OrdSet c} {a : α} :
    s.contains a = true ↔ ∃ b ∈ s.elems, c.Equiv a b := by
  rw [contains, List.any_eq_true]
  simp only [decide_eq_true_eq]

/-- What was inserted has a representative in the set. -/
theorem exists_equiv_mem_insert (s : OrdSet c) (a : α) :
    ∃ b ∈ (s.insert a).elems, c.Equiv a b := by
  by_cases h : ∃ b ∈ s.elems, c.Equiv a b
  · obtain ⟨b, hb, heq⟩ := h
    exact ⟨b, mem_insert.mpr (Or.inl hb), heq⟩
  · push Not at h
    exact ⟨a, mem_insert.mpr (Or.inr ⟨h, rfl⟩), Comparator.Equiv.refl a⟩

/-- An equivalent element is in the way. -/
theorem insertList_of_equiv {a : α} {l : List α} (hs : l.Pairwise fun a b => c.lt a b = true)
    (h : ∃ b ∈ l, c.Equiv a b) : insertList c a l = l := by
  induction l with
  | nil =>
    obtain ⟨b, hb, -⟩ := h
    cases hb
  | cons b l ih =>
    have hcons := List.pairwise_cons.mp hs
    obtain ⟨b', hb', heq⟩ := h
    rw [insertList]
    split
    · next hlt =>
      exact absurd heq (Comparator.not_equiv_of_lt (Comparator.lt_of_lt_head hs hlt b' hb'))
    · split
      · next hlt =>
        have hb : b' ∈ l := by
          rcases List.mem_cons.mp hb' with rfl | hb'
          · exact absurd heq (Comparator.not_equiv_of_gt hlt)
          · exact hb'
        rw [ih hcons.2 ⟨b', hb, heq⟩]
      · rfl

theorem insert_of_equiv {s : OrdSet c} {a : α} (h : ∃ b ∈ s.elems, c.Equiv a b) :
    s.insert a = s := by
  obtain ⟨elems, sorted⟩ := s
  simp only [insert, insertList_of_equiv sorted h]

/-- Insert a list of elements one after the other. -/
def insertAll (s : OrdSet c) (l : List α) : OrdSet c := l.foldl insert s

theorem insertAll_of_equiv {s : OrdSet c} {l : List α}
    (h : ∀ a ∈ l, ∃ b ∈ s.elems, c.Equiv a b) : s.insertAll l = s := by
  induction l with
  | nil => rfl
  | cons a l ih =>
    rw [insertAll, List.foldl_cons, insert_of_equiv (h a List.mem_cons_self)]
    exact ih fun b hb => h b (List.mem_cons_of_mem _ hb)

theorem mem_of_mem_insertAll {s : OrdSet c} {l : List α} {x : α}
    (h : x ∈ (s.insertAll l).elems) : x ∈ s.elems ∨ x ∈ l := by
  induction l generalizing s with
  | nil => exact Or.inl h
  | cons a l ih =>
    rcases ih h with h | h
    · exact (mem_insert.mp h).imp id fun ⟨_, heq⟩ => heq ▸ List.mem_cons_self
    · exact Or.inr (List.mem_cons_of_mem _ h)

/-! ### The first of each class -/

/-- Of the elements of each class, the one that comes first. -/
def firsts (c : Comparator α) : List α → List α
  | [] => []
  | a :: l => a :: (firsts c l).filter fun b => !decide (c.Equiv a b)

theorem perm_insertList {a : α} {l : List α} (hnew : ∀ b ∈ l, ¬ c.Equiv a b) :
    (insertList c a l).Perm (a :: l) := by
  induction l with
  | nil => exact List.Perm.refl _
  | cons b l ih =>
    rw [List.forall_mem_cons] at hnew
    rw [insertList]
    split
    · exact List.Perm.refl _
    · next h1 =>
      split
      · exact ((ih hnew.2).cons b).trans (List.Perm.swap a b l)
      · next h2 => exact absurd ⟨by simpa using h1, by simpa using h2⟩ hnew.1

/-- No element of the set is equivalent. -/
def isNew (s : OrdSet c) (b : α) : Bool := !s.contains b

theorem isNew_iff {s : OrdSet c} {b : α} : s.isNew b = true ↔ ∀ x ∈ s.elems, ¬ c.Equiv b x := by
  rw [isNew, Bool.not_eq_true', Bool.eq_false_iff, ne_eq, contains_iff]
  simp

theorem isNew_of_equiv {s : OrdSet c} {a b : α} (h : c.Equiv a b) : s.isNew a = s.isNew b := by
  rw [Bool.eq_iff_iff, isNew_iff, isNew_iff]
  constructor
  · exact fun hnone x hx heq => hnone x hx (h.trans heq)
  · exact fun hnone x hx heq => hnone x hx (h.symm.trans heq)

/-- What is new after an insertion. -/
theorem isNew_insert {s : OrdSet c} {a : α} (hnew : s.isNew a = true) (b : α) :
    (s.insert a).isNew b = (!decide (c.Equiv a b) && s.isNew b) := by
  rw [Bool.eq_iff_iff, isNew_iff, Bool.and_eq_true, isNew_iff, Bool.not_eq_true',
    decide_eq_false_iff_not]
  constructor
  · intro hnone
    have hmem : a ∈ (s.insert a).elems := mem_insert.mpr (Or.inr ⟨isNew_iff.mp hnew, rfl⟩)
    exact ⟨fun heq => hnone a hmem heq.symm, fun x hx => hnone x (mem_insert.mpr (Or.inl hx))⟩
  · rintro ⟨hne, hnone⟩ x hx
    rcases mem_insert.mp hx with hx | ⟨-, rfl⟩
    · exact hnone x hx
    · exact fun heq => hne heq.symm

theorem perm_insertAll (s : OrdSet c) (l : List α) :
    (s.insertAll l).elems.Perm (s.elems ++ (firsts c l).filter s.isNew) := by
  induction l generalizing s with
  | nil => simp [insertAll, firsts]
  | cons a l ih =>
    rw [insertAll, List.foldl_cons, ← insertAll]
    refine (ih (s.insert a)).trans ?_
    rw [firsts]
    by_cases hnew : s.isNew a = true
    · have hperm := perm_insertList (isNew_iff.mp hnew)
      have hfilter : (firsts c l).filter (s.insert a).isNew =
          ((firsts c l).filter fun b => !decide (c.Equiv a b)).filter s.isNew := by
        rw [List.filter_filter]
        apply List.filter_congr
        intro b _
        rw [isNew_insert hnew, Bool.and_comm]
      rw [hfilter, List.filter_cons_of_pos hnew]
      exact (hperm.append_right _).trans List.perm_middle.symm
    · have hold : ∃ b ∈ s.elems, c.Equiv a b := by
        by_contra hnone
        push Not at hnone
        exact hnew (isNew_iff.mpr hnone)
      rw [insert_of_equiv hold, List.filter_cons_of_neg hnew, List.filter_filter]
      apply List.Perm.append_left
      apply List.Perm.of_eq
      apply List.filter_congr
      intro b _
      -- an element that is equivalent to `a` is not new either
      by_cases hab : c.Equiv a b
      · simp [← isNew_of_equiv hab, hnew]
      · simp [hab]

/-- **What is inserted into an empty set is there if it is the first of its class.** -/
theorem perm_insertAll_empty (l : List α) :
    ((∅ : OrdSet c).insertAll l).elems.Perm (firsts c l) := by
  have hperm := perm_insertAll (∅ : OrdSet c) l
  have hall : (firsts c l).filter (∅ : OrdSet c).isNew = firsts c l :=
    List.filter_eq_self.mpr fun _ _ => rfl
  rw [hall] at hperm
  exact hperm

theorem contains_insertAll_iff {s : OrdSet c} {l : List α} {a : α} :
    (s.insertAll l).contains a = true ↔ s.contains a = true ∨ ∃ b ∈ l, c.Equiv a b := by
  induction l generalizing s with
  | nil => simp [insertAll]
  | cons b l ih =>
    rw [insertAll, List.foldl_cons, ← insertAll, ih, contains_iff, contains_iff]
    constructor
    · rintro (⟨x, hx, heq⟩ | ⟨x, hx, heq⟩)
      · rcases mem_insert.mp hx with hx | ⟨-, rfl⟩
        · exact Or.inl ⟨x, hx, heq⟩
        · exact Or.inr ⟨x, List.mem_cons_self, heq⟩
      · exact Or.inr ⟨x, List.mem_cons_of_mem _ hx, heq⟩
    · rintro (⟨x, hx, heq⟩ | ⟨x, hx, heq⟩)
      · exact Or.inl ⟨x, mem_insert.mpr (Or.inl hx), heq⟩
      · rcases List.mem_cons.mp hx with rfl | hx
        · obtain ⟨y, hy, hxy⟩ := s.exists_equiv_mem_insert x
          exact Or.inl ⟨y, hy, heq.trans hxy⟩
        · exact Or.inr ⟨x, hx, heq⟩

/-! ### Walking over a set -/

/-- What an iterator has in front of it when it was last at an element, or before
the beginning. -/
def after (s : OrdSet c) : Option α → List α
  | none => s.elems
  | some a => s.elems.filter (c.lt a)

/-- The iterator goes on to the next element. -/
theorem after_some_of_after_eq_cons {s : OrdSet c} {pos : Option α} {b : α} {l : List α}
    (h : s.after pos = b :: l) : s.after (some b) = l := by
  have hsorted : (b :: l).Pairwise fun a b => c.lt a b = true := by
    rw [← h]
    cases pos with
    | none => exact s.sorted
    | some a => exact s.sorted.filter _
  have hrest : (b :: l).filter (c.lt b) = l := by
    rw [List.filter_cons, if_neg (by simp [c.irrefl]), List.filter_eq_self]
    exact (List.pairwise_cons.mp hsorted).1
  rw [← hrest, ← h]
  cases pos with
  | none => rfl
  | some a =>
    -- what is behind `b` is behind `a`
    have hab : c.lt a b = true := by
      have hmem : b ∈ s.after (some a) := h ▸ List.mem_cons_self
      exact (List.mem_filter.mp hmem).2
    rw [after, after, List.filter_filter]
    apply List.filter_congr
    intro x _
    cases hbx : c.lt b x with
    | false => rfl
    | true => rw [c.trans _ _ _ hab hbx]; rfl

/-- An insertion in front of the iterator is not noticed. -/
theorem after_insert (s : OrdSet c) (a z : α) :
    (s.insert z).after (some a) =
      if c.lt a z = true then insertList c z (s.after (some a)) else s.after (some a) := by
  show (insertList c z s.elems).filter (c.lt a) =
    if c.lt a z = true then insertList c z (s.elems.filter (c.lt a)) else s.elems.filter (c.lt a)
  induction s.elems with
  | nil => cases h : c.lt a z <;> simp [insertList, h]
  | cons b l ih =>
    rw [insertList]
    -- whether the iterator will meet `z` depends on nothing but their order
    by_cases haz : c.lt a z = true
    · rw [if_pos haz] at ih ⊢
      split
      · next hzb =>
        have hab : c.lt a b = true := c.trans _ _ _ haz hzb
        rw [List.filter_cons, if_pos haz, List.filter_cons, if_pos hab, insertList, if_pos hzb]
      · next hzb =>
        split
        · next hbz =>
          cases hab : c.lt a b with
          | false => rw [List.filter_cons, if_neg (by simp [hab]), List.filter_cons,
              if_neg (by simp [hab]), ih]
          | true => rw [List.filter_cons, if_pos hab, List.filter_cons, if_pos hab, insertList,
              if_neg hzb, if_pos hbz, ih]
        · next hbz =>
          have hab : c.lt a b = true :=
            c.lt_of_lt_of_le haz (by simpa using hbz)
          rw [List.filter_cons, if_pos hab, insertList, if_neg hzb, if_neg hbz]
    · rw [if_neg haz] at ih ⊢
      split
      · rw [List.filter_cons, if_neg haz]
      · split
        · rw [List.filter_cons, List.filter_cons, ih]
        · rfl

end OrdSet
