import Mathlib.Data.List.Sort

/-!
# Comparators and sorting

A C++ container or algorithm takes a comparator, a boolean "less than", and asks
one thing of it: to be a strict weak ordering.  Elements neither of which is less
are *equivalent*; they need not be equal, and whatever is built on the comparator
cannot tell them apart.

## Main definitions

* `Comparator α` — a boolean "less than" that is a strict weak ordering.
* `Comparator.Equiv` — neither element is less.
* `Comparator.ofKey`, `Comparator.lex` — by a numeric key, and by the first difference.
* `StdSort` — a sorting procedure with what it promises: a permutation, in order,
  and nothing about the places of equivalent elements.
* `StdSort.insertion` — one such procedure.

## Main results

* `StdSort.countP_equiv_take` — how many elements of a class are among the first of a
  sorted list.
-/

/-- A boolean "less than" that is a strict weak ordering. -/
structure Comparator (α : Type) where
  lt : α → α → Bool
  irrefl : ∀ a, lt a a = false
  trans : ∀ a b c, lt a b = true → lt b c = true → lt a c = true
  incomp : ∀ a b c, lt a b = false → lt b c = false → lt a c = false

namespace Comparator

variable {α β : Type} (c : Comparator α)

/-- Neither element is less than the other. -/
def Equiv (a b : α) : Prop := c.lt a b = false ∧ c.lt b a = false

instance (a b : α) : Decidable (c.Equiv a b) := inferInstanceAs (Decidable (_ ∧ _))

/-- Compare by a numeric key. -/
def ofKey (key : α → ℤ) : Comparator α where
  lt a b := decide (key a < key b)
  irrefl a := by simp
  trans a b d hab hbd := by
    simp only [decide_eq_true_eq] at *
    omega
  incomp a b d hab hbd := by
    simp only [decide_eq_false_iff_not, not_lt] at *
    omega

/-- Compare the images under a function. -/
def comap (f : β → α) : Comparator β where
  lt a b := c.lt (f a) (f b)
  irrefl a := c.irrefl (f a)
  trans a b d := c.trans (f a) (f b) (f d)
  incomp a b d := c.incomp (f a) (f b) (f d)

variable {c}

theorem asymm {a b : α} (hab : c.lt a b = true) : c.lt b a = false := by
  cases hba : c.lt b a with
  | false => rfl
  | true =>
    have haa := c.trans a b a hab hba
    rw [c.irrefl a] at haa
    exact absurd haa (by simp)

theorem lt_of_lt_of_le {a b d : α} (hab : c.lt a b = true) (hdb : c.lt d b = false) :
    c.lt a d = true := by
  cases had : c.lt a d with
  | true => rfl
  | false =>
    have := c.incomp a d b had hdb
    rw [hab] at this
    exact absurd this (by simp)

theorem lt_of_le_of_lt {a b d : α} (hba : c.lt b a = false) (hbd : c.lt b d = true) :
    c.lt a d = true := by
  cases had : c.lt a d with
  | true => rfl
  | false =>
    have := c.incomp b a d hba had
    rw [hbd] at this
    exact absurd this (by simp)

theorem Equiv.refl (a : α) : c.Equiv a a := ⟨c.irrefl a, c.irrefl a⟩

theorem Equiv.symm {a b : α} (h : c.Equiv a b) : c.Equiv b a := ⟨h.2, h.1⟩

theorem Equiv.trans {a b d : α} (h : c.Equiv a b) (h' : c.Equiv b d) : c.Equiv a d :=
  ⟨c.incomp a b d h.1 h'.1, c.incomp d b a h'.2 h.2⟩

theorem Equiv.lt_left {a b d : α} (h : c.Equiv a b) (hbd : c.lt b d = true) : c.lt a d = true :=
  lt_of_le_of_lt h.2 hbd

theorem Equiv.lt_right {a b d : α} (h : c.Equiv a b) (hdb : c.lt d b = true) : c.lt d a = true :=
  lt_of_lt_of_le hdb h.1

/-- What is less is not equivalent. -/
theorem not_equiv_of_lt {a b : α} (h : c.lt a b = true) : ¬ c.Equiv a b := by
  intro heq
  rw [heq.1] at h
  cases h

theorem not_equiv_of_gt {a b : α} (h : c.lt b a = true) : ¬ c.Equiv a b :=
  fun heq => not_equiv_of_lt h heq.symm

/-- What is less than the first element of an ascending list is less than all of it. -/
theorem lt_of_lt_head {f : β → α} {a : α} {b : β} {l : List β}
    (hs : (b :: l).Pairwise fun x y => c.lt (f x) (f y) = true) (h : c.lt a (f b) = true) :
    ∀ x ∈ b :: l, c.lt a (f x) = true := by
  intro x hx
  rcases List.mem_cons.mp hx with rfl | hx
  · exact h
  · exact c.trans _ _ _ h ((List.pairwise_cons.mp hs).1 x hx)

/-! ### Lexicographic order -/

/-- The first difference decides; a proper prefix is less. -/
def lexLt (c : Comparator α) : List α → List α → Bool
  | _, [] => false
  | [], _ :: _ => true
  | a :: l, b :: m => if c.lt a b then true else if c.lt b a then false else lexLt c l m

theorem lexLt_cons_iff {a b : α} {l m : List α} :
    lexLt c (a :: l) (b :: m) = true ↔ c.lt a b = true ∨ (c.Equiv a b ∧ lexLt c l m = true) := by
  rw [lexLt]
  cases hab : c.lt a b with
  | true => simp
  | false =>
    cases hba : c.lt b a with
    | true => simp [Equiv, hba]
    | false => simp [Equiv, hab, hba]

theorem lexLt_irrefl (l : List α) : lexLt c l l = false := by
  induction l with
  | nil => rfl
  | cons a l ih => simp [lexLt, c.irrefl a, ih]

theorem lexLt_trans : ∀ l m n : List α,
    lexLt c l m = true → lexLt c m n = true → lexLt c l n = true := by
  intro l
  induction l with
  | nil =>
    intro m n hlm hmn
    cases n with
    | nil => cases m <;> simp [lexLt] at hmn
    | cons d n => rfl
  | cons a l ih =>
    intro m n hlm hmn
    cases m with
    | nil => simp [lexLt] at hlm
    | cons b m =>
      cases n with
      | nil => simp [lexLt] at hmn
      | cons d n =>
        rw [lexLt_cons_iff] at hlm hmn ⊢
        -- the earlier of the two first differences decides
        rcases hlm with hab | ⟨hab, hlm⟩
        · rcases hmn with hbd | ⟨hbd, hmn⟩
          · exact Or.inl (c.trans a b d hab hbd)
          · exact Or.inl (hbd.symm.lt_right hab)
        · rcases hmn with hbd | ⟨hbd, hmn⟩
          · exact Or.inl (hab.lt_left hbd)
          · exact Or.inr ⟨hab.trans hbd, ih m n hlm hmn⟩

theorem lexLt_cons_eq_false_iff {a b : α} {l m : List α} :
    lexLt c (a :: l) (b :: m) = false ↔
      c.lt b a = true ∨ (c.Equiv a b ∧ lexLt c l m = false) := by
  rw [lexLt]
  cases hab : c.lt a b with
  | true => simp [Equiv, hab, asymm hab]
  | false =>
    cases hba : c.lt b a with
    | true => simp
    | false => simp [Equiv, hab, hba]

theorem lexLt_incomp : ∀ l m n : List α,
    lexLt c l m = false → lexLt c m n = false → lexLt c l n = false := by
  intro l
  induction l with
  | nil =>
    intro m n hlm hmn
    cases m with
    | nil => exact hmn
    | cons b m => simp [lexLt] at hlm
  | cons a l ih =>
    intro m n hlm hmn
    cases n with
    | nil => rfl
    | cons d n =>
      cases m with
      | nil => simp [lexLt] at hmn
      | cons b m =>
        rw [lexLt_cons_eq_false_iff] at hlm hmn ⊢
        rcases hlm with hba | ⟨hab, hlm⟩
        · rcases hmn with hdb | ⟨hbd, hmn⟩
          · exact Or.inl (c.trans d b a hdb hba)
          · exact Or.inl (hbd.symm.lt_left hba)
        · rcases hmn with hdb | ⟨hbd, hmn⟩
          · exact Or.inl (hab.lt_right hdb)
          · exact Or.inr ⟨hab.trans hbd, ih m n hlm hmn⟩

/-- Compare lists by their first difference. -/
def lex (c : Comparator α) : Comparator (List α) where
  lt := lexLt c
  irrefl := lexLt_irrefl
  trans := lexLt_trans
  incomp := lexLt_incomp

/-- Lists that are equivalent are equal, if their elements are. -/
theorem eq_of_lex_equiv (hc : ∀ a b, c.Equiv a b → a = b) :
    ∀ l m : List α, c.lex.Equiv l m → l = m := by
  intro l
  induction l with
  | nil =>
    intro m h
    cases m with
    | nil => rfl
    | cons b m => exact Bool.noConfusion (h.1 : true = false)
  | cons a l ih =>
    intro m h
    cases m with
    | nil => exact Bool.noConfusion (h.2 : true = false)
    | cons b m =>
      rcases lexLt_cons_eq_false_iff.mp h.1 with hba | ⟨hab, hlm⟩
      · rcases lexLt_cons_eq_false_iff.mp h.2 with hab | ⟨hba', -⟩
        · exact absurd hab (by simp [asymm hba])
        · exact absurd hba' (not_equiv_of_lt hba)
      · rcases lexLt_cons_eq_false_iff.mp h.2 with hlt | ⟨-, hml⟩
        · exact absurd hab (not_equiv_of_lt hlt)
        · rw [hc a b hab, ih m ⟨hlm, hml⟩]

end Comparator

/-! ### Sorting -/

/-- A sorting procedure, with what it promises: the result is a permutation of
the input, and no element is less than an earlier one.  Which of two equivalent
elements comes first is not promised. -/
structure StdSort where
  sort : {α : Type} → Comparator α → List α → List α
  perm : ∀ {α : Type} (c : Comparator α) (l : List α), (sort c l).Perm l
  sorted : ∀ {α : Type} (c : Comparator α) (l : List α),
    (sort c l).Pairwise fun a b => c.lt b a = false

namespace StdSort

variable {α : Type}

theorem length_sort (std : StdSort) (c : Comparator α) (l : List α) :
    (std.sort c l).length = l.length :=
  (std.perm c l).length_eq

/-- A least element comes first. -/
theorem exists_least_mem_take (std : StdSort) (c : Comparator α) {l : List α} {a : α}
    (ha : a ∈ l) {n : ℕ} (hn : 0 < n) :
    ∃ x ∈ (std.sort c l).take n, ∀ b ∈ l, c.lt b x = false := by
  have hperm := std.perm c l
  have hsorted := std.sorted c l
  cases hsort : std.sort c l with
  | nil =>
    rw [hsort] at hperm
    exact absurd (hperm.mem_iff.mpr ha) List.not_mem_nil
  | cons x m =>
    rw [hsort] at hperm hsorted
    refine ⟨x, ?_, fun b hb => ?_⟩
    · rw [List.take_cons hn]
      exact List.mem_cons_self
    · rcases List.mem_cons.mp (hperm.mem_iff.mpr hb) with rfl | hb
      · exact c.irrefl b
      · exact (List.pairwise_cons.mp hsorted).1 b hb

/-- **How many elements of a class are among the first of a sorted list**: the smaller ones
come first. -/
theorem countP_equiv_take {c : Comparator α} {l : List α}
    (hs : l.Pairwise fun a b => c.lt b a = false) (x : α) (n : ℕ) :
    (l.take n).countP (fun a => decide (c.Equiv a x)) =
      min (n - l.countP (c.lt · x)) (l.countP fun a => decide (c.Equiv a x)) := by
  induction l generalizing n with
  | nil => simp
  | cons a l ih =>
    obtain ⟨hhead, htail⟩ := List.pairwise_cons.mp hs
    cases n with
    | zero => simp
    | succ n =>
      rw [List.take_succ_cons, List.countP_cons, List.countP_cons, List.countP_cons, ih htail]
      cases hax : c.lt a x with
      | true =>
        simp [Comparator.not_equiv_of_lt hax]
      | false =>
        -- nothing behind `a` is less than `x`
        have hnone : l.countP (c.lt · x) = 0 := List.countP_eq_zero.mpr fun b hb => by
          simp [c.incomp b a x (hhead b hb) hax]
        rw [hnone]
        cases hxa : c.lt x a with
        | true =>
          -- nor is anything equivalent to it
          have hnoneEq : (l.countP fun b => decide (c.Equiv b x)) = 0 :=
            List.countP_eq_zero.mpr fun b hb => by
              have hxb := Comparator.lt_of_lt_of_le hxa (hhead b hb)
              simpa using Comparator.not_equiv_of_gt hxb
          simp [hnoneEq, Comparator.not_equiv_of_gt hxa]
        | false => simp [Comparator.Equiv, hax, hxa]

/-- Not being behind, the relation that `List.insertionSort` sorts by. -/
def NotAfter (c : Comparator α) (a b : α) : Prop := c.lt b a = false

instance (c : Comparator α) : DecidableRel (NotAfter c) := fun a b =>
  inferInstanceAs (Decidable (c.lt b a = false))

instance (c : Comparator α) : Std.Total (NotAfter c) where
  total a b := by
    by_cases h : c.lt b a = true
    · exact Or.inr (Comparator.asymm h)
    · exact Or.inl (by simpa [NotAfter] using h)

instance (c : Comparator α) : IsTrans α (NotAfter c) where
  trans a b d hab hbd := c.incomp d b a hbd hab

/-- Insertion sort keeps the promise. -/
def insertion : StdSort where
  sort c := List.insertionSort (NotAfter c)
  perm _ l := List.perm_insertionSort _ l
  sorted c l := List.pairwise_insertionSort (NotAfter c) l

end StdSort
