import SniffDogSniff.Common.StringUtil
import Mathlib.Data.List.Infix

/-!
# The pieces of a split string

`split` looks for the delimiter, takes what is in front of it, and goes on behind it.

## Main definitions

* `occurrences` — how often a string has the delimiter, counted from left to right
  without overlaps.

## Main results

* `find_eq_some`, `find_eq_none` — what `find` finds.
* `split_spec` — **joining the pieces gives the string back, no piece has the delimiter,
  and there is one piece more than the string has delimiters.**
-/

namespace SniffDogSniff.StringUtil

/-! ### What is found -/

/-- `find` finds the first place. -/
theorem find_eq_some {needle : Bytes} {s : Bytes} {i : ℕ} (h : find needle s = some i) :
    needle <+: s.drop i ∧ ∀ j < i, ¬ needle <+: s.drop j := by
  induction s generalizing i with
  | nil =>
    rw [find] at h
    split at h
    · next hnil =>
      cases h
      rw [hnil]
      exact ⟨List.nil_prefix, fun j hj => absurd hj (Nat.not_lt_zero j)⟩
    · cases h
  | cons c s ih =>
    rw [find] at h
    split at h
    · next hstart =>
      cases h
      exact ⟨List.isPrefixOf_iff_prefix.mp hstart, fun j hj => absurd hj (Nat.not_lt_zero j)⟩
    · next hstart =>
      obtain ⟨i', hi', rfl⟩ := Option.map_eq_some_iff.mp h
      obtain ⟨hthere, hfirst⟩ := ih hi'
      refine ⟨hthere, fun j hj => ?_⟩
      cases j with
      | zero => exact fun hnow => hstart (List.isPrefixOf_iff_prefix.mpr hnow)
      | succ j => exact hfirst j (Nat.lt_of_succ_lt_succ hj)

/-- Where `find` finds nothing, there is nothing. -/
theorem find_eq_none {needle : Bytes} {s : Bytes} (h : find needle s = none) :
    ¬ needle <:+: s := by
  induction s with
  | nil =>
    rw [find] at h
    split at h
    · cases h
    · next hne => exact fun hinside => hne (List.infix_nil.mp hinside)
  | cons c s ih =>
    rw [find] at h
    split at h
    · cases h
    · next hstart =>
      rw [List.infix_cons_iff, not_or]
      exact ⟨fun hnow => hstart (List.isPrefixOf_iff_prefix.mpr hnow),
        ih (Option.map_eq_none_iff.mp h)⟩

/-- The part in front of the first place does not have the needle. -/
theorem find_not_in_take {needle s : Bytes} {i : ℕ} (hne : needle ≠ [])
    (h : find needle s = some i) : ¬ needle <:+: s.take i := by
  rintro ⟨front, behind, heq⟩
  have hlen := congrArg List.length heq
  have hpos := List.length_pos_iff.mpr hne
  simp only [List.length_append, List.length_take] at hlen
  have hlt : front.length < i := by omega
  have hthere : needle <+: s.drop front.length := by
    have hs : s = front ++ (needle ++ (behind ++ s.drop i)) := by
      rw [← List.append_assoc needle, ← List.append_assoc front, ← List.append_assoc front, heq,
        List.take_append_drop]
    rw [hs, List.drop_left]
    exact List.prefix_append _ _
  exact (find_eq_some h).2 _ hlt hthere

/-! ### Counting -/

/-- The number of occurrences; `skip` bytes still belong to the last one. -/
def occurrencesFrom (delim : Bytes) : ℕ → Bytes → ℕ
  | _, [] => 0
  | skip + 1, _ :: s => occurrencesFrom delim skip s
  | 0, c :: s =>
      if delim.isPrefixOf (c :: s) then occurrencesFrom delim (delim.length - 1) s + 1
      else occurrencesFrom delim 0 s

/-- How often a string has the delimiter, from left to right and without overlaps. -/
def occurrences (delim s : Bytes) : ℕ := occurrencesFrom delim 0 s

theorem occurrencesFrom_eq (delim : Bytes) :
    ∀ (skip : ℕ) (s : Bytes), occurrencesFrom delim skip s = occurrences delim (s.drop skip) := by
  intro skip
  induction skip with
  | zero => exact fun s => rfl
  | succ skip ih =>
    intro s
    cases s with
    | nil => rfl
    | cons c s => exact ih s

/-- A string that has the delimiter has one more than what is behind it. -/
theorem occurrences_of_find {delim s : Bytes} {i : ℕ} (hne : delim ≠ [])
    (h : find delim s = some i) :
    occurrences delim s = occurrences delim (s.drop (i + delim.length)) + 1 := by
  induction s generalizing i with
  | nil => simp [find, hne] at h
  | cons c s ih =>
    have hpos := List.length_pos_iff.mpr hne
    rw [find] at h
    rw [occurrences, occurrencesFrom]
    split at h
    · next hstart =>
      cases h
      obtain ⟨n, hn⟩ := Nat.exists_eq_succ_of_ne_zero (Nat.ne_of_gt hpos)
      rw [if_pos hstart, occurrencesFrom_eq, Nat.zero_add, hn]
      rfl
    · next hstart =>
      obtain ⟨i', hi', rfl⟩ := Option.map_eq_some_iff.mp h
      rw [if_neg hstart, Nat.succ_add]
      exact ih hi'

theorem occurrences_eq_zero {delim s : Bytes} (h : ¬ delim <:+: s) :
    occurrences delim s = 0 := by
  induction s with
  | nil => rfl
  | cons c s ih =>
    rw [List.infix_cons_iff, not_or] at h
    rw [occurrences, occurrencesFrom,
      if_neg fun hstart => h.1 (List.isPrefixOf_iff_prefix.mp hstart)]
    exact ih h.2

/-! ### The pieces -/

/-- The pieces of a string are as they should be. -/
structure Pieces (delim s : Bytes) (pieces : List Bytes) : Prop where
  joined : delim.intercalate pieces = s
  not_infix : ∀ p ∈ pieces, ¬ delim <:+: p
  length_eq : pieces.length = occurrences delim s + 1

/-- One more piece in front. -/
theorem Pieces.cons {delim s : Bytes} {pieces : List Bytes} {i : ℕ} (hne : delim ≠ [])
    (h : find delim s = some i) (hp : Pieces delim (s.drop (i + delim.length)) pieces) :
    Pieces delim s (s.take i :: pieces) where
  joined := by
    have hpieces : pieces ≠ [] := by
      rintro rfl
      exact absurd hp.length_eq (Nat.succ_ne_zero _).symm
    obtain ⟨rest, hrest⟩ := (find_eq_some h).1
    rw [List.intercalate_cons_of_ne_nil hpieces, hp.joined, ← List.drop_drop, ← hrest,
      List.drop_left, List.append_assoc, hrest, List.take_append_drop]
  not_infix := by
    intro p hmem
    rcases List.mem_cons.mp hmem with rfl | hmem
    · exact find_not_in_take hne h
    · exact hp.not_infix p hmem
  length_eq := by
    rw [List.length_cons, hp.length_eq, occurrences_of_find hne h]

/-- The loop, with enough rounds left. -/
theorem splitLoop_spec {delim : Bytes} (hne : delim ≠ []) :
    ∀ n (s : Bytes), s.length < n →
      ∃ pieces, splitLoop delim n s = some pieces ∧ Pieces delim s pieces := by
  intro n
  induction n with
  | zero =>
    intro s hlt
    exact absurd hlt (Nat.not_lt_zero _)
  | succ n ih =>
    intro s hlt
    rw [splitLoop]
    cases hfind : find delim s with
    | none =>
      have hnot := find_eq_none hfind
      refine ⟨[s], rfl, List.intercalate_singleton, ?_, ?_⟩
      · intro p hp
        rwa [List.mem_singleton.mp hp]
      · rw [occurrences_eq_zero hnot]
        rfl
    | some i =>
      have hpos := List.length_pos_iff.mpr hne
      have hsome : s ≠ [] := by
        rintro rfl
        simp [find, hne] at hfind
      have hshort : (s.drop (i + delim.length)).length < n := by
        have hlen := List.length_pos_iff.mpr hsome
        rw [List.length_drop]
        omega
      obtain ⟨pieces, hpieces, hp⟩ := ih _ hshort
      exact ⟨s.take i :: pieces, congrArg (Option.map _) hpieces, hp.cons hne hfind⟩

/-- **Splitting returns; joining the pieces gives the string back, no piece has the
delimiter, and there is one piece more than the string has delimiters.** -/
theorem split_spec {delim : Bytes} (hne : delim ≠ []) (s : Bytes) :
    ∃ pieces, split s delim = some pieces ∧ delim.intercalate pieces = s ∧
      (∀ p ∈ pieces, ¬ delim <:+: p) ∧ pieces.length = occurrences delim s + 1 := by
  obtain ⟨pieces, hpieces, hp⟩ := splitLoop_spec hne (s.length + 1) s (Nat.lt_succ_self _)
  exact ⟨pieces, hpieces, hp.joined, hp.not_infix, hp.length_eq⟩

/-- The string "aaa", with the delimiter "aa". -/
theorem split_spec_overlapping :
    ∃ pieces, split [97, 97, 97] [97, 97] = some pieces ∧
      [97, 97].intercalate pieces = [97, 97, 97] ∧
        (∀ p ∈ pieces, ¬ [97, 97] <:+: p) ∧ pieces.length = occurrences [97, 97] [97, 97, 97] + 1 :=
  split_spec (List.cons_ne_nil 97 [97]) [97, 97, 97]

end SniffDogSniff.StringUtil
