import SniffDogSniff.Common.StringUtil
import Mathlib.Data.List.Infix
import Mathlib.Data.List.Forall2

/-!
# Letter case

Strings that differ in the case of letters alone, and what `find` and `split` make
of them.

## Main definitions

* `CaseVariant` — a string with some letters in the other case.
* `toUpper` — the variant without lower-case letters.
* `letterless` — a string whose variants are itself.

## Main results

* `caseVariant_iff` — variants are what `toLower` does not tell apart.
* `find_toUpper` — a lower-case string is found among upper-case letters if and only
  if it is found there in any case.
* `length_split_toLower` — letter case does not move the spaces.
* `tolower_of_mem_tokenize` — tokens have no upper-case letters.
-/

namespace SniffDogSniff.StringUtil

/-! ### Letters -/

def isLetter (c : UInt8) : Bool := decide (65 ≤ c ∧ c ≤ 90 ∨ 97 ≤ c ∧ c ≤ 122)

/-- A letter in the other case. -/
def swapCase (c : UInt8) : UInt8 :=
  if 65 ≤ c ∧ c ≤ 90 then c + 32 else if 97 ≤ c ∧ c ≤ 122 then c - 32 else c

/-- `toupper` in the C locale. -/
def toupper (c : UInt8) : UInt8 := if 97 ≤ c ∧ c ≤ 122 then c - 32 else c

def toUpper (s : Bytes) : Bytes := s.map toupper

def letterless (s : Bytes) : Bool := s.all fun c => !isLetter c

/-- `s'` is `s` with some of its letters in the other case. -/
def CaseVariant (s s' : Bytes) : Prop := List.Forall₂ (fun c c' => c' = c ∨ c' = swapCase c) s s'

theorem tolower_eq_iff (c c' : UInt8) : tolower c' = tolower c ↔ c' = c ∨ c' = swapCase c := by
  unfold tolower swapCase
  grind

@[simp] theorem tolower_tolower (c : UInt8) : tolower (tolower c) = tolower c := by
  unfold tolower
  grind

@[simp] theorem tolower_toupper (c : UInt8) : tolower (toupper c) = tolower c := by
  unfold tolower toupper
  grind

@[simp] theorem toupper_tolower (c : UInt8) : toupper (tolower c) = toupper c := by
  unfold tolower toupper
  grind

theorem toupper_of_not_isLetter {c : UInt8} (h : isLetter c = false) : toupper c = c := by
  unfold isLetter at h
  unfold toupper
  grind

/-- An upper-case character that lower-casing leaves alone is no letter. -/
theorem not_isLetter_toupper {c : UInt8} (h : tolower (toupper c) = toupper c) :
    isLetter (toupper c) = false := by
  unfold isLetter
  unfold tolower toupper at *
  grind

theorem eq_of_toupper_eq {c d : UInt8} (h : toupper c = d) (hd : isLetter d = false) : c = d := by
  unfold isLetter at hd
  unfold toupper at h
  grind

/-! ### Variants -/

/-- **Variants are what `toLower` does not tell apart.** -/
theorem caseVariant_iff {s s' : Bytes} : CaseVariant s s' ↔ toLower s' = toLower s := by
  unfold CaseVariant toLower
  induction s generalizing s' with
  | nil => simp [List.forall₂_nil_left_iff]
  | cons c s ih =>
    cases s' with
    | nil => simp [List.forall₂_nil_right_iff]
    | cons c' s' =>
      rw [List.forall₂_cons, ih, List.map_cons, List.map_cons, List.cons.injEq, tolower_eq_iff]

@[simp] theorem toLower_toLower (s : Bytes) : toLower (toLower s) = toLower s := by
  simp [toLower, List.map_map, Function.comp_def]

@[simp] theorem toLower_toUpper (s : Bytes) : toLower (toUpper s) = toLower s := by
  simp [toLower, toUpper, List.map_map, Function.comp_def]

@[simp] theorem toUpper_toLower (s : Bytes) : toUpper (toLower s) = toUpper s := by
  simp [toLower, toUpper, List.map_map, Function.comp_def]

theorem toUpper_eq_of_toLower_eq {s s' : Bytes} (h : toLower s' = toLower s) :
    toUpper s' = toUpper s := by
  rw [← toUpper_toLower, h, toUpper_toLower]

theorem toLower_eq_self_iff {s : Bytes} : toLower s = s ↔ ∀ c ∈ s, tolower c = c := by
  have hmap := List.map_inj_left (f := tolower) (g := id) (l := s)
  rwa [List.map_id] at hmap

/-! ### Finding a string -/

/-- `find` finds what is there. -/
theorem isSome_find_iff {needle : Bytes} (s : Bytes) : (find needle s).isSome = true ↔ needle <:+: s := by
  induction s with
  | nil =>
    rw [find, List.infix_nil]
    split
    · next h => exact iff_of_true rfl h
    · next h => exact iff_of_false (by simp) h
  | cons c s ih =>
    rw [find, List.infix_cons_iff, ← ih]
    split
    · next h => exact iff_of_true rfl (Or.inl (by simpa using h))
    · next h =>
      have hno : ¬ needle <+: c :: s := by simpa using h
      rw [Option.isSome_map]
      exact (or_iff_right hno).symm

/-- What is found in a variant is found in lower case. -/
theorem isSome_find_toLower {needle s s' : Bytes} (hlow : toLower needle = needle)
    (hs : toLower s' = toLower s) (h : (find needle s').isSome = true) :
    (find needle (toLower s)).isSome = true := by
  rw [isSome_find_iff] at h ⊢
  rw [← hs, ← hlow]
  exact h.map tolower

theorem toUpper_of_letterless {s : Bytes} (h : letterless s = true) : toUpper s = s := by
  have hid : ∀ c ∈ s, toupper c = c := by
    intro c hc
    have hletter := List.all_eq_true.mp h c hc
    exact toupper_of_not_isLetter (by simpa using hletter)
  rw [toUpper, List.map_congr_left hid, List.map_id']

theorem eq_of_toUpper_eq {s t : Bytes} (ht : letterless t = true) (h : toUpper s = t) : s = t := by
  induction s generalizing t with
  | nil => exact h
  | cons c s ih =>
    cases t with
    | nil => cases h
    | cons d t =>
      obtain ⟨hc, hs⟩ : toupper c = d ∧ toUpper s = t := List.cons.inj h
      rw [letterless, List.all_cons, Bool.and_eq_true] at ht
      rw [eq_of_toupper_eq hc (by simpa using ht.1), ih ht.2 hs]

/-- **Among upper-case letters a lower-case string is found only if it has no
letters**, and then wherever it is found at all. -/
theorem isSome_find_toUpper_iff {needle s : Bytes} (hlow : toLower needle = needle) :
    (find needle (toUpper s)).isSome = true ↔
      letterless needle = true ∧ (find needle s).isSome = true := by
  rw [isSome_find_iff, isSome_find_iff]
  constructor
  · intro h
    have hletterless : letterless needle = true := by
      rw [letterless, List.all_eq_true]
      intro c hc
      -- the character stands among the upper-case ones, and lower-casing leaves it alone
      obtain ⟨d, -, rfl⟩ := List.mem_map.mp (h.subset hc)
      have hself : tolower (toupper d) = toupper d := toLower_eq_self_iff.mp hlow _ hc
      rw [not_isLetter_toupper hself]
      rfl
    refine ⟨hletterless, ?_⟩
    obtain ⟨a, b, hab⟩ := h
    obtain ⟨s₁, s₂, rfl, hs₁, -⟩ := List.map_eq_append_iff.mp hab.symm
    obtain ⟨s₃, s₄, rfl, -, hs₄⟩ := List.map_eq_append_iff.mp hs₁
    rw [← eq_of_toUpper_eq hletterless hs₄]
    exact List.infix_append _ _ _
  · rintro ⟨hletterless, h⟩
    rw [← toUpper_of_letterless hletterless]
    exact h.map toupper

/-! ### Spaces -/

theorem tolower_eq_space (c : UInt8) : tolower c = 32 ↔ c = 32 := by
  unfold tolower
  grind

theorem find_space_toLower (s : Bytes) : find [32] (toLower s) = find [32] s := by
  induction s with
  | nil => rfl
  | cons c s ih =>
    have hhead : [(32 : UInt8)].isPrefixOf (tolower c :: toLower s) =
        [(32 : UInt8)].isPrefixOf (c :: s) := by
      have hspace : (32 == tolower c) = (32 == c) := by
        rw [Bool.eq_iff_iff, beq_iff_eq, beq_iff_eq, eq_comm, tolower_eq_space, eq_comm]
      rw [List.isPrefixOf, List.isPrefixOf, hspace]
      rfl
    show find [32] (tolower c :: toLower s) = find [32] (c :: s)
    rw [find, find, ih, hhead]

theorem splitLoop_toLower (n : ℕ) (s : Bytes) :
    splitLoop [32] n (toLower s) = (splitLoop [32] n s).map (List.map toLower) := by
  induction n generalizing s with
  | zero => rfl
  | succ n ih =>
    rw [splitLoop, splitLoop, find_space_toLower]
    cases find [32] s with
    | none => rfl
    | some i =>
      have hdrop : (toLower s).drop (i + 1) = toLower (s.drop (i + 1)) := List.map_drop.symm
      have htake : (toLower s).take i = toLower (s.take i) := List.map_take.symm
      show (splitLoop [32] n ((toLower s).drop (i + 1))).map _ = _
      rw [hdrop, htake, ih, Option.map_map, Option.map_map]
      rfl

/-- **Letter case does not move the spaces.** -/
theorem length_split_toLower (s : Bytes) :
    ((split (toLower s) [32]).getD []).length = ((split s [32]).getD []).length := by
  rw [split, split, splitLoop_toLower, toLower, List.length_map]
  cases splitLoop [32] (s.length + 1) s with
  | none => rfl
  | some pieces => exact List.length_map _

/-! ### Tokens -/

theorem trim_sublist (target cutset : Bytes) : (trim target cutset).Sublist target := by
  unfold trim
  split
  · exact List.Sublist.refl _
  · split
    · exact (List.take_sublist _ _).trans (List.drop_sublist _ _)
    · exact List.nil_sublist _

/-- The characters of a token are those of the string. -/
theorem mem_of_mem_tokenizeLoop {delimsset cutset tok : Bytes} {c : UInt8} (hc : c ∈ tok) :
    ∀ n s, tok ∈ tokenizeLoop delimsset cutset n s → c ∈ s := by
  intro n
  induction n with
  | zero =>
    intro s h
    cases h
  | succ n ih =>
    intro s h
    have hsub : ∀ x ∈ s.dropWhile (strchr delimsset), x ∈ s :=
      fun x hx => (List.dropWhile_sublist _).subset hx
    rw [tokenizeLoop] at h
    cases hrest : s.dropWhile (strchr delimsset) with
    | nil =>
      rw [hrest] at h
      cases h
    | cons d rest =>
      rw [hrest] at h hsub
      apply hsub
      rcases List.mem_cons.mp h with rfl | htail
      · exact (List.takeWhile_sublist _).subset ((trim_sublist _ _).subset hc)
      · exact (List.dropWhile_sublist _).subset (ih _ htail)

/-- **A token has no upper-case letters.** -/
theorem toLower_of_mem_tokenize {str delimsset cutset tok : Bytes}
    (h : tok ∈ tokenize str delimsset cutset) : toLower tok = tok := by
  apply toLower_eq_self_iff.mpr
  intro c hc
  obtain ⟨d, -, rfl⟩ := List.mem_map.mp (mem_of_mem_tokenizeLoop hc _ _ h)
  exact tolower_tolower d

end SniffDogSniff.StringUtil
