import SniffDogSniff.Common.StringUtil
import Mathlib.Data.List.Infix

/-!
# Where `trim` looks

`trim` looks for the last character to keep with an index that cannot be negative and
a condition that always holds.  Where there is no character to keep, the index goes on
from 0 to the greatest number, and the loop leaves the string.

`StringUtil.trim` gives the result; `trim?` is the same function with the loop that
counts down.

## Main definitions

* `endposLoop`, `trim?` — `trim` with its index, `none` where it leaves the string.
* `IsTrimmed` — the longest part of a string that is clean at both ends.
* `Trims` — `trim` stays in the string and returns this part.

## Main results

* `trim?_eq` — where it stays in the string, the result is that of `trim`.
* `isTrimmed_trim` — what `trim` returns.
* `trims_iff` — **`trim` does its work exactly where there is something to keep.**
-/

namespace SniffDogSniff.StringUtil

/-- A set of characters that are trimmed. -/
structure Cutset extends CString where
  ne_nil : bytes ≠ []

/-- The second loop of `trim`, with `i + 1` characters to look at; `none` where `i` has
gone below 0. -/
def endposLoop (cutset target : Bytes) : ℕ → Option ℕ
  | 0 => none
  | i + 1 => if strchr cutset (target.getD i 0) then endposLoop cutset target i else some i

/-- `trim`, `none` where it looks outside of the string. -/
def trim? (target cutset : Bytes) : Option Bytes :=
  if cutset = [] then some target
  else
    match startpos cutset target, endposLoop cutset target target.length with
    | _, none => none
    | none, some _ => some []
    | some i, some j => some ((target.drop i).take (j - i + 1))

/-- No character of the set is at an end of the string. -/
structure CleanEnds (cutset s : Bytes) : Prop where
  head : ∀ c, s.head? = some c → c ∉ cutset
  last : ∀ c, s.getLast? = some c → c ∉ cutset

/-- The longest part of `s` that has clean ends. -/
structure IsTrimmed (cutset s t : Bytes) : Prop where
  isInfix : t <:+: s
  cleanEnds : CleanEnds cutset t
  longest : ∀ u, u <:+: s → CleanEnds cutset u → u.length ≤ t.length

/-- `trim` does its work, and looks at nothing but the string. -/
def Trims (s : CString) (cutset : Cutset) : Prop :=
  ∃ t, trim? s.bytes cutset.bytes = some t ∧ IsTrimmed cutset.bytes s.bytes t

/-! ### The two places -/

theorem startpos_eq_some {cutset s : Bytes} {i : ℕ} (h : startpos cutset s = some i) :
    (∃ c, s[i]? = some c ∧ strchr cutset c = false) ∧
      ∀ k < i, ∀ c, s[k]? = some c → strchr cutset c = true := by
  induction s generalizing i with
  | nil => cases h
  | cons c s ih =>
    rw [startpos] at h
    split at h
    · next hcut =>
      obtain ⟨i', hi', rfl⟩ := Option.map_eq_some_iff.mp h
      obtain ⟨hthere, hfront⟩ := ih hi'
      refine ⟨hthere, fun k hk d hd => ?_⟩
      cases k with
      | zero =>
        cases hd
        exact hcut
      | succ k => exact hfront k (Nat.lt_of_succ_lt_succ hk) d hd
    · next hkeep =>
      cases h
      exact ⟨⟨c, rfl, Bool.eq_false_iff.mpr hkeep⟩, fun k hk => absurd hk (Nat.not_lt_zero k)⟩

theorem startpos_eq_none_iff {cutset s : Bytes} :
    startpos cutset s = none ↔ ∀ c ∈ s, strchr cutset c = true := by
  induction s with
  | nil => simp [startpos]
  | cons c s ih =>
    rw [startpos, List.forall_mem_cons]
    cases strchr cutset c with
    | true => simp [ih]
    | false => simp

theorem endpos_eq_none_iff {cutset s : Bytes} :
    endpos cutset s = none ↔ ∀ c ∈ s, strchr cutset c = true := by
  induction s with
  | nil => simp [endpos]
  | cons c s ih =>
    rw [endpos, List.forall_mem_cons, ← ih]
    cases endpos cutset s with
    | none => cases strchr cutset c <;> simp
    | some i => simp

theorem endpos_eq_some {cutset s : Bytes} {j : ℕ} (h : endpos cutset s = some j) :
    (∃ c, s[j]? = some c ∧ strchr cutset c = false) ∧
      ∀ k > j, ∀ c, s[k]? = some c → strchr cutset c = true := by
  induction s generalizing j with
  | nil => cases h
  | cons c s ih =>
    rw [endpos] at h
    cases hrest : endpos cutset s with
    | some j' =>
      rw [hrest] at h
      cases h
      obtain ⟨hthere, hbehind⟩ := ih hrest
      refine ⟨hthere, fun k hk d hd => ?_⟩
      cases k with
      | zero => exact absurd hk (Nat.not_lt_zero _)
      | succ k => exact hbehind k (Nat.lt_of_succ_lt_succ hk) d hd
    | none =>
      rw [hrest] at h
      simp only at h
      split at h
      · cases h
      · next hkeep =>
        cases h
        refine ⟨⟨c, rfl, Bool.eq_false_iff.mpr hkeep⟩, fun k hk d hd => ?_⟩
        obtain ⟨k, rfl⟩ := Nat.exists_eq_succ_of_ne_zero (Nat.ne_of_gt hk)
        exact endpos_eq_none_iff.mp hrest d (List.mem_of_getElem? hd)

/-! ### The loop that counts down -/

/-- A character behind the ones that are left to look at makes no difference. -/
theorem endposLoop_append (cutset s r : Bytes) :
    ∀ n ≤ s.length, endposLoop cutset (s ++ r) n = endposLoop cutset s n := by
  intro n
  induction n with
  | zero => exact fun _ => rfl
  | succ n ih =>
    intro hn
    have hget : (s ++ r).getD n 0 = s.getD n 0 := by
      rw [List.getD_eq_getElem?_getD, List.getD_eq_getElem?_getD, List.getElem?_append_left hn]
    rw [endposLoop, endposLoop, ih (Nat.le_of_succ_le hn), hget]

theorem endpos_append_singleton (cutset s : Bytes) (c : UInt8) :
    endpos cutset (s ++ [c]) = if strchr cutset c then endpos cutset s else some s.length := by
  induction s with
  | nil => cases h : strchr cutset c <;> simp [endpos, h]
  | cons b s ih =>
    rw [List.cons_append, endpos, ih, endpos]
    cases strchr cutset c with
    | true => rfl
    | false => rfl

/-- **The loop finds the last place, or it leaves the string.** -/
theorem endposLoop_eq (cutset s : Bytes) : endposLoop cutset s s.length = endpos cutset s := by
  induction s using List.reverseRecOn with
  | nil => rfl
  | append_singleton s c ih =>
    rw [List.length_append, List.length_singleton, endposLoop, endposLoop_append _ _ _ _ le_rfl, ih,
      endpos_append_singleton]
    simp

/-- **In the string, the result is that of `trim`.** -/
theorem trim?_eq {cutset : Bytes} (hne : cutset ≠ []) (s : Bytes) :
    trim? s cutset = if ∃ c ∈ s, strchr cutset c = false then some (trim s cutset) else none := by
  rw [trim?, trim, if_neg hne, if_neg hne, endposLoop_eq]
  cases hend : endpos cutset s with
  | none =>
    have hall := endpos_eq_none_iff.mp hend
    rw [if_neg]
    · rintro ⟨c, hc, hkeep⟩
      rw [hall c hc] at hkeep
      cases hkeep
  | some j =>
    obtain ⟨⟨c, hc, hkeep⟩, -⟩ := endpos_eq_some hend
    rw [if_pos ⟨c, List.mem_of_getElem? hc, hkeep⟩]
    cases startpos cutset s with
    | none => rfl
    | some i => rfl

/-! ### The part that is kept -/

theorem strchr_eq_false_iff {cutset : Bytes} {c : UInt8} (hc : c ≠ 0) :
    strchr cutset c = false ↔ c ∉ cutset := by
  simp [strchr, hc]

theorem strchr_eq_true_iff {cutset : Bytes} {c : UInt8} (hc : c ≠ 0) :
    strchr cutset c = true ↔ c ∈ cutset := by
  simp [strchr, hc]

/-- A part with clean ends lies between the two places. -/
theorem length_le_of_cleanEnds {cutset s u : Bytes} (hzero : 0 ∉ s) {i j : ℕ}
    (hstart : startpos cutset s = some i) (hend : endpos cutset s = some j) (hu : u <:+: s)
    (hclean : CleanEnds cutset u) : u.length ≤ j - i + 1 := by
  obtain ⟨x, y, heq⟩ := hu
  rcases List.eq_nil_or_concat u with rfl | ⟨u', e, hlast⟩
  · exact Nat.zero_le _
  rw [List.concat_eq_append] at hlast
  obtain ⟨d, u'', hhead⟩ := List.exists_cons_of_ne_nil (show u ≠ [] by rw [hlast]; simp)
  have hzero' : ∀ c, c ∈ u → c ≠ 0 := by
    rintro c hc rfl
    apply hzero
    rw [← heq]
    exact List.mem_append_left _ (List.mem_append_right _ hc)
  -- the first character is not in front of the first place
  have hfirst : i ≤ x.length := by
    by_contra hlt
    have hd : s[x.length]? = some d := by
      rw [← heq, hhead]
      simp
    have hcut := (startpos_eq_some hstart).2 _ (Nat.lt_of_not_le hlt) d hd
    have hmem : d ∈ u := by rw [hhead]; exact List.mem_cons_self
    rw [strchr_eq_true_iff (hzero' d hmem)] at hcut
    exact hclean.head d (by rw [hhead]; rfl) hcut
  -- and the last one is not behind the last place
  have hlast' : x.length + u'.length ≤ j := by
    by_contra hgt
    have he : s[x.length + u'.length]? = some e := by
      rw [← heq, hlast]
      simp
    have hcut := (endpos_eq_some hend).2 _ (Nat.lt_of_not_le hgt) e he
    have hmem : e ∈ u := by rw [hlast]; simp
    rw [strchr_eq_true_iff (hzero' e hmem)] at hcut
    exact hclean.last e (by rw [hlast]; simp) hcut
  rw [hlast, List.length_append, List.length_singleton]
  omega

/-- The two places of a string with something to keep, and what stands there. -/
theorem exists_places {cutset s : Bytes} (hzero : 0 ∉ s)
    (h : ∃ c ∈ s, strchr cutset c = false) :
    ∃ i j, startpos cutset s = some i ∧ endpos cutset s = some j ∧ i ≤ j ∧
      (∃ a, s[i]? = some a ∧ a ∉ cutset) ∧ ∃ b, s[j]? = some b ∧ b ∉ cutset := by
  obtain ⟨c, hc, hkeep⟩ := h
  have hnot : ¬ ∀ c ∈ s, strchr cutset c = true := by
    intro hall
    rw [hall c hc] at hkeep
    cases hkeep
  obtain ⟨i, hi⟩ := Option.ne_none_iff_exists'.mp (startpos_eq_none_iff.not.mpr hnot)
  obtain ⟨j, hj⟩ := Option.ne_none_iff_exists'.mp (endpos_eq_none_iff.not.mpr hnot)
  obtain ⟨⟨a, ha, hakeep⟩, hfront⟩ := startpos_eq_some hi
  obtain ⟨⟨b, hb, hbkeep⟩, -⟩ := endpos_eq_some hj
  have hij : i ≤ j := by
    by_contra hlt
    rw [hfront j (Nat.lt_of_not_le hlt) b hb] at hbkeep
    cases hbkeep
  have hne : ∀ (c : UInt8) (k : ℕ), s[k]? = some c → c ≠ 0 := by
    rintro c k hk rfl
    exact hzero (List.mem_of_getElem? hk)
  exact ⟨i, j, hi, hj, hij, ⟨a, ha, (strchr_eq_false_iff (hne a i ha)).mp hakeep⟩,
    b, hb, (strchr_eq_false_iff (hne b j hb)).mp hbkeep⟩

/-- **`trim` returns the longest part with clean ends**, if there is something to keep. -/
theorem isTrimmed_trim {cutset s : Bytes} (hne : cutset ≠ []) (hzero : 0 ∉ s)
    (h : ∃ c ∈ s, strchr cutset c = false) : IsTrimmed cutset s (trim s cutset) := by
  obtain ⟨i, j, hi, hj, hij, ⟨a, ha, hakeep⟩, b, hb, hbkeep⟩ := exists_places hzero h
  have htrim : trim s cutset = (s.drop i).take (j - i + 1) := by
    rw [trim, if_neg hne, hi, hj]
  have hlen : (trim s cutset).length = j - i + 1 := by
    have hjlt := (List.getElem?_eq_some_iff.mp hb).1
    rw [htrim, List.length_take, List.length_drop]
    omega
  refine ⟨?_, ⟨fun c hc => ?_, fun c hc => ?_⟩, fun u hu hclean => ?_⟩
  · rw [htrim]
    exact (List.take_prefix _ _).isInfix.trans (List.drop_suffix _ _).isInfix
  · have hhead : (trim s cutset).head? = some a := by
      rw [htrim, List.head?_take, if_neg (Nat.succ_ne_zero _), List.head?_drop, ha]
    rwa [← Option.some.inj (hhead.symm.trans hc)]
  · have hlast : (trim s cutset).getLast? = some b := by
      rw [List.getLast?_eq_getElem?, hlen, htrim, Nat.add_sub_cancel,
        List.getElem?_take_of_lt (Nat.lt_succ_self _), List.getElem?_drop,
        Nat.add_sub_cancel' hij, hb]
    rwa [← Option.some.inj (hlast.symm.trans hc)]
  · rw [hlen]
    exact length_le_of_cleanEnds hzero hi hj hu hclean

/-- **`trim` stays in the string and returns the longest part with clean ends, if and
only if the string has a character that is not trimmed.** -/
theorem trims_iff (s : CString) (cutset : Cutset) :
    Trims s cutset ↔ ∃ c ∈ s.bytes, c ∉ cutset.bytes := by
  have hkeep : (∃ c ∈ s.bytes, strchr cutset.bytes c = false) ↔
      ∃ c ∈ s.bytes, c ∉ cutset.bytes := by
    apply exists_congr
    intro c
    apply and_congr_right
    intro hc
    exact strchr_eq_false_iff (ne_of_mem_of_not_mem hc s.nonzero)
  rw [← hkeep, Trims, trim?_eq cutset.ne_nil]
  constructor
  · rintro ⟨t, ht, -⟩
    by_contra hnot
    rw [if_neg hnot] at ht
    cases ht
  · intro h
    rw [if_pos h]
    exact ⟨_, rfl, isTrimmed_trim cutset.ne_nil s.nonzero h⟩

/-- The punctuation of words. -/
def punctuation : Cutset := ⟨⟨wordCutset, by decide⟩, by decide⟩

/-- The string ".", and the empty string. -/
theorem not_trims_stop :
    ¬ Trims ⟨[46], by decide⟩ punctuation ∧ ¬ Trims ⟨[], by decide⟩ punctuation := by
  constructor
  · rintro ⟨t, ht, -⟩
    cases ht
  · rintro ⟨t, ht, -⟩
    cases ht

end SniffDogSniff.StringUtil
