import SniffDogSniff.Common.Trims

/-!
# The tokens of a string

`tokenize` skips delimiters and collects what is between them.  Both of its inner loops look
at a character before they compare the index with the length; at the end of the string this
is the terminator, which `strchr` finds in every set.

`StringUtil.tokenize` gives the result; `tokenize?` is the same function with its index.

## Main definitions

* `skipLoop`, `tokLoop`, `tokenizeRounds`, `tokenize?` — `tokenize` with its index, `none`
  where a loop leaves the string or does not end.
* `MaximalRun` — characters between two delimiters.
* `RunsFrom` — all runs from a place on, in their order.

## Main results

* `runsFrom_runsLoop` — the runs of a string.
* `tokenize?_eq`, `tokenize_eq` — both functions trim the runs.
* `tokenize?_eq_some` — they agree where every run has something to keep.
* `tokenize_spec` — **without a set to trim, the tokens are the maximal runs.**
-/

namespace SniffDogSniff.StringUtil

/-! ### The loops -/

/-- `s[i]` of a `std::string`: the terminator can be read, but nothing behind it. -/
def charAt (s : Bytes) (i : ℕ) : Option UInt8 := (s ++ [0])[i]?

/-- The first inner loop, for a number of rounds that is enough. -/
def skipLoop (delimsset s : Bytes) : ℕ → ℕ → Option ℕ
  | 0, _ => none
  | n + 1, i => do
    let c ← charAt s i
    if strchr delimsset c ∧ i < s.length then skipLoop delimsset s n (i + 1) else some i

/-- The second inner loop. -/
def tokLoop (delimsset s : Bytes) : ℕ → ℕ → Bytes → Option (ℕ × Bytes)
  | 0, _, _ => none
  | n + 1, i, tok => do
    let c ← charAt s i
    if strchr delimsset c = false ∧ i < s.length then
      tokLoop delimsset s n (i + 1) (tok ++ [c])
    else some (i, tok)

/-- The outer loop. -/
def tokenizeRounds (delimsset cutset s : Bytes) : ℕ → ℕ → List Bytes → Option (List Bytes)
  | 0, _, _ => none
  | n + 1, i, tokens =>
    if i < s.length then do
      let i ← skipLoop delimsset s (s.length + 1) i
      if i ≥ s.length then some tokens
      else do
        let (i, tok) ← tokLoop delimsset s (s.length + 1) i []
        let tok ← trim? tok cutset
        tokenizeRounds delimsset cutset s n i (tokens ++ [tok])
    else some tokens

/-- `tokenize`, `none` where it looks outside of the string or does not end. -/
def tokenize? (str delimsset cutset : Bytes) : Option (List Bytes) :=
  let lowerStr := toLower str
  tokenizeRounds delimsset cutset lowerStr (lowerStr.length + 1) 0 []

/-! ### Runs -/

/-- At the place `i` there is a run of characters without a delimiter, which goes on neither in
front nor behind. -/
structure MaximalRun (isDelim : UInt8 → Bool) (s : Bytes) (i : ℕ) (run : Bytes) : Prop where
  ne_nil : run ≠ []
  here : run <+: s.drop i
  clean : ∀ c ∈ run, isDelim c = false
  before : ∀ j, i = j + 1 → s[j]?.all isDelim = true
  behind : s[i + run.length]?.all isDelim = true

/-- The runs from the place `i` on, each with its place: there is something between one and
the next, and what is left out are the delimiters. -/
structure RunsFrom (isDelim : UInt8 → Bool) (s : Bytes) (i : ℕ) (runs : List (ℕ × Bytes)) :
    Prop where
  mem_iff : ∀ k run, (k, run) ∈ runs ↔ i ≤ k ∧ MaximalRun isDelim s k run
  apart : runs.Pairwise fun r r' => r.1 + r.2.length < r'.1
  flatten_eq : (runs.map Prod.snd).flatten = (s.drop i).filter fun c => !isDelim c

/-- The runs of what is behind the place `i`, for a number of rounds. -/
def runsLoop (isDelim : UInt8 → Bool) : ℕ → ℕ → Bytes → List (ℕ × Bytes)
  | 0, _, _ => []
  | n + 1, i, s =>
    match s.dropWhile isDelim with
    | [] => []
    | c :: rest =>
      let start := i + (s.takeWhile isDelim).length
      let run := (c :: rest).takeWhile fun c => !isDelim c
      (start, run) :: runsLoop isDelim n (start + run.length)
        ((c :: rest).dropWhile fun c => !isDelim c)

/-! ### The loops on what is left -/

section

variable {s : Bytes} {i : ℕ}

theorem charAt_of_lt (h : i < s.length) : charAt s i = some s[i] := by
  rw [charAt, List.getElem?_append_left h, List.getElem?_eq_getElem h]

/-- At the end there is the terminator. -/
theorem charAt_length (s : Bytes) : charAt s s.length = some 0 := by
  rw [charAt, List.getElem?_append_right le_rfl, Nat.sub_self]
  rfl

theorem strchr_zero (set : Bytes) : strchr set 0 = true := rfl

theorem skipLoop_eq (delimsset : Bytes) {n : ℕ} (hi : i ≤ s.length) (hn : s.length - i < n) :
    skipLoop delimsset s n i = some (i + ((s.drop i).takeWhile (strchr delimsset)).length) := by
  induction n generalizing i with
  | zero => exact absurd hn (Nat.not_lt_zero _)
  | succ n ih =>
    rw [skipLoop]
    rcases Nat.lt_or_eq_of_le hi with hlt | rfl
    · rw [charAt_of_lt hlt, Option.bind_eq_bind, Option.bind_some, List.drop_eq_getElem_cons hlt]
      by_cases hdelim : strchr delimsset s[i] = true
      · rw [if_pos ⟨hdelim, hlt⟩, ih hlt (by omega), List.takeWhile_cons_of_pos hdelim,
          List.length_cons, Nat.succ_add_eq_add_succ]
      · rw [if_neg fun h => hdelim h.1, List.takeWhile_cons_of_neg hdelim, List.length_nil,
          Nat.add_zero]
    · rw [charAt_length, Option.bind_eq_bind, Option.bind_some,
        if_neg fun h => Nat.lt_irrefl _ h.2, List.drop_length]
      rfl

theorem tokLoop_eq (delimsset tok : Bytes) {n : ℕ} (hi : i ≤ s.length) (hn : s.length - i < n) :
    tokLoop delimsset s n i tok =
      some (i + ((s.drop i).takeWhile fun c => !strchr delimsset c).length,
        tok ++ (s.drop i).takeWhile fun c => !strchr delimsset c) := by
  induction n generalizing i tok with
  | zero => exact absurd hn (Nat.not_lt_zero _)
  | succ n ih =>
    rw [tokLoop]
    rcases Nat.lt_or_eq_of_le hi with hlt | rfl
    · rw [charAt_of_lt hlt, Option.bind_eq_bind, Option.bind_some, List.drop_eq_getElem_cons hlt]
      cases hdelim : strchr delimsset s[i] with
      | false =>
        rw [if_pos ⟨rfl, hlt⟩, ih _ hlt (by omega), List.takeWhile_cons_of_pos (by simp [hdelim]),
          List.length_cons, Nat.succ_add_eq_add_succ, List.append_assoc]
        rfl
      | true =>
        rw [if_neg (by simp), List.takeWhile_cons_of_neg (by simp [hdelim]), List.length_nil,
          Nat.add_zero, List.append_nil]
    · rw [charAt_length, Option.bind_eq_bind, Option.bind_some, strchr_zero, if_neg (by simp),
        List.drop_length, List.takeWhile_nil, List.append_nil]
      rfl

end

/-! ### The runs of a string -/

section

variable {isDelim : UInt8 → Bool} {s : Bytes} {i : ℕ}

/-- The characters of a part are those at its places. -/
theorem exists_getElem? {run : Bytes} (h : run <+: s.drop i) {k : ℕ} (hik : i ≤ k)
    (hk : k < i + run.length) : ∃ c ∈ run, s[k]? = some c := by
  obtain ⟨rest, hrest⟩ := h
  have hlt : k - i < run.length := by omega
  have hdrop : (s.drop i)[k - i]? = s[k]? := by
    rw [List.getElem?_drop, Nat.add_sub_cancel' hik]
  refine ⟨run[k - i], List.getElem_mem hlt, ?_⟩
  rw [← hdrop, ← hrest, List.getElem?_append_left hlt, List.getElem?_eq_getElem hlt]

/-- A run does not have a delimiter at any of its places. -/
theorem MaximalRun.not_delim {run : Bytes} (h : MaximalRun isDelim s i run) {k : ℕ} (hik : i ≤ k)
    (hk : k < i + run.length) : s[k]?.all isDelim = false := by
  obtain ⟨c, hc, hget⟩ := exists_getElem? h.here hik hk
  rw [hget, Option.all_some]
  exact h.clean c hc

theorem MaximalRun.not_delim_start {run : Bytes} (h : MaximalRun isDelim s i run) :
    s[i]?.all isDelim = false :=
  h.not_delim le_rfl (Nat.lt_add_of_pos_right (List.length_pos_iff.mpr h.ne_nil))

/-- There is one run at a place. -/
theorem MaximalRun.unique {run run' : Bytes} (h : MaximalRun isDelim s i run)
    (h' : MaximalRun isDelim s i run') : run = run' := by
  have hlen : run.length = run'.length := by
    rcases Nat.lt_trichotomy run.length run'.length with hlt | heq | hgt
    · have hnot := h'.not_delim (Nat.le_add_right i _) (Nat.add_lt_add_left hlt i)
      rw [h.behind] at hnot
      cases hnot
    · exact heq
    · have hnot := h.not_delim (Nat.le_add_right i _) (Nat.add_lt_add_left hgt i)
      rw [h'.behind] at hnot
      cases hnot
  rw [List.prefix_iff_eq_take.mp h.here, List.prefix_iff_eq_take.mp h'.here, hlen]

/-- Between a run and the next one there is a delimiter. -/
theorem MaximalRun.lt_of_lt {run run' : Bytes} {k : ℕ} (h : MaximalRun isDelim s i run)
    (h' : MaximalRun isDelim s k run') (hik : i < k) : i + run.length < k := by
  obtain ⟨j, rfl⟩ := Nat.exists_eq_succ_of_ne_zero (Nat.ne_of_gt (Nat.zero_lt_of_lt hik))
  by_contra hle
  have hj : j < i + run.length := by omega
  have hnot := h.not_delim (Nat.le_of_lt_succ hik) hj
  rw [h'.before j rfl] at hnot
  cases hnot

/-- The delimiters that are skipped. -/
theorem all_of_lt_takeWhile {k : ℕ} (hik : i ≤ k)
    (hk : k < i + ((s.drop i).takeWhile isDelim).length) : s[k]?.all isDelim = true := by
  obtain ⟨c, hc, hget⟩ := exists_getElem? (List.takeWhile_prefix isDelim) hik hk
  rw [hget, Option.all_some]
  exact List.mem_takeWhile_imp hc

/-- What follows the characters that a test holds of. -/
theorem drop_add_length_takeWhile (s : Bytes) (i : ℕ) (p : UInt8 → Bool) :
    s.drop (i + ((s.drop i).takeWhile p).length) = (s.drop i).dropWhile p := by
  have hdrop := drop_length_takeWhile p (s.drop i) []
  rwa [List.append_nil, List.append_nil, List.drop_drop] at hdrop

/-- Where something is left behind the delimiters, it is at a place of the string. -/
theorem start_lt_length {c : UInt8} {rest : Bytes} (h : (s.drop i).dropWhile isDelim = c :: rest) :
    i + ((s.drop i).takeWhile isDelim).length < s.length := by
  have hfollow := drop_add_length_takeWhile s i isDelim
  rw [h] at hfollow
  by_contra hge
  rw [List.drop_eq_nil_of_le (Nat.not_lt.mp hge)] at hfollow
  cases hfollow

/-- And the run that starts there ends behind `i`, in the string. -/
theorem end_bounds {c : UInt8} {rest : Bytes} (h : (s.drop i).dropWhile isDelim = c :: rest) :
    i < i + ((s.drop i).takeWhile isDelim).length +
        ((c :: rest).takeWhile fun c => !isDelim c).length ∧
      i + ((s.drop i).takeWhile isDelim).length +
        ((c :: rest).takeWhile fun c => !isDelim c).length ≤ s.length := by
  have hfollow := drop_add_length_takeWhile s i isDelim
  have hhead := List.head?_dropWhile_not isDelim (s.drop i)
  have hstart := start_lt_length h
  have hrun : ((c :: rest).takeWhile fun c => !isDelim c).length ≤ (c :: rest).length :=
    (List.takeWhile_prefix _).length_le
  rw [h] at hfollow hhead
  have hpos : 0 < ((c :: rest).takeWhile fun c => !isDelim c).length := by
    rw [List.takeWhile_cons_of_pos (by simpa using hhead)]
    exact Nat.succ_pos _
  rw [← hfollow, List.length_drop] at hrun
  rw [hfollow] at hrun
  omega

/-- The delimiter in front of what follows the skipped ones. -/
theorem before_of_skip {q : ℕ} (hborder : i = 0 ∨ s[i]?.all isDelim = true) (hiq : i ≤ q)
    (hskip : ∀ k, i ≤ k → k < q → s[k]?.all isDelim = true) (hq : s[q]?.all isDelim = false) :
    ∀ j, q = j + 1 → s[j]?.all isDelim = true := by
  intro j hj
  rcases Nat.lt_or_ge j i with hlt | hge
  -- nothing was skipped
  · obtain rfl : q = i := by omega
    rw [hq] at hborder
    rcases hborder with hzero | hdelim
    · omega
    · cases hdelim
  · exact hskip j hge (by omega)

/-- The characters between two delimiters are a run. -/
theorem maximalRun_takeWhile {c : UInt8} {rest : Bytes} (hs : s.drop i = c :: rest)
    (hc : isDelim c = false) (hbefore : ∀ j, i = j + 1 → s[j]?.all isDelim = true) :
    MaximalRun isDelim s i ((s.drop i).takeWhile fun c => !isDelim c) where
  ne_nil := by
    rw [hs, List.takeWhile_cons_of_pos (by simp [hc])]
    exact List.cons_ne_nil _ _
  here := List.takeWhile_prefix _
  clean d hd := by
    have hnot := List.mem_takeWhile_imp hd
    rwa [Bool.not_eq_true'] at hnot
  before := hbefore
  behind := by
    have hhead := List.head?_dropWhile_not (fun c => !isDelim c) (s.drop i)
    rw [← drop_add_length_takeWhile, List.head?_drop] at hhead
    cases hget : s[i + ((s.drop i).takeWhile fun c => !isDelim c).length]? with
    | none => rfl
    | some d =>
      rw [hget] at hhead
      simpa using hhead

/-- Where only delimiters are left, there are no more runs. -/
theorem runsFrom_nil (h : (s.drop i).dropWhile isDelim = []) : RunsFrom isDelim s i [] := by
  have hall : ∀ c ∈ s.drop i, isDelim c = true := List.dropWhile_eq_nil_iff.mp h
  refine ⟨fun k run => iff_of_false List.not_mem_nil ?_, List.Pairwise.nil, ?_⟩
  · rintro ⟨hik, hrun⟩
    have hstart := hrun.not_delim_start
    cases hget : s[k]? with
    | none =>
      rw [hget] at hstart
      cases hstart
    | some c =>
      have hmem : c ∈ s.drop i := by
        refine List.mem_of_getElem? (i := k - i) ?_
        rw [List.getElem?_drop, Nat.add_sub_cancel' hik, hget]
      rw [hget, Option.all_some, hall c hmem] at hstart
      cases hstart
  · refine (List.filter_eq_nil_iff.mpr fun c hc => ?_).symm
    rw [hall c hc]
    exact Bool.false_ne_true

/-- The string in front of a run, the run, and the rest. -/
theorem drop_eq_append {q : ℕ} {run : Bytes} (hiq : i ≤ q) (hrun : run <+: s.drop q) :
    s.drop i = (s.drop i).take (q - i) ++ (run ++ s.drop (q + run.length)) := by
  obtain ⟨rest, hrest⟩ := hrun
  have hbehind : s.drop (q + run.length) = rest := by
    rw [← List.drop_drop, ← hrest, List.drop_left]
  have hq : (s.drop i).drop (q - i) = s.drop q := by
    rw [List.drop_drop, Nat.add_sub_cancel' hiq]
  rw [hbehind, hrest, ← hq, List.take_append_drop]

/-- Of delimiters nothing is kept. -/
theorem filter_skipped {q : ℕ} (hskip : ∀ k, i ≤ k → k < q → s[k]?.all isDelim = true) :
    ((s.drop i).take (q - i)).filter (fun c => !isDelim c) = [] := by
  refine List.filter_eq_nil_iff.mpr fun c hc => ?_
  obtain ⟨k, hk, hget⟩ := List.mem_iff_getElem.mp hc
  rw [List.length_take] at hk
  rw [List.getElem_take, List.getElem_drop] at hget
  have hall := hskip (i + k) (Nat.le_add_right i k) (by omega)
  rw [List.getElem?_eq_some_iff.mpr ⟨_, hget⟩, Option.all_some] at hall
  rw [hall]
  exact Bool.false_ne_true

/-- And of a run everything. -/
theorem MaximalRun.filter_eq {run : Bytes} (h : MaximalRun isDelim s i run) :
    run.filter (fun c => !isDelim c) = run := by
  refine List.filter_eq_self.mpr fun c hc => ?_
  rw [h.clean c hc]
  rfl

/-- One more run in front of those that come behind it. -/
theorem RunsFrom.cons {q : ℕ} {run : Bytes} {runs : List (ℕ × Bytes)} (hiq : i ≤ q)
    (hskip : ∀ k, i ≤ k → k < q → s[k]?.all isDelim = true) (hrun : MaximalRun isDelim s q run)
    (h : RunsFrom isDelim s (q + run.length) runs) : RunsFrom isDelim s i ((q, run) :: runs) := by
  have hlater : ∀ k run', (k, run') ∈ runs ↔ q < k ∧ MaximalRun isDelim s k run' := by
    intro k run'
    rw [h.mem_iff]
    refine and_congr_left fun hrun' => ⟨fun hle => ?_, fun hlt => (hrun.lt_of_lt hrun' hlt).le⟩
    exact (Nat.lt_add_of_pos_right (List.length_pos_iff.mpr hrun.ne_nil)).trans_le hle
  refine ⟨fun k run' => ?_, ?_, ?_⟩
  · rw [List.mem_cons, hlater, Prod.mk.injEq]
    constructor
    · rintro (⟨rfl, rfl⟩ | ⟨hlt, hrun'⟩)
      · exact ⟨hiq, hrun⟩
      · exact ⟨hiq.trans hlt.le, hrun'⟩
    · rintro ⟨hik, hrun'⟩
      rcases Nat.lt_trichotomy k q with hlt | rfl | hgt
      · have hstart := hrun'.not_delim_start
        rw [hskip k hik hlt] at hstart
        cases hstart
      · exact Or.inl ⟨rfl, hrun'.unique hrun⟩
      · exact Or.inr ⟨hgt, hrun'⟩
  · refine List.pairwise_cons.mpr ⟨fun r hr => ?_, h.apart⟩
    obtain ⟨hlt, hrun'⟩ := (hlater r.1 r.2).mp hr
    exact hrun.lt_of_lt hrun' hlt
  · rw [List.map_cons, List.flatten_cons, h.flatten_eq, drop_eq_append hiq hrun.here,
      List.filter_append, filter_skipped hskip, List.filter_append, hrun.filter_eq]
    rfl

/-- **The loop finds the runs**, from the beginning or from a delimiter on. -/
theorem runsFrom_runsLoop (n : ℕ) (hn : s.length - i ≤ n)
    (hborder : i = 0 ∨ s[i]?.all isDelim = true) :
    RunsFrom isDelim s i (runsLoop isDelim n i (s.drop i)) := by
  induction n generalizing i with
  | zero =>
    refine runsFrom_nil ?_
    rw [List.drop_eq_nil_of_le (Nat.le_of_sub_eq_zero (Nat.le_zero.mp hn))]
    rfl
  | succ n ih =>
    have hhead := List.head?_dropWhile_not isDelim (s.drop i)
    have hfollow := drop_add_length_takeWhile s i isDelim
    rw [runsLoop]
    cases hrest : (s.drop i).dropWhile isDelim with
    | nil => exact runsFrom_nil hrest
    | cons c rest =>
      have hend := end_bounds hrest
      rw [hrest] at hhead hfollow
      have hskip : ∀ k, i ≤ k → k < i + ((s.drop i).takeWhile isDelim).length →
          s[k]?.all isDelim = true := fun k hik hk => all_of_lt_takeWhile hik hk
      set q := i + ((s.drop i).takeWhile isDelim).length
      have hiq : i ≤ q := Nat.le_add_right _ _
      have hc : isDelim c = false := hhead
      have hget : s[q]?.all isDelim = false := by
        rw [← List.head?_drop, hfollow]
        exact hc
      have hrun := maximalRun_takeWhile hfollow hc (before_of_skip hborder hiq hskip hget)
      have hnext := drop_add_length_takeWhile s q fun c => !isDelim c
      rw [hfollow] at hrun hnext
      refine RunsFrom.cons hiq hskip hrun ?_
      rw [← hnext]
      exact ih (by omega) (Or.inr hrun.behind)

end

/-! ### The tokens -/

/-- The loop of `tokenize` trims the runs. -/
theorem tokenizeLoop_eq (delimsset cutset : Bytes) (n i : ℕ) (s : Bytes) :
    tokenizeLoop delimsset cutset n s =
      (runsLoop (strchr delimsset) n i s).map fun r => trim r.2 cutset := by
  induction n generalizing i s with
  | zero => rfl
  | succ n ih =>
    rw [tokenizeLoop, runsLoop]
    cases s.dropWhile (strchr delimsset) with
    | nil => rfl
    | cons c rest => exact congrArg _ (ih _ _)

section

variable (delimsset cutset : Bytes) {s : Bytes} {i : ℕ}

theorem runsLoop_of_cons {isDelim : UInt8 → Bool} {c : UInt8} {rest : Bytes}
    (h : s.dropWhile isDelim = c :: rest) (n i : ℕ) :
    runsLoop isDelim (n + 1) i s =
      (i + (s.takeWhile isDelim).length, (c :: rest).takeWhile fun c => !isDelim c) ::
        runsLoop isDelim n (i + (s.takeWhile isDelim).length +
          ((c :: rest).takeWhile fun c => !isDelim c).length)
          ((c :: rest).dropWhile fun c => !isDelim c) := by
  rw [runsLoop, h]

/-- A round of the outer loop that collects a token. -/
theorem tokenizeRounds_of_cons (n : ℕ) (tokens : List Bytes) {c : UInt8} {rest : Bytes}
    (hrest : (s.drop i).dropWhile (strchr delimsset) = c :: rest) :
    tokenizeRounds delimsset cutset s (n + 1) i tokens =
      (trim? ((c :: rest).takeWhile fun c => !strchr delimsset c) cutset).bind fun tok =>
        tokenizeRounds delimsset cutset s n
          (i + ((s.drop i).takeWhile (strchr delimsset)).length +
            ((c :: rest).takeWhile fun c => !strchr delimsset c).length) (tokens ++ [tok]) := by
  have hfollow := drop_add_length_takeWhile s i (strchr delimsset)
  have hq := start_lt_length hrest
  have hlt : i < s.length := (Nat.le_add_right _ _).trans_lt hq
  rw [tokenizeRounds, if_pos hlt, skipLoop_eq _ hlt.le (by omega)]
  rw [hrest] at hfollow
  set q := i + ((s.drop i).takeWhile (strchr delimsset)).length
  have htok := tokLoop_eq delimsset [] (n := s.length + 1) hq.le (by omega)
  rw [hfollow, List.nil_append] at htok
  show (if q ≥ s.length then some tokens else _) = _
  rw [if_neg (Nat.not_le.mpr hq), htok]
  rfl

/-- A round that finds delimiters only. -/
theorem tokenizeRounds_of_nil (n : ℕ) (tokens : List Bytes)
    (hrest : (s.drop i).dropWhile (strchr delimsset) = []) :
    tokenizeRounds delimsset cutset s (n + 1) i tokens = some tokens := by
  have hfollow := drop_add_length_takeWhile s i (strchr delimsset)
  rw [hrest, List.drop_eq_nil_iff] at hfollow
  rw [tokenizeRounds]
  by_cases hlt : i < s.length
  · rw [if_pos hlt, skipLoop_eq _ hlt.le (by omega)]
    exact if_pos hfollow
  · rw [if_neg hlt]

/-- So do the loops with an index. -/
theorem tokenizeRounds_eq {n : ℕ} (tokens : List Bytes) (hn : s.length - i ≤ n) :
    tokenizeRounds delimsset cutset s (n + 1) i tokens =
      ((runsLoop (strchr delimsset) n i (s.drop i)).mapM fun r => trim? r.2 cutset).map
        (tokens ++ ·) := by
  induction n generalizing i tokens with
  | zero =>
    have hnil : s.drop i = [] :=
      List.drop_eq_nil_of_le (Nat.le_of_sub_eq_zero (Nat.le_zero.mp hn))
    rw [tokenizeRounds_of_nil delimsset cutset 0 tokens (by rw [hnil]; rfl)]
    exact congrArg some (List.append_nil tokens).symm
  | succ n ih =>
    cases hrest : (s.drop i).dropWhile (strchr delimsset) with
    | nil =>
      rw [tokenizeRounds_of_nil delimsset cutset _ tokens hrest, runsLoop, hrest]
      exact congrArg some (List.append_nil tokens).symm
    | cons c rest =>
      have hend := end_bounds hrest
      have hfollow := drop_add_length_takeWhile s i (strchr delimsset)
      rw [tokenizeRounds_of_cons delimsset cutset _ tokens hrest, runsLoop_of_cons hrest,
        List.mapM_cons]
      rw [hrest] at hfollow
      set q := i + ((s.drop i).takeWhile (strchr delimsset)).length
      have hnext := drop_add_length_takeWhile s q fun c => !strchr delimsset c
      rw [hfollow] at hnext
      cases trim? ((c :: rest).takeWhile fun c => !strchr delimsset c) cutset with
      | none => rfl
      | some tok =>
        rw [Option.bind_some, ih _ (by omega), hnext]
        cases (runsLoop (strchr delimsset) n _ _).mapM fun r => trim? r.2 cutset with
        | none => rfl
        | some toks => exact congrArg some (List.append_assoc tokens [tok] toks)

end

/-- The runs of a string in lower case. -/
def tokenRuns (str delimsset : Bytes) : List (ℕ × Bytes) :=
  runsLoop (strchr delimsset) str.length 0 (toLower str)

theorem length_toLower (s : Bytes) : (toLower s).length = s.length := List.length_map _

theorem runsFrom_tokenRuns (str delimsset : Bytes) :
    RunsFrom (strchr delimsset) (toLower str) 0 (tokenRuns str delimsset) := by
  have hlen := length_toLower str
  exact runsFrom_runsLoop str.length (by omega) (Or.inl rfl)

/-- `tokenize` trims the runs. -/
theorem tokenize_eq (str delimsset cutset : Bytes) :
    tokenize str delimsset cutset = (tokenRuns str delimsset).map fun r => trim r.2 cutset :=
  tokenizeLoop_eq delimsset cutset str.length 0 (toLower str)

/-- So it does with an index, which trims in the same places. -/
theorem tokenize?_eq (str delimsset cutset : Bytes) :
    tokenize? str delimsset cutset = (tokenRuns str delimsset).mapM fun r => trim? r.2 cutset := by
  have hlen := length_toLower str
  have hrounds := tokenizeRounds_eq delimsset cutset (s := toLower str) (i := 0) [] (Nat.le_refl _)
  rw [List.drop_zero, Nat.sub_zero, hlen] at hrounds
  rw [tokenize?, hlen, hrounds, tokenRuns]
  cases (runsLoop (strchr delimsset) str.length 0 (toLower str)).mapM fun r =>
    trim? r.2 cutset with
  | none => rfl
  | some toks => rfl

theorem mapM_trim? {cutset : Bytes} {runs : List (ℕ × Bytes)}
    (h : ∀ r ∈ runs, trim? r.2 cutset = some (trim r.2 cutset)) :
    (runs.mapM fun r => trim? r.2 cutset) = some (runs.map fun r => trim r.2 cutset) := by
  induction runs with
  | nil => rfl
  | cons r runs ih =>
    rw [List.forall_mem_cons] at h
    rw [List.mapM_cons, h.1, ih h.2]
    rfl

/-- Where every run has something to keep, the tokens are those of `tokenize`. -/
theorem tokenize?_eq_some {str delimsset cutset : Bytes} (hne : cutset ≠ [])
    (h : ∀ r ∈ tokenRuns str delimsset, ∃ c ∈ r.2, strchr cutset c = false) :
    tokenize? str delimsset cutset = some (tokenize str delimsset cutset) := by
  rw [tokenize?_eq, tokenize_eq]
  refine mapM_trim? fun r hr => ?_
  rw [trim?_eq hne, if_pos (h r hr)]

/-- **The tokens are the maximal runs** of characters that are no delimiters, in the string in
lower case: all of them, in their order, and with a delimiter between one and the next. -/
theorem tokenize_spec (str : Bytes) (delimsset : CString) :
    ∃ runs, tokenize? str delimsset.bytes [] = some (runs.map Prod.snd) ∧
      RunsFrom (strchr delimsset.bytes) (toLower str) 0 runs := by
  refine ⟨tokenRuns str delimsset.bytes, ?_, runsFrom_tokenRuns str delimsset.bytes⟩
  rw [tokenize?_eq]
  exact mapM_trim? fun _ _ => rfl

end SniffDogSniff.StringUtil
