import SniffDogSniff.Base.Prog
import SniffDogSniff.SdsCore.ConfigBuffer
import Mathlib.Data.List.DropRight
import Mathlib.Logic.Function.Basic

/-!
# The pointers of `strlrtrim`

`strlrtrim` of `SdsCore.ConfigBuffer` is about what is left of a string.  Here it is run on
a memory: a pointer is a place, counted from the start of the string, and every place that
is read or written is noted.  The second pointer is at the last character, or in front of
the string where there is none, and stays where it is.

## Main definitions

* `Touch`, `Mem` — an access, and the memory; `load`, `store`.
* `strlen`, `skipBlanks`, `cutBlanks`, `strlrtrim` — the code.
* `HasString` — the string at a place; `inMemory`, a string with anything around.
* `content` — the string without the blanks at both ends.
* `TrimsLine` — only the string is touched, and its content is returned.
* `OneBlankBehind` — a line that is not empty, with one blank behind at most.

## Main results

* `strlrtrim_of_concat`, `strlrtrim_nil` — the runs, on a string and on the empty one.
* `trimLine_of_eq_some`, `strlrtrim_eq_none_iff` — they leave what the model of the parser
  says, and write in front of the string where it gives nothing.
* `trimmed_eq_content_iff` — which strings lose all of their blanks.
* `trimsLine_iff` — **which lines are trimmed as they should be.**
* `oneBlankBehind_uncommented_iff` — the same for the lines of a file.
-/

namespace SniffDogSniff.LineBuffer

/-! ### The code -/

/-- What is done to a place. -/
inductive Touch
  | read (place : ℤ)
  | written (place : ℤ)
  deriving DecidableEq

def Touch.place : Touch → ℤ
  | read place => place
  | written place => place

/-- The bytes at all places. -/
abbrev Mem := ℤ → UInt8

/-- `*p`. -/
def load (p : ℤ) : Prog Touch Mem UInt8 := do
  Prog.note (.read p)
  let mem ← Prog.get
  pure (mem p)

/-- `*p = b`. -/
def store (p : ℤ) (b : UInt8) : Prog Touch Mem Unit := do
  Prog.note (.written p)
  Prog.modify fun mem => Function.update mem p b

/-- The place of the terminator. -/
def terminator : ℕ → ℤ → Prog Touch Mem ℤ
  | 0, _ => Prog.stuck
  | n + 1, p => do
      let c ← load p
      if c = 0 then pure p else terminator n (p + 1)

/-- `strlen`; the `int` that it is put into has room for the length of a line. -/
def strlen (fuel : ℕ) (s : ℤ) : Prog Touch Mem ℤ := do
  let p ← terminator fuel s
  pure (p - s)

/-- The first loop of `strlrtrim`. -/
def skipBlanks (sep : ℤ) : ℕ → ℤ → Prog Touch Mem ℤ
  | 0, _ => Prog.stuck
  | n + 1, s =>
      if s < sep then do
        let c ← load s
        if isBlank c then skipBlanks sep n (s + 1) else pure s
      else pure s

/-- The second one, which does not move `sep`. -/
def cutBlanks (sep : ℤ) : ℕ → Prog Touch Mem Unit
  | 0 => Prog.stuck
  | n + 1 => do
      let c ← load sep
      if isTrailing c then do
        store sep 0
        cutBlanks sep n
      else pure ()

/-- `strlrtrim`, with the rounds that each loop can take. -/
def strlrtrim (fuel : ℕ) (s : ℤ) : Prog Touch Mem ℤ := do
  let l ← strlen fuel s
  let sep := s + l - 1
  let s ← skipBlanks sep fuel s
  cutBlanks sep fuel
  pure s

/-! ### Strings in memory -/

/-- The string at a place. -/
def HasString (mem : Mem) : ℤ → Bytes → Prop
  | p, [] => mem p = 0
  | p, c :: t => (c ≠ 0 ∧ mem p = c) ∧ HasString mem (p + 1) t

/-- A string with its terminator, and what is around it. -/
def inMemory (s : CString) (around : Mem) : Mem := fun p =>
  if 0 ≤ p ∧ p ≤ s.bytes.length then s.bytes.getD p.toNat 0 else around p

/-- The string without the spaces, tabs and newlines at its ends. -/
def content (s : Bytes) : Bytes := (s.dropWhile isTrailing).rdropWhile isTrailing

/-- The program on a string, with rounds enough for all of its loops. -/
def trimLine (s : CString) (around : Mem) : List Touch × Outcome Mem ℤ :=
  strlrtrim (s.bytes.length + 2) 0 (inMemory s around)

/-- Only the string and its terminator are touched, and what is returned is the place of
the content. -/
structure TrimsLine (s : CString) (around : Mem) : Prop where
  inString : ∀ e ∈ (trimLine s around).1, 0 ≤ e.place ∧ e.place ≤ s.bytes.length
  returns : ∃ p mem, (trimLine s around).2 = .returned p mem ∧ HasString mem p (content s.bytes)

@[simp] theorem hasString_nil {mem : Mem} {p : ℤ} : HasString mem p [] ↔ mem p = 0 := Iff.rfl

theorem succ_add_length (p : ℤ) (c : UInt8) (a : Bytes) :
    p + 1 + a.length = p + (c :: a).length := by
  rw [List.length_cons]
  omega

theorem HasString.unique {mem : Mem} {p : ℤ} {t t' : Bytes} (h : HasString mem p t)
    (h' : HasString mem p t') : t = t' := by
  induction t generalizing p t' with
  | nil =>
    cases t' with
    | nil => rfl
    | cons c' t' => exact absurd (h'.1.2.symm.trans h) h'.1.1
  | cons c t ih =>
    cases t' with
    | nil => exact absurd (h.1.2.symm.trans h') h.1.1
    | cons c' t' => rw [h.1.2.symm.trans h'.1.2, ih h.2 h'.2]

/-- The string behind some of its characters. -/
theorem HasString.right {mem : Mem} {p : ℤ} {a t : Bytes} (h : HasString mem p (a ++ t)) :
    HasString mem (p + a.length) t := by
  induction a generalizing p with
  | nil => simpa using h
  | cons c a ih =>
    rw [← succ_add_length]
    exact ih h.2

theorem HasString.drop {mem : Mem} {p : ℤ} {t : Bytes} (h : HasString mem p t) {k : ℕ}
    (hk : k ≤ t.length) : HasString mem (p + k) (t.drop k) := by
  rw [← List.take_append_drop k t] at h
  have hright := h.right
  rwa [List.length_take_of_le hk] at hright

/-- A place in front of the string makes no difference. -/
theorem HasString.update_of_lt {mem : Mem} {p q : ℤ} {t : Bytes} (h : HasString mem p t)
    (hq : q < p) (b : UInt8) : HasString (Function.update mem q b) p t := by
  induction t generalizing p with
  | nil => exact (Function.update_of_ne hq.ne' _ _).trans h
  | cons c t ih =>
    refine ⟨⟨h.1.1, ?_⟩, ih h.2 (hq.trans (lt_add_one p))⟩
    exact (Function.update_of_ne hq.ne' _ _).trans h.1.2

/-- **A NUL ends the string.** -/
theorem HasString.cut {mem : Mem} {p : ℤ} {a t : Bytes} (h : HasString mem p (a ++ t)) :
    HasString (Function.update mem (p + a.length) 0) p a := by
  induction a generalizing p with
  | nil => simp
  | cons c a ih =>
    rw [← succ_add_length]
    refine ⟨⟨h.1.1, ?_⟩, ih h.2⟩
    rw [Function.update_of_ne (by omega), h.1.2]

theorem hasString_of_getD {mem : Mem} {p : ℤ} {t : Bytes} (h0 : 0 ∉ t)
    (h : ∀ i ≤ t.length, mem (p + i) = t.getD i 0) : HasString mem p t := by
  induction t generalizing p with
  | nil => simpa using h 0 le_rfl
  | cons c t ih =>
    rw [List.mem_cons, not_or] at h0
    refine ⟨⟨Ne.symm h0.1, by simpa using h 0 (Nat.zero_le _)⟩, ih h0.2 fun i hi => ?_⟩
    have hi' := h (i + 1) (Nat.succ_le_succ hi)
    rwa [Nat.cast_succ, add_comm (i : ℤ), ← add_assoc] at hi'

theorem hasString_inMemory (s : CString) (around : Mem) :
    HasString (inMemory s around) 0 s.bytes := by
  apply hasString_of_getD s.nonzero
  intro i hi
  rw [zero_add, inMemory, if_pos ⟨Int.natCast_nonneg i, Int.ofNat_le.mpr hi⟩, Int.toNat_natCast]

/-! ### The loops -/

/-- All accesses are between two places. -/
def Within (lo hi : ℤ) (es : List Touch) : Prop := ∀ e ∈ es, lo ≤ e.place ∧ e.place ≤ hi

theorem within_nil {lo hi : ℤ} : Within lo hi [] := fun _ he => absurd he List.not_mem_nil

theorem Within.read_cons {lo hi p : ℤ} {es : List Touch} (h : Within lo hi es) (hlo : lo ≤ p)
    (hhi : p ≤ hi) : Within lo hi (.read p :: es) :=
  List.forall_mem_cons.mpr ⟨⟨hlo, hhi⟩, h⟩

theorem Within.append {lo hi : ℤ} {es es' : List Touch} (h : Within lo hi es)
    (h' : Within lo hi es') : Within lo hi (es ++ es') :=
  List.forall_mem_append.mpr ⟨h, h'⟩

theorem Within.mono {lo lo' hi hi' : ℤ} {es : List Touch} (h : Within lo hi es) (hlo : lo' ≤ lo)
    (hhi : hi ≤ hi') : Within lo' hi' es :=
  fun e he => ⟨hlo.trans (h e he).1, (h e he).2.trans hhi⟩

theorem load_run (p : ℤ) (mem : Mem) : load p mem = ([.read p], .returned (mem p) mem) := rfl

theorem store_run (p : ℤ) (b : UInt8) (mem : Mem) :
    store p b mem = ([.written p], .returned () (Function.update mem p b)) := rfl

theorem terminator_run {mem : Mem} {p : ℤ} {t : Bytes} {n : ℕ} (h : HasString mem p t)
    (hn : t.length < n) :
    ∃ es, terminator n p mem = (es, .returned (p + t.length) mem) ∧ Within p (p + t.length) es := by
  induction n generalizing p t with
  | zero => exact absurd hn (Nat.not_lt_zero _)
  | succ n ih =>
    rw [terminator, Prog.bind_of_returned (load_run p mem)]
    cases t with
    | nil =>
      rw [if_pos (hasString_nil.mp h)]
      exact ⟨[.read p], by simp [pure], within_nil.read_cons le_rfl (by simp)⟩
    | cons c t =>
      rw [if_neg (by rw [h.1.2]; exact h.1.1)]
      obtain ⟨es, hrun, hes⟩ := ih h.2 (Nat.lt_of_succ_lt_succ hn)
      rw [succ_add_length] at hrun hes
      refine ⟨.read p :: es, by rw [hrun]; rfl, ?_⟩
      exact (hes.mono (by omega) le_rfl).read_cons le_rfl (by omega)

theorem strlen_run {mem : Mem} {p : ℤ} {t : Bytes} {n : ℕ} (h : HasString mem p t)
    (hn : t.length < n) :
    ∃ es, strlen n p mem = (es, .returned (t.length : ℤ) mem) ∧ Within p (p + t.length) es := by
  obtain ⟨es, hrun, hes⟩ := terminator_run h hn
  refine ⟨es, ?_, hes⟩
  rw [strlen, Prog.bind_of_returned hrun, add_sub_cancel_left]
  exact congrArg (·, _) (List.append_nil es)

/-- Where the pointers have met. -/
theorem skipBlanks_of_le {sep p : ℤ} (h : sep ≤ p) {n : ℕ} (hn : 0 < n) (mem : Mem) :
    skipBlanks sep n p mem = ([], .returned p mem) := by
  obtain ⟨n, rfl⟩ := Nat.exists_eq_succ_of_ne_zero hn.ne'
  rw [skipBlanks, if_neg (not_lt.mpr h)]
  rfl

/-- **The blanks in front**, of what is in front of `sep`. -/
theorem skipBlanks_run {mem : Mem} {p sep : ℤ} {l t : Bytes} {n : ℕ} (h : HasString mem p (l ++ t))
    (hsep : sep = p + l.length) (hn : l.length < n) :
    ∃ es, skipBlanks sep n p mem = (es, .returned (p + (l.takeWhile isBlank).length) mem) ∧
      Within p sep es := by
  induction l generalizing p n with
  | nil =>
    refine ⟨[], ?_, within_nil⟩
    rw [skipBlanks_of_le (by simp [hsep]) hn]
    simp
  | cons c l ih =>
    cases n with
    | zero => exact absurd hn (Nat.not_lt_zero _)
    | succ n =>
    rw [← succ_add_length] at hsep
    rw [skipBlanks, if_pos (by omega), Prog.bind_of_returned (load_run p mem), h.1.2,
      List.takeWhile_cons]
    cases isBlank c with
    | false => exact ⟨[.read p], by simp [pure], within_nil.read_cons le_rfl (by omega)⟩
    | true =>
      obtain ⟨es, hrun, hes⟩ := ih h.2 hsep (Nat.lt_of_succ_lt_succ hn)
      rw [succ_add_length p c] at hrun
      refine ⟨.read p :: es, ?_, (hes.mono (by omega) le_rfl).read_cons le_rfl (by omega)⟩
      rw [if_pos rfl, if_pos rfl, hrun]
      rfl

/-- **The blanks behind**: one at most, and it is looked at in any case. -/
theorem cutBlanks_run (sep : ℤ) {n : ℕ} (hn : 2 ≤ n) (mem : Mem) :
    ∃ es, cutBlanks sep n mem =
        (.read sep :: es,
          .returned () (if isTrailing (mem sep) then Function.update mem sep 0 else mem)) ∧
      (∀ e ∈ es, e.place = sep) ∧ (.written sep ∈ es ↔ isTrailing (mem sep) = true) := by
  obtain ⟨n, rfl⟩ := Nat.exists_eq_add_of_le' hn
  rw [cutBlanks, Prog.bind_of_returned (load_run sep mem)]
  split
  · next hblank =>
    -- the NUL that is written ends the loop
    rw [Prog.bind_of_returned (store_run sep 0 mem), cutBlanks,
      Prog.bind_of_returned (load_run sep _), Function.update_self]
    exact ⟨[.written sep, .read sep], rfl, by simp [Touch.place], by simp [hblank]⟩
  · next hblank => exact ⟨[], rfl, by simp, by simp [hblank]⟩

/-! ### The run -/

/-- The string that is left, and the one that is returned. -/
theorem left_of_concat {mem : Mem} {l : Bytes} {b : UInt8} (h : HasString mem 0 (l ++ [b])) :
    HasString (if isTrailing b then Function.update mem l.length 0 else mem) 0
      (dropTrailing (l ++ [b])) := by
  rw [dropTrailing_concat]
  split
  · have hcut := h.cut
    rwa [zero_add] at hcut
  · exact h

/-- **The run on a string** touches nothing else. -/
theorem strlrtrim_of_concat {mem : Mem} {l : Bytes} {b : UInt8} (h : HasString mem 0 (l ++ [b]))
    {n : ℕ} (hn : l.length + 2 ≤ n) :
    ∃ es p mem', strlrtrim n 0 mem = (es, .returned p mem') ∧ Within 0 (l ++ [b]).length es ∧
      HasString mem' 0 (dropTrailing (l ++ [b])) ∧ HasString mem' p (trimmed (l ++ [b])) := by
  have hlength : ((l ++ [b]).length : ℤ) = l.length + 1 := by simp
  have hlast : mem l.length = b := by
    have hright := h.right
    rw [zero_add] at hright
    exact hright.1.2
  obtain ⟨es, hlen, hes⟩ := strlen_run h (n := n) (by simp; omega)
  obtain ⟨es', hskip, hes'⟩ := skipBlanks_run h (zero_add _).symm (n := n) (by omega)
  obtain ⟨es'', hcut, hes'', -⟩ := cutBlanks_run l.length (n := n) (by omega) mem
  have hleft := left_of_concat h
  have hreturned := hleft.drop (k := (l.takeWhile isBlank).length) (by
    have hle := (List.takeWhile_sublist isBlank (l := l)).length_le
    rw [dropTrailing_concat]
    split <;> simp <;> omega)
  rw [drop_dropTrailing] at hreturned
  rw [hlast] at hcut
  have hsep : (0 : ℤ) + (l ++ [b]).length - 1 = l.length := by omega
  refine ⟨es ++ (es' ++ (.read l.length :: es'')), _, _, ?_, ?_, hleft, hreturned⟩
  · rw [strlrtrim, Prog.bind_of_returned hlen]
    simp only [hsep]
    rw [Prog.bind_of_returned hskip, Prog.bind_of_returned hcut]
    simp [pure]
  · refine (hes.mono le_rfl (by omega)).append ((hes'.mono le_rfl (by omega)).append ?_)
    refine Within.read_cons (fun e he => ?_) (by omega) (by omega)
    rw [hes'' e he]
    omega

/-- **The run on the empty string** looks at the place in front of it, and writes to it
where there is a blank. -/
theorem strlrtrim_nil {mem : Mem} (h : HasString mem 0 []) {n : ℕ} (hn : 2 ≤ n) :
    ∃ es, strlrtrim n 0 mem =
        (es, .returned 0 (if isTrailing (mem (-1)) then Function.update mem (-1) 0 else mem)) ∧
      .read (-1) ∈ es ∧ (.written (-1) ∈ es ↔ isTrailing (mem (-1)) = true) := by
  obtain ⟨es, hlen, hes⟩ := strlen_run h (n := n) (by simp; omega)
  have hskip := skipBlanks_of_le (show -1 ≤ (0 : ℤ) by decide) (n := n) (by omega) mem
  obtain ⟨es', hcut, -, hwritten⟩ := cutBlanks_run (-1) hn mem
  refine ⟨es ++ .read (-1) :: es', ?_, by simp, ?_⟩
  · rw [strlrtrim, Prog.bind_of_returned hlen]
    simp only [List.length_nil, Nat.cast_zero, add_zero, zero_sub]
    rw [Prog.bind_of_returned_nil hskip, Prog.bind_of_returned hcut]
    simp [pure]
  · have hnot : Touch.written (-1) ∉ es := fun h => absurd (hes _ h).1 (by decide)
    rw [List.mem_append, or_iff_right hnot, List.mem_cons, or_iff_right Touch.noConfusion, hwritten]

/-- The run on a string, from its place in memory. -/
theorem trimLine_of_ne_nil {s : CString} (h : s.bytes ≠ []) (around : Mem) :
    ∃ es p mem, trimLine s around = (es, .returned p mem) ∧ Within 0 s.bytes.length es ∧
      HasString mem 0 (dropTrailing s.bytes) ∧ HasString mem p (trimmed s.bytes) := by
  have hstring := hasString_inMemory s around
  obtain ⟨l, b, hs⟩ := (List.eq_nil_or_concat' s.bytes).resolve_left h
  rw [trimLine]
  rw [hs] at hstring ⊢
  exact strlrtrim_of_concat hstring (by simp)

theorem inMemory_front (s : CString) (around : Mem) : inMemory s around (-1) = around (-1) :=
  if_neg fun h => absurd h.1 (by decide)

theorem trimLine_of_nil {s : CString} (h : s.bytes = []) (around : Mem) :
    ∃ es mem, trimLine s around = (es, .returned 0 mem) ∧ .read (-1) ∈ es ∧
      (.written (-1) ∈ es ↔ isTrailing (around (-1)) = true) ∧ HasString mem 0 [] := by
  have hstring := hasString_inMemory s around
  rw [h] at hstring
  obtain ⟨es, hrun, hread, hwritten⟩ := strlrtrim_nil hstring (n := 2) le_rfl
  rw [inMemory_front] at hwritten
  refine ⟨es, _, by rw [trimLine, h]; exact hrun, hread, hwritten, ?_⟩
  split
  · exact hstring.update_of_lt (by decide) 0
  · exact hstring

/-! ### The model of the parser -/

/-- What the model of the parser says is left is left. -/
theorem trimLine_of_eq_some {s : CString} {around : Mem} {left t : Bytes}
    (h : SniffDogSniff.strlrtrim (around (-1)) s.bytes = some (left, t)) :
    ∃ es p mem, trimLine s around = (es, .returned p mem) ∧ HasString mem 0 left ∧
      HasString mem p t := by
  by_cases hnil : s.bytes = []
  · obtain ⟨es, mem, hrun, -, -, hstring⟩ := trimLine_of_nil hnil around
    rw [hnil, SniffDogSniff.strlrtrim, List.getLast?_nil] at h
    simp only [Option.ite_none_left_eq_some, Option.some.injEq, Prod.mk.injEq] at h
    obtain ⟨-, rfl, rfl⟩ := h
    exact ⟨es, 0, mem, hrun, hstring, hstring⟩
  · obtain ⟨es, p, mem, hrun, -, hleft, hreturned⟩ := trimLine_of_ne_nil hnil around
    rw [strlrtrim_of_ne_nil _ hnil, Option.some.injEq, Prod.mk.injEq] at h
    obtain ⟨rfl, rfl⟩ := h
    exact ⟨es, p, mem, hrun, hleft, hreturned⟩

/-- And where it gives nothing, the byte in front is written to. -/
theorem strlrtrim_eq_none_iff (s : CString) (around : Mem) :
    SniffDogSniff.strlrtrim (around (-1)) s.bytes = none ↔
      .written (-1) ∈ (trimLine s around).1 := by
  by_cases hnil : s.bytes = []
  · obtain ⟨es, mem, hrun, -, hwritten, -⟩ := trimLine_of_nil hnil around
    rw [hrun, hwritten, hnil, SniffDogSniff.strlrtrim, List.getLast?_nil]
    simp
  · obtain ⟨es, p, mem, hrun, hes, -, -⟩ := trimLine_of_ne_nil hnil around
    rw [hrun, strlrtrim_of_ne_nil _ hnil]
    exact iff_of_false (by simp) fun h => absurd (hes _ h).1 (by decide)

/-! ### The content -/

/-- A text that starts and ends with something else, and blanks around it. -/
structure Framed (a w r : Bytes) : Prop where
  front : ∀ b ∈ a, isTrailing b = true
  head : w.head?.any (!isTrailing ·) = true
  last : w.getLast?.any (!isTrailing ·) = true
  behind : ∀ b ∈ r, isTrailing b = true

/-- Every string that has more than blanks is such a text. -/
theorem exists_framed {s : Bytes} (h : ∃ c ∈ s, isTrailing c = false) :
    ∃ a w r, s = a ++ (w ++ r) ∧ Framed a w r := by
  obtain ⟨c, t, hdrop⟩ : ∃ c t, s.dropWhile isTrailing = c :: t := by
    refine List.exists_cons_of_ne_nil fun hnil => ?_
    obtain ⟨c, hc, hkeep⟩ := h
    exact absurd (List.dropWhile_eq_nil_iff.mp hnil c hc) (Bool.eq_false_iff.mp hkeep)
  have hc : isTrailing c = false := by
    have hhead := List.head?_dropWhile_not isTrailing s
    rwa [hdrop] at hhead
  have hne : (c :: t).rdropWhile isTrailing ≠ [] := by
    rw [Ne, List.rdropWhile_eq_nil_iff]
    exact fun hall => absurd (hall c List.mem_cons_self) (Bool.eq_false_iff.mp hc)
  refine ⟨s.takeWhile isTrailing, (c :: t).rdropWhile isTrailing, (c :: t).rtakeWhile isTrailing,
    ?_, fun b hb => List.mem_takeWhile_imp hb, ?_, ?_, fun b hb => List.mem_rtakeWhile_imp hb⟩
  · rw [List.rdropWhile_append_rtakeWhile, ← hdrop, List.takeWhile_append_dropWhile]
  · obtain ⟨c', w, hw⟩ := List.exists_cons_of_ne_nil hne
    obtain ⟨r, hr⟩ := List.rdropWhile_prefix isTrailing (c :: t)
    rw [hw] at hr ⊢
    obtain ⟨rfl, -⟩ := List.cons.inj hr
    simp [hc]
  · rw [List.getLast?_eq_some_getLast hne, Option.any_some, Bool.not_eq_true']
    exact Bool.eq_false_iff.mpr (List.rdropWhile_last_not isTrailing (c :: t) hne)

section

variable {a w r : Bytes} (h : Framed a w r)

include h

theorem Framed.takeWhile_right : (w ++ r).takeWhile isTrailing = [] := by
  have hhead := h.head
  cases w with
  | nil => cases hhead
  | cons c w =>
    rw [List.head?_cons, Option.any_some, Bool.not_eq_true'] at hhead
    rw [List.cons_append, List.takeWhile_cons, hhead]
    rfl

theorem Framed.takeWhile_eq : (a ++ (w ++ r)).takeWhile isTrailing = a := by
  rw [List.takeWhile_append_of_pos h.front, h.takeWhile_right, List.append_nil]

theorem Framed.dropWhile_eq : (a ++ (w ++ r)).dropWhile isTrailing = w ++ r := by
  have hsplit := List.takeWhile_append_dropWhile (p := isTrailing) (l := a ++ (w ++ r))
  rw [h.takeWhile_eq] at hsplit
  exact List.append_cancel_left hsplit

theorem Framed.rtakeWhile_eq : (a ++ (w ++ r)).rtakeWhile isTrailing = r := by
  have hlast := h.last
  obtain ⟨w, c, rfl⟩ := (List.eq_nil_or_concat' w).resolve_left fun hnil => by simp [hnil] at hlast
  rw [List.getLast?_concat, Option.any_some, Bool.not_eq_true'] at hlast
  have hbehind : ∀ b ∈ r.reverse, isTrailing b = true :=
    fun b hb => h.behind b (List.mem_reverse.mp hb)
  have hreverse : (a ++ (w ++ [c] ++ r)).reverse = r.reverse ++ c :: (a ++ w).reverse := by simp
  rw [List.rtakeWhile, hreverse, List.takeWhile_append_of_pos hbehind, List.takeWhile_cons, hlast]
  simp

theorem Framed.content_eq : content (a ++ (w ++ r)) = w := by
  have hsplit := List.rdropWhile_append_rtakeWhile (p := isTrailing) (l := w ++ r)
  have hr : (w ++ r).rtakeWhile isTrailing = r :=
    Framed.rtakeWhile_eq (a := []) ⟨by simp, h.head, h.last, h.behind⟩
  rw [hr] at hsplit
  rw [content, h.dropWhile_eq]
  exact List.append_cancel_right hsplit

/-- What is left of the blanks in front, and of those behind. -/
theorem Framed.trimmed_eq :
    trimmed (a ++ (w ++ r)) = a.dropWhile isBlank ++ (w ++ r.dropLast) := by
  have hhead := h.head
  rw [trimmed, ← List.append_assoc, dropTrailing_append (any_getLast?_append h.last a) h.behind]
  cases w with
  | nil => cases hhead
  | cons c w =>
    rw [List.head?_cons, Option.any_some, Bool.not_eq_true', isTrailing,
      Bool.or_eq_false_iff] at hhead
    rw [List.append_assoc, List.cons_append, dropWhile_append_of_not_isBlank _ _ hhead.1]

end

/-- Among blanks only a newline is kept in front. -/
theorem dropWhile_isBlank_eq_nil_iff {a : Bytes} (ha : ∀ b ∈ a, isTrailing b = true) :
    a.dropWhile isBlank = [] ↔ newline ∉ a := by
  rw [List.dropWhile_eq_nil_iff]
  constructor
  · exact fun h hmem => absurd (h newline hmem) (by decide)
  · intro h b hb
    have hb' := ha b hb
    rw [isTrailing, Bool.or_eq_true, beq_iff_eq] at hb'
    exact hb'.resolve_right fun heq => h (heq ▸ hb)

/-- Where the returned string is the content. -/
theorem Framed.trimmed_eq_iff {a w r : Bytes} (h : Framed a w r) :
    trimmed (a ++ (w ++ r)) = w ↔ newline ∉ a ∧ r.length ≤ 1 := by
  have hdropLast : r.length ≤ 1 ↔ r.dropLast = [] := by
    rw [← List.length_eq_zero_iff, List.length_dropLast]
    omega
  rw [h.trimmed_eq, ← dropWhile_isBlank_eq_nil_iff h.front, hdropLast]
  constructor
  · intro heq
    have hlen := congrArg List.length heq
    simp only [List.length_append] at hlen
    exact ⟨List.length_eq_zero_iff.mp (by omega), List.length_eq_zero_iff.mp (by omega)⟩
  · rintro ⟨hfront, hbehind⟩
    rw [hfront, hbehind, List.append_nil, List.nil_append]

/-- Blanks only, with a newline at the end at most. -/
theorem trimmed_eq_nil_iff {s : Bytes} (hs : ∀ c ∈ s, isTrailing c = true) :
    trimmed s = [] ↔ newline ∉ s.dropLast := by
  rcases List.eq_nil_or_concat' s with rfl | ⟨l, b, rfl⟩
  · simp [trimmed_nil]
  · rw [List.forall_mem_append] at hs
    have hb := hs.2 b (List.mem_singleton_self b)
    rw [trimmed, dropTrailing_concat, if_pos hb, List.dropLast_concat,
      dropWhile_isBlank_eq_nil_iff hs.1]

theorem content_eq_nil {s : Bytes} (hs : ∀ c ∈ s, isTrailing c = true) : content s = [] := by
  rw [content, List.dropWhile_eq_nil_iff.mpr hs, List.rdropWhile_nil]

/-- **The strings that lose all of their blanks.** -/
theorem trimmed_eq_content_iff (s : Bytes) :
    trimmed s = content s ↔
      ((∀ c ∈ s, isTrailing c = true) ∧ newline ∉ s.dropLast) ∨
        (newline ∉ s.takeWhile isTrailing ∧ (s.rtakeWhile isTrailing).length ≤ 1) := by
  by_cases hs : ∀ c ∈ s, isTrailing c = true
  · rw [content_eq_nil hs, trimmed_eq_nil_iff hs, and_iff_right hs,
      List.takeWhile_eq_self_iff.mpr hs]
    refine (or_iff_left_of_imp ?_).symm
    exact fun h hmem => h.1 ((List.dropLast_sublist s).subset hmem)
  · rw [or_iff_right fun h => hs h.1]
    simp only [not_forall, exists_prop, Bool.not_eq_true] at hs
    obtain ⟨a, w, r, rfl, h⟩ := exists_framed hs
    rw [h.content_eq, h.takeWhile_eq, h.rtakeWhile_eq, h.trimmed_eq_iff]

/-! ### Which lines are trimmed -/

/-- Of the empty string the place in front is touched. -/
theorem not_trimsLine_of_nil {s : CString} (h : s.bytes = []) (around : Mem) :
    ¬ TrimsLine s around := by
  intro htrims
  obtain ⟨es, mem, hrun, hread, -⟩ := trimLine_of_nil h around
  have hin := htrims.inString (.read (-1)) (by rw [hrun]; exact hread)
  exact absurd hin.1 (by decide)

theorem trimsLine_of_ne_nil {s : CString} (h : s.bytes ≠ []) (around : Mem) :
    TrimsLine s around ↔ trimmed s.bytes = content s.bytes := by
  obtain ⟨es, p, mem, hrun, hes, -, hreturned⟩ := trimLine_of_ne_nil h around
  constructor
  · rintro ⟨-, p', mem', hrun', hcontent⟩
    rw [hrun, Outcome.returned.injEq] at hrun'
    obtain ⟨rfl, rfl⟩ := hrun'
    exact hreturned.unique hcontent
  · intro heq
    rw [heq] at hreturned
    refine ⟨?_, p, mem, by rw [hrun], hreturned⟩
    rw [hrun]
    exact hes

/-- The line is not empty; it has blanks only, with a newline at most at its end, or no
newline among the blanks in front and one blank behind at most. -/
def OneBlankBehind (s : Bytes) : Prop :=
  s ≠ [] ∧ (((∀ c ∈ s, isTrailing c = true) ∧ newline ∉ s.dropLast) ∨
    (newline ∉ s.takeWhile isTrailing ∧ (s.rtakeWhile isTrailing).length ≤ 1))

/-- **Which lines are trimmed as they should be**, whatever is around them. -/
theorem trimsLine_iff (s : CString) (around : Mem) :
    TrimsLine s around ↔ OneBlankBehind s.bytes := by
  by_cases h : s.bytes = []
  · exact iff_of_false (not_trimsLine_of_nil h around) fun hone => hone.1 h
  · rw [trimsLine_of_ne_nil h, trimmed_eq_content_iff, OneBlankBehind, and_iff_right h]

/-- The string that a line with nothing but a comment leaves, and the text "a" with two
spaces behind it. -/
theorem not_trimsLine :
    ¬ TrimsLine ⟨[], by decide⟩ (fun _ => 0) ∧
      ¬ TrimsLine ⟨[97, 32, 32], by decide⟩ fun _ => 0 := by
  refine ⟨not_trimsLine_of_nil rfl _, ?_⟩
  rw [trimsLine_of_ne_nil (by decide)]
  decide

/-! ### The lines of a file -/

/-- A newline is the last byte that is read. -/
theorem newline_not_mem_dropLast_fgets (n : ℕ) (s : Bytes) : newline ∉ (fgets n s).1.dropLast := by
  induction n generalizing s with
  | zero => exact List.not_mem_nil
  | succ n ih =>
    cases s with
    | nil => exact List.not_mem_nil
    | cons b s =>
      rw [fgets]
      split
      · exact List.not_mem_nil
      · next hb =>
        have hrest := ih s
        cases ht : (fgets n s).1 with
        | nil => exact List.not_mem_nil
        | cons c t =>
          rw [ht] at hrest
          rw [List.dropLast_cons_cons, List.mem_cons, not_or]
          exact ⟨Ne.symm hb, hrest⟩

theorem newline_not_mem_dropLast_of_mem_pieces {text buf : Bytes} (h : buf ∈ pieces text) :
    newline ∉ buf.dropLast := by
  induction text using pieces.induct with
  | case1 =>
    rw [pieces] at h
    exact absurd h List.not_mem_nil
  | case2 b s ih =>
    rw [pieces] at h
    rcases List.mem_cons.mp h with rfl | h
    · exact newline_not_mem_dropLast_fgets _ _
    · exact ih h

/-- Where a newline is only at the end, the line has blanks only, or one behind at most. -/
theorem oneBlankBehind_iff {s : Bytes} (hs : newline ∉ s.dropLast) :
    OneBlankBehind s ↔
      s ≠ [] ∧ ((∀ c ∈ s, isTrailing c = true) ∨ (s.rtakeWhile isTrailing).length ≤ 1) := by
  rw [OneBlankBehind]
  refine and_congr_right fun _ => ?_
  by_cases hall : ∀ c ∈ s, isTrailing c = true
  · exact iff_of_true (Or.inl ⟨hall, hs⟩) (Or.inl hall)
  · rw [or_iff_right fun h => hall h.1, or_iff_right hall, and_iff_right_iff_imp]
    simp only [not_forall, exists_prop, Bool.not_eq_true] at hall
    obtain ⟨a, w, r, rfl, h⟩ := exists_framed hall
    rw [h.takeWhile_eq]
    -- there is something behind the blanks in front
    have hne : w ++ r ≠ [] := fun hnil => by
      have hhead := h.head
      rw [(List.append_eq_nil_iff.mp hnil).1] at hhead
      cases hhead
    rw [List.dropLast_append_of_ne_nil hne] at hs
    exact fun _ hmem => hs (List.mem_append_left _ hmem)

/-- **The lines of a file** that are trimmed as they should be. -/
theorem oneBlankBehind_uncommented_iff {text buf : Bytes} (h : buf ∈ pieces text) :
    OneBlankBehind (uncommented buf) ↔
      uncommented buf ≠ [] ∧ ((∀ c ∈ uncommented buf, isTrailing c = true) ∨
        ((uncommented buf).rtakeWhile isTrailing).length ≤ 1) := by
  have hprefix : uncommented buf <+: buf :=
    (List.takeWhile_prefix _).trans (List.takeWhile_prefix _)
  obtain ⟨r, hr⟩ := hprefix
  refine oneBlankBehind_iff fun hmem => newline_not_mem_dropLast_of_mem_pieces h ?_
  by_cases hnil : r = []
  · rw [hnil, List.append_nil] at hr
    rwa [hr] at hmem
  · rw [← hr, List.dropLast_append_of_ne_nil hnil]
    exact List.mem_append_left _ (List.dropLast_subset _ hmem)

end SniffDogSniff.LineBuffer
