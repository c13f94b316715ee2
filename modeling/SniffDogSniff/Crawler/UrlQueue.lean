import SniffDogSniff.Common.Splits
import SniffDogSniff.SdsCore.ConfigBuffer

/-!
# The file with the urls of the crawler

`save` writes a line for every url of the queue.  `load` reads lines, puts a NUL in the
place of the line feed, and takes for a url what begins there.

## Main definitions

* `save`, `load` — the writer and the reader of the file.
* `Restores` — what is asked of them.

## Main results

* `eq_append_of_load` — every line of a file adds an empty url.
* `restores_iff` — **only the empty queue is restored.**
-/

namespace SniffDogSniff.WebCrawler

open SniffDogSniff.StringUtil

/-- The bytes that `fgets` puts into `buffer`, which has 1024 of them, in front of the NUL. -/
def BUFFER_ROOM : ℕ := 1023

/-- `save`: what is in the file. -/
def save (urlQueue : List Bytes) : Bytes := urlQueue.flatMap fun url => cstr url ++ [newline]

/-- A round of `load`, with what `fgets` has put into the buffer: the url that is added, from
`endp` on.  Where there is no line feed, `endp` is null, and there is no string. -/
def loadUrl (line : Bytes) : Option Bytes :=
  match find [newline] (cstr line) with
  | none => none
  | some endp => some (cstr (((line ++ [0]).set endp 0).drop endp))

/-- The loop of `load`. -/
def loadLoop : Bytes → List Bytes → Option (List Bytes)
  | [], urlQueue => some urlQueue
  | b :: s, urlQueue =>
    match loadUrl (fgets BUFFER_ROOM (b :: s)).1 with
    | none => none
    | some url => loadLoop (fgets BUFFER_ROOM (b :: s)).2 (urlQueue ++ [url])
termination_by s => s.length
decreasing_by exact length_fgets_succ_lt 1022 b s

/-- `load`, of a file that can be opened; undefined where it is. -/
def load (file : Bytes) (urlQueue : List Bytes) : Option (List Bytes) := loadLoop file urlQueue

/-- A url: not empty, and on one line. -/
structure Url where
  bytes : Bytes
  ne_nil : bytes ≠ []
  one_line : newline ∉ bytes

/-- What is saved is loaded into an empty queue. -/
def Restores (urlQueue : List Url) : Prop :=
  load (save (urlQueue.map Url.bytes)) [] = some (urlQueue.map Url.bytes)

/-- A url that is read is empty: the NUL is in front of it. -/
theorem eq_nil_of_loadUrl {line url : Bytes} (h : loadUrl line = some url) : url = [] := by
  rw [loadUrl] at h
  split at h
  · cases h
  · next endp hendp =>
    cases h
    have hfound := (find_eq_some hendp).1.length_le
    have hcstr : (cstr line).length ≤ line.length := (List.takeWhile_prefix _).length_le
    have hlt : endp < ((line ++ [0]).set endp 0).length := by
      rw [List.length_drop, List.length_singleton] at hfound
      rw [List.length_set, List.length_append]
      omega
    rw [List.drop_eq_getElem_cons hlt, List.getElem_set_self]
    rfl

/-- What `fgets` reads, and what it leaves. -/
theorem fgets_append (n : ℕ) (s : Bytes) : (fgets n s).1 ++ (fgets n s).2 = s := by
  induction n generalizing s with
  | zero => rfl
  | succ n ih =>
    cases s with
    | nil => rfl
    | cons b s =>
      rw [fgets]
      split
      · rfl
      · exact congrArg (b :: ·) (ih s)

/-- It reads one line feed at most. -/
theorem count_fgets_le (n : ℕ) (s : Bytes) : (fgets n s).1.count newline ≤ 1 := by
  induction n generalizing s with
  | zero => exact Nat.zero_le 1
  | succ n ih =>
    cases s with
    | nil => exact Nat.zero_le 1
    | cons b s =>
      rw [fgets]
      split
      · exact List.count_le_length
      · next hne =>
        rw [List.count_cons_of_ne hne]
        exact ih s

/-- A line that a url is made of has one. -/
theorem count_of_loadUrl {n : ℕ} {s url : Bytes} (h : loadUrl (fgets n s).1 = some url) :
    (fgets n s).1.count newline = 1 := by
  refine le_antisymm (count_fgets_le n s) (List.count_pos_iff.mpr ?_)
  rw [loadUrl] at h
  split at h
  · cases h
  · next endp hendp =>
    have hmem : newline ∈ (cstr (fgets n s).1).drop endp :=
      (find_eq_some hendp).1.subset List.mem_cons_self
    exact (List.takeWhile_prefix _).subset (List.mem_of_mem_drop hmem)

/-- **What is read of a file**: an empty url for every line. -/
theorem eq_append_of_load {file : Bytes} {urlQueue loaded : List Bytes}
    (h : load file urlQueue = some loaded) :
    loaded = urlQueue ++ List.replicate (file.count newline) [] := by
  rw [load] at h
  fun_induction loadLoop file urlQueue with
  | case1 urlQueue =>
    cases h
    exact (List.append_nil _).symm
  | case2 b s urlQueue hundefined => cases h
  | case3 b s urlQueue url hload ih =>
    have hcount : (b :: s).count newline =
        (fgets BUFFER_ROOM (b :: s)).2.count newline + 1 := by
      conv_lhs => rw [← fgets_append BUFFER_ROOM (b :: s), List.count_append,
        count_of_loadUrl hload]
      exact Nat.add_comm 1 _
    rw [ih h, hcount, eq_nil_of_loadUrl hload, List.replicate_succ, List.append_assoc,
      List.singleton_append]

/-- Every url that is read into an empty queue is empty. -/
theorem eq_nil_of_mem_load {file : Bytes} {loaded : List Bytes} (h : load file [] = some loaded) :
    ∀ url ∈ loaded, url = [] := by
  rw [eq_append_of_load h, List.nil_append]
  exact fun url hurl => List.eq_of_mem_replicate hurl

/-- **Only the empty queue is restored.** -/
theorem restores_iff (urlQueue : List Url) : Restores urlQueue ↔ urlQueue = [] := by
  constructor
  · intro h
    cases urlQueue with
    | nil => rfl
    | cons url urls =>
      have hnil := eq_nil_of_mem_load h url.bytes (List.mem_map_of_mem List.mem_cons_self)
      exact absurd hnil url.ne_nil
  · rintro rfl
    show loadLoop [] [] = some []
    rw [loadLoop]

/-- The url `a` is not restored. -/
theorem not_restores_a : ¬ Restores [⟨[97], by decide, by decide⟩] := by
  intro h
  have hnil := eq_nil_of_mem_load h [97] List.mem_cons_self
  exact absurd hnil (by decide)

end SniffDogSniff.WebCrawler
