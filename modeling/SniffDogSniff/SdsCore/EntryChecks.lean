import SniffDogSniff.Common.LetterCase
import SniffDogSniff.SdsCore.SearchEntry
import Mathlib.Algebra.BigOperators.Group.List.Basic

/-!
# What the checks of an entry miss

`hasValidSize` adds up sizes that are not those of the encoding: it takes 128 bytes
for the similarity hash, which has 16, and 32 for a digest that is not written, but
leaves out the terminators of the strings and the number of properties.
`matchesQuery` compares tokens in lower case with the url as it is.

## Main definitions

* `FitsWhenValid` — what `hasValidSize` promises about `write`.
* `CaseVariant`, `CaseBlind` — an entry in other letter case, and a query that does
  not see it.

## Main results

* `fitsWhenValid_iff` — **the promise is kept if and only if the number of properties
  and the length of the texts do not lie between two lines.**
* `caseBlind_iff` — **letter case makes no difference if and only if the matches that
  do not depend on it decide the query.**
-/

namespace SniffDogSniff.SearchEntry

open Bytes SdsBytesBuf StringUtil

/-! ### The size -/

theorem sum_map_const_add {α : Type} (n : ℕ) (f : α → ℕ) (l : List α) :
    (l.map fun a => n + f a).sum = l.length * n + (l.map f).sum := by
  rw [List.sum_map_add, List.map_const', List.sum_replicate, Nat.nsmul_eq_mul]

theorem length_encodeProperty (p : UInt8 × Bytes) :
    (encodeProperty p).length = 2 + p.2.length := by
  rw [encodeProperty, encodeString, List.length_append, Word.length_encode, List.length_append]
  show 1 + (p.2.length + 1) = 2 + p.2.length
  omega

section Size

variable [Hashing]

/-- The length of the texts of an entry. -/
def textLength (se : SearchEntry) : ℕ :=
  se.title.length + se.url.length + (se.properties.entries.map fun p => p.2.length).sum

/-- If the check lets the entry pass, writing it takes at most the maximal size. -/
def FitsWhenValid (se : SearchEntry) : Prop :=
  se.hasValidSize = true → ∀ buf buf', buf.AtEnd → se.write buf = some buf' →
    buf'.size ≤ buf.size + MAX_SEARCH_ENTRY_SIZE

theorem hasValidSize_iff (se : SearchEntry) :
    se.hasValidSize = true ↔ se.textLength + se.properties.size ≤ 19975 := by
  rw [hasValidSize, decide_eq_true_eq, sum_map_const_add, textLength]
  unfold SHA256_DIGEST_LENGTH SIMHASH_DIGEST_LENGTH FNV128_BIT_SIZE MAX_SEARCH_ENTRY_SIZE OrdMap.size
  omega

theorem length_encode (se : SearchEntry) :
    se.encode.length = 23 + se.textLength + 2 * se.properties.size := by
  have hid : se.simHash.id.id.length = 16 := se.simHash.id.length_id
  have hprops : (se.properties.entries.flatMap encodeProperty).length =
      2 * se.properties.entries.length + (se.properties.entries.map fun p => p.2.length).sum := by
    rw [List.length_flatMap, Nat.mul_comm, ← sum_map_const_add]
    simp only [length_encodeProperty]
  rw [encode, textLength]
  simp only [List.length_append, Word.length_encode, encodeString, hid, hprops, OrdMap.size]
  show 16 + (se.title.length + 1 + (se.url.length + 1 + (1 + (4 + _)))) = _
  omega

/-- `write` appends the encoding. -/
theorem size_of_write {se : SearchEntry} {buf buf' : SdsBytesBuf} (hend : buf.AtEnd)
    (hw : se.write buf = some buf') : buf'.size = buf.size + se.encode.length := by
  obtain ⟨buf₁, hw₁, -, hbytes⟩ := se.writes_write buf hend
  have heq : buf₁ = buf' := Option.some.inj (hw₁.symm.trans hw)
  rw [← heq, ← length_bytes, hbytes, List.length_append, length_bytes]

/-- The promise, in numbers. -/
theorem fitsWhenValid_iff_imp (se : SearchEntry) :
    se.FitsWhenValid ↔ (se.textLength + se.properties.size ≤ 19975 →
      se.textLength + 2 * se.properties.size ≤ 20113) := by
  have hlen : se.encode.length ≤ MAX_SEARCH_ENTRY_SIZE ↔
      se.textLength + 2 * se.properties.size ≤ 20113 := by
    rw [length_encode]
    unfold MAX_SEARCH_ENTRY_SIZE
    omega
  unfold FitsWhenValid
  rw [hasValidSize_iff, ← hlen]
  apply imp_congr_right
  intro _
  constructor
  · intro h
    have hend := atEnd_empty fun _ => 0
    obtain ⟨buf', hw, -⟩ := se.writes_write _ hend
    have hle := h _ _ hend hw
    rw [size_of_write hend hw] at hle
    exact Nat.le_of_add_le_add_left hle
  · intro hle buf buf' hend hw
    rw [size_of_write hend hw]
    exact Nat.add_le_add_left hle _

/-- **Between the two lines lie the entries that pass the check and do not fit.** -/
theorem fitsWhenValid_iff (se : SearchEntry) :
    se.FitsWhenValid ↔ se.properties.size ≤ 138 ∨
      se.textLength + 2 * se.properties.size ≤ 20113 ∨
        19975 < se.textLength + se.properties.size := by
  rw [fitsWhenValid_iff_imp]
  omega

end Size

/-- Every key has a property of one character. -/
def allProperties : OrdMap propertyOrder Bytes where
  entries := (List.range 256).map fun i => (UInt8.ofNat i, [118])
  sorted := by
    rw [List.pairwise_map]
    apply List.pairwise_lt_range.imp_of_mem
    intro i j hi hj hlt
    have hi' := List.mem_range.mp hi
    have hj' := List.mem_range.mp hj
    show decide (((UInt8.ofNat i).toNat : ℤ) < (UInt8.ofNat j).toNat) = true
    rw [UInt8.toNat_ofNat', UInt8.toNat_ofNat', decide_eq_true_eq]
    omega

/-- It passes with 19913 bytes of 19975, and takes 20192 of 20136. -/
theorem not_fitsWhenValid_allProperties :
    letI := Hashing.blank
    ¬ (new (List.replicate 19400 97) [117] .SITE allProperties).FitsWhenValid := by
  let _ := Hashing.blank
  rw [fitsWhenValid_iff_imp]
  have hsize : allProperties.size = 256 := by
    rw [OrdMap.size, allProperties, List.length_map, List.length_range]
  have hvalues : (allProperties.entries.map fun p => p.2.length).sum = 256 := by
    rw [allProperties, List.map_map]
    show ((List.range 256).map fun _ => 1).sum = 256
    rw [List.map_const', List.sum_replicate, List.length_range]
    rfl
  have htext : (new (List.replicate 19400 97) [117] .SITE allProperties).textLength = 19657 := by
    show (List.replicate 19400 (97 : UInt8)).length + 1 +
      (allProperties.entries.map fun p => p.2.length).sum = 19657
    rw [List.length_replicate, hvalues]
  show ¬ (_ + allProperties.size ≤ 19975 → _ + 2 * allProperties.size ≤ 20113)
  rw [htext, hsize]
  decide

/-! ### The match -/

/-- In lower case the url has the most matches. -/
theorem countMatches_le_toLower {tokens : List Bytes} (hlow : ∀ tok ∈ tokens, toLower tok = tok)
    {url url' : Bytes} (h : toLower url' = toLower url) :
    countMatches tokens url' ≤ countMatches tokens (toLower url) := by
  rw [countMatches, countMatches, ← List.countP_eq_length_filter, ← List.countP_eq_length_filter]
  apply List.countP_mono_left
  intro tok htok hfind
  exact isSome_find_toLower (hlow tok htok) h hfind

/-- In upper case only the tokens without letters match. -/
theorem countMatches_toUpper {tokens : List Bytes} (hlow : ∀ tok ∈ tokens, toLower tok = tok)
    (url : Bytes) :
    countMatches tokens (toUpper url) = countMatches (tokens.filter letterless) url := by
  rw [countMatches, countMatches, List.filter_filter]
  congr 1
  apply List.filter_congr
  intro tok htok
  rw [Bool.eq_iff_iff, Bool.and_eq_true, and_comm]
  exact isSome_find_toUpper_iff (hlow tok htok)

theorem countMatches_filter_le (p : Bytes → Bool) (tokens : List Bytes) (s : Bytes) :
    countMatches (tokens.filter p) s ≤ countMatches tokens s :=
  (List.filter_sublist.filter _).length_le

/-- The matches in a url whatever its letter case. -/
theorem countMatches_bounds {tokens : List Bytes} (hlow : ∀ tok ∈ tokens, toLower tok = tok)
    {url url' : Bytes} (h : toLower url' = toLower url) :
    countMatches (tokens.filter letterless) url ≤ countMatches tokens url' ∧
      countMatches tokens url' ≤ countMatches tokens (toLower url) := by
  constructor
  · rw [← countMatches_toUpper hlow, ← toUpper_eq_of_toLower_eq h, countMatches_toUpper hlow]
    exact countMatches_filter_le _ _ _
  · exact countMatches_le_toLower hlow h

section Match

variable [Hashing]

/-- `se'` is `se` with some letters of its texts in the other case. -/
structure CaseVariant (se se' : SearchEntry) : Prop where
  title : StringUtil.CaseVariant se.title se'.title
  url : StringUtil.CaseVariant se.url se'.url
  properties : List.Forall₂ (fun p q => q.1 = p.1 ∧ StringUtil.CaseVariant p.2 q.2)
    se.properties.entries se'.properties.entries

/-- Letter case in the entry makes no difference to the query. -/
def CaseBlind (se : SearchEntry) (tokens : List Bytes) : Prop :=
  ∀ se', se.CaseVariant se' → se'.matchesQuery tokens = se.matchesQuery tokens

/-- The matches in the texts that are lower-cased. -/
def lowerMatches (se : SearchEntry) (tokens : List Bytes) : ℕ :=
  countMatches tokens (toLower se.title) +
    (se.properties.entries.map fun p => countMatches tokens (toLower p.2)).sum

/-- How many matches the query takes. -/
def neededMatches (se : SearchEntry) (tokens : List Bytes) : ℕ :=
  if 1 < tokens.length ∧ 1 < ((split se.title [32]).getD []).length then 2 else 1

theorem matchesQuery_eq (se : SearchEntry) (tokens : List Bytes) :
    se.matchesQuery tokens =
      decide (se.neededMatches tokens ≤ se.lowerMatches tokens + countMatches tokens se.url) := by
  unfold matchesQuery neededMatches lowerMatches
  rw [Nat.add_right_comm]
  split
  · rfl
  · rw [decide_eq_decide]
    omega

theorem CaseVariant.lowerMatches_eq {se se' : SearchEntry} (h : se.CaseVariant se')
    (tokens : List Bytes) : se'.lowerMatches tokens = se.lowerMatches tokens := by
  have htitle := caseVariant_iff.mp h.title
  have hprops : se'.properties.entries.map (fun p => countMatches tokens (toLower p.2)) =
      se.properties.entries.map fun p => countMatches tokens (toLower p.2) := by
    rw [← List.forall₂_eq_eq_eq, List.forall₂_map_left_iff, List.forall₂_map_right_iff]
    apply h.properties.flip.imp
    intro q p hpq
    rw [caseVariant_iff.mp hpq.2]
  rw [lowerMatches, lowerMatches, htitle, hprops]

theorem CaseVariant.neededMatches_eq {se se' : SearchEntry} (h : se.CaseVariant se')
    (tokens : List Bytes) : se'.neededMatches tokens = se.neededMatches tokens := by
  have htitle := caseVariant_iff.mp h.title
  rw [neededMatches, neededMatches, ← length_split_toLower, htitle, length_split_toLower]

/-- The entry with another url. -/
def withUrl (se : SearchEntry) (url : Bytes) : SearchEntry :=
  ofFields se.simHash se.title url se.type se.properties

theorem caseVariant_withUrl {se : SearchEntry} {url : Bytes} (h : toLower url = toLower se.url) :
    se.CaseVariant (se.withUrl url) where
  title := caseVariant_iff.mpr rfl
  url := caseVariant_iff.mpr h
  properties := List.forall₂_same.mpr fun _ _ => ⟨rfl, caseVariant_iff.mpr rfl⟩

theorem matchesQuery_withUrl (se : SearchEntry) (url : Bytes) (tokens : List Bytes) :
    (se.withUrl url).matchesQuery tokens =
      decide (se.neededMatches tokens ≤ se.lowerMatches tokens + countMatches tokens url) :=
  matchesQuery_eq _ _

/-- **Letter case makes no difference exactly if the query is decided without it**: by
the title, the properties and the tokens without letters, or against the entry, even
with the url in lower case. -/
theorem caseBlind_iff (se : SearchEntry) (str delimsset cutset : Bytes) :
    let tokens := tokenize str delimsset cutset
    se.CaseBlind tokens ↔
      se.neededMatches tokens ≤
          se.lowerMatches tokens + countMatches (tokens.filter letterless) se.url ∨
        se.lowerMatches tokens + countMatches tokens (toLower se.url) < se.neededMatches tokens := by
  intro tokens
  have hlow : ∀ tok ∈ tokens, toLower tok = tok := fun tok h => toLower_of_mem_tokenize h
  constructor
  · intro h
    -- the url in upper case and in lower case
    have hupper := h _ (caseVariant_withUrl (toLower_toUpper se.url))
    have hlower := h _ (caseVariant_withUrl (toLower_toLower se.url))
    rw [matchesQuery_withUrl, countMatches_toUpper hlow] at hupper
    rw [matchesQuery_withUrl, ← hupper, decide_eq_decide] at hlower
    by_contra hnot
    push Not at hnot
    exact absurd (hlower.mp hnot.2) (by omega)
  · intro h se' hvariant
    have hsame := countMatches_bounds hlow (Eq.refl (toLower se.url))
    have hother := countMatches_bounds hlow (caseVariant_iff.mp hvariant.url)
    rw [matchesQuery_eq, matchesQuery_eq, hvariant.lowerMatches_eq, hvariant.neededMatches_eq,
      decide_eq_decide]
    omega

end Match

/-- The query "a" finds the url "a", and not the url "A". -/
theorem not_caseBlind_upper_url :
    letI := Hashing.blank
    ¬ (new [120] [97] .SITE ∅).CaseBlind (tokenize [97] wordDelims wordCutset) := by
  let _ := Hashing.blank
  intro h
  have hsame : toLower [65] = toLower [97] := rfl
  have hupper := h _ (caseVariant_withUrl hsame)
  exact absurd hupper (by decide)

end SniffDogSniff.SearchEntry
