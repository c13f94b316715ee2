import SniffDogSniff.Webserver.HttpServer

/-!
# What `httpUnescape` does to encoded strings

An escape is a percent sign, or a dollar sign, and the two characters behind it,
which are taken without looking whether they are there.  The digits of an escape
are read as everywhere in the program, so small letters are not understood.

## Main definitions

* `FormEncodes` — the `application/x-www-form-urlencoded` encodings of a string.
* `cutOff`, `smallEscape` — a string that ends in the sign of an escape, and one with a
  small letter in an escape.
* `Unescapes` — every encoding is taken back, and nothing is read behind the string.

## Main results

* `httpUnescape_ne_none_iff`, `httpUnescape_eq_some_iff` — the two halves.
* `unescapes_iff` — **which strings are treated as they should be.**
-/

namespace SniffDogSniff

/-! ### Encodings -/

/-- The characters that stand for themselves: letters, digits and `-`, `.`, `_`, `*`. -/
def unreserved (c : UInt8) : Bool :=
  decide (97 ≤ c ∧ c ≤ 122 ∨ 65 ≤ c ∧ c ≤ 90 ∨ 48 ≤ c ∧ c ≤ 57 ∨ c = 45 ∨ c = 46 ∨ c = 95 ∨ c = 42)

/-- `FormEncodes v e`: the string `e` is an encoding of `v`. -/
inductive FormEncodes : Bytes → Bytes → Prop
  | nil : FormEncodes [] []
  | literal {c : UInt8} {v e : Bytes} (hc : unreserved c = true) (h : FormEncodes v e) :
      FormEncodes (c :: v) (c :: e)
  | space {v e : Bytes} (h : FormEncodes v e) : FormEncodes (32 :: v) (43 :: e)
  | escape {hi lo : UInt8} {m n : ℕ} {v e : Bytes} (hhi : hexValue hi = some m)
      (hlo : hexValue lo = some n) (h : FormEncodes v e) :
      FormEncodes (UInt8.ofNat (16 * m + n) :: v) (37 :: hi :: lo :: e)

/-- The last character is the sign of an escape. -/
def cutOff : Bytes → Bool
  | [] => false
  | c :: ss =>
      if c = 37 ∨ c = 36 then
        match ss with
        | _ :: _ :: ss => cutOff ss
        | [_] => false
        | [] => true
      else cutOff ss

/-- An escape has a small letter among its digits. -/
def smallEscape : Bytes → Bool
  | [] => false
  | c :: ss =>
      if c = 37 ∨ c = 36 then
        match ss with
        | hi :: lo :: ss => smallDigit hi || smallDigit lo || smallEscape ss
        | _ => false
      else smallEscape ss

/-- The string is decoded where it is an encoding, and nothing is read behind its
terminator. -/
structure Unescapes (s : Bytes) : Prop where
  inverts : ∀ v, FormEncodes v s → httpUnescape s = some v
  inBounds : httpUnescape s ≠ none

/-! ### The characters -/

theorem httpUnescape_space (ss : Bytes) :
    httpUnescape (43 :: ss) = (httpUnescape ss).map (32 :: ·) := rfl

theorem httpUnescape_escape {c : UInt8} (hc : c = 37 ∨ c = 36) (hi lo : UInt8) (ss : Bytes) :
    httpUnescape (c :: hi :: lo :: ss) = (httpUnescape ss).map (hexByte hi lo :: ·) := by
  rcases hc with rfl | rfl
  · rfl
  · rfl

theorem httpUnescape_literal {c : UInt8} (hspace : c ≠ 43) (hc : ¬ (c = 37 ∨ c = 36))
    (ss : Bytes) : httpUnescape (c :: ss) = (httpUnescape ss).map (c :: ·) := by
  rw [httpUnescape.eq_def]
  split
  · next heq => cases heq
  · next heq => exact absurd (List.cons.inj heq).1 hspace
  · next heq =>
    cases heq
    exact if_neg hc

theorem cutOff_literal {c : UInt8} (hc : ¬ (c = 37 ∨ c = 36)) (ss : Bytes) :
    cutOff (c :: ss) = cutOff ss := by
  rw [cutOff.eq_def]
  exact if_neg hc

theorem smallEscape_literal {c : UInt8} (hc : ¬ (c = 37 ∨ c = 36)) (ss : Bytes) :
    smallEscape (c :: ss) = smallEscape ss := by
  rw [smallEscape.eq_def]
  exact if_neg hc

/-- **Something is read behind the terminator exactly where the last character is the
sign of an escape.** -/
theorem httpUnescape_ne_none_iff (s : Bytes) : httpUnescape s ≠ none ↔ cutOff s = false := by
  induction s using cutOff.induct with
  | case1 => exact iff_of_true (by simp [httpUnescape]) rfl
  | case2 c hc hi lo ss ih =>
    rw [httpUnescape_escape hc, cutOff, if_pos hc, ne_eq, Option.map_eq_none_iff]
    exact ih
  | case3 c hc hi =>
    rw [cutOff, if_pos hc]
    rcases hc with rfl | rfl
    · exact iff_of_true (by simp [httpUnescape]) rfl
    · exact iff_of_true (by simp [httpUnescape]) rfl
  | case4 c hc =>
    rw [cutOff, if_pos hc]
    rcases hc with rfl | rfl
    · exact iff_of_false (by simp [httpUnescape]) (by simp)
    · exact iff_of_false (by simp [httpUnescape]) (by simp)
  | case5 c ss hc ih =>
    rw [cutOff_literal hc, ← ih]
    by_cases hspace : c = 43
    · rw [hspace, httpUnescape_space, ne_eq, Option.map_eq_none_iff]
    · rw [httpUnescape_literal hspace hc, ne_eq, Option.map_eq_none_iff]

/-! ### Encoded strings -/

theorem unreserved_iff {c : UInt8} (h : unreserved c = true) : c ≠ 43 ∧ ¬ (c = 37 ∨ c = 36) := by
  unfold unreserved at h
  rw [decide_eq_true_eq] at h
  refine ⟨?_, ?_⟩
  · rintro rfl
    exact absurd h (by decide)
  · rintro (rfl | rfl)
    · exact absurd h (by decide)
    · exact absurd h (by decide)

theorem map_cons_eq_some_iff {o : Option Bytes} {b c : UInt8} {v : Bytes} :
    o.map (b :: ·) = some (c :: v) ↔ b = c ∧ o = some v := by
  cases o <;> simp

/-- **An encoding is decoded exactly where its escapes have no small letters.** -/
theorem httpUnescape_eq_some_iff {v e : Bytes} (h : FormEncodes v e) :
    httpUnescape e = some v ↔ smallEscape e = false := by
  induction h with
  | nil => exact iff_of_true rfl rfl
  | literal hc h ih =>
    obtain ⟨hspace, hsign⟩ := unreserved_iff hc
    rw [httpUnescape_literal hspace hsign, smallEscape_literal hsign, map_cons_eq_some_iff, ih]
    exact and_iff_right rfl
  | space h ih =>
    have hsign : ¬ ((43 : UInt8) = 37 ∨ (43 : UInt8) = 36) := by decide
    rw [httpUnescape_space, smallEscape_literal hsign, map_cons_eq_some_iff, ih]
    exact and_iff_right rfl
  | escape hhi hlo h ih =>
    rw [httpUnescape_escape (Or.inl rfl), smallEscape, if_pos (Or.inl rfl), map_cons_eq_some_iff,
      ih, hexByte_eq_iff hhi hlo, Bool.or_eq_false_iff, Bool.or_eq_false_iff]

/-- **A string is treated as it should be exactly where it does not end in the sign of
an escape and, if it is an encoding, has no small letters in its escapes.** -/
theorem unescapes_iff (s : Bytes) :
    Unescapes s ↔ cutOff s = false ∧ ((∃ v, FormEncodes v s) → smallEscape s = false) := by
  constructor
  · intro h
    refine ⟨(httpUnescape_ne_none_iff s).mp h.inBounds, ?_⟩
    rintro ⟨v, hv⟩
    exact (httpUnescape_eq_some_iff hv).mp (h.inverts v hv)
  · rintro ⟨hend, hsmall⟩
    refine ⟨fun v hv => ?_, (httpUnescape_ne_none_iff s).mpr hend⟩
    exact (httpUnescape_eq_some_iff hv).mpr (hsmall ⟨v, hv⟩)

/-- "%2f" is an encoding of a slash. -/
theorem formEncodes_slash : FormEncodes [47] [37, 50, 102] :=
  FormEncodes.escape (m := 2) (n := 15) rfl rfl FormEncodes.nil

/-- "%2f" is not decoded, and "%" makes the loop read behind the string. -/
theorem not_unescapes_slash : ¬ Unescapes [37, 50, 102] ∧ ¬ Unescapes [37] := by
  constructor
  · intro h
    exact absurd (h.inverts _ formEncodes_slash) (by decide)
  · intro h
    exact h.inBounds rfl

end SniffDogSniff
