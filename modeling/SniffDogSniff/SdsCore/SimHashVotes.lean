import SniffDogSniff.SdsCore.SimHash

/-!
# The votes of a similarity hash

Every occurrence of a token votes on every bit of the id, with the bit of the token's own
hash.  What the majority of the votes is can be said without a counter; the program counts
them in signed bytes, which wrap around.

## Main definitions

* `hashBit` — a bit of the hash of a token.
* `surplus` — by how many the votes for a bit outnumber those against it.
* `FitsSign` — what is left of a number in a signed byte has its sign.

## Main results

* `simWeight_tokenMults` — a weight is the surplus, as far as a signed byte holds it.
* `bit_init` — a bit of the id is the sign of its weight.
* `init_majority_iff` — **every bit of the id is the vote of the majority exactly where
  every surplus keeps its sign in a signed byte.**
* `not_init_majority` — it is not always.
* `fitsSign_of_length` — up to 127 tokens they all do.
-/

namespace SniffDogSniff

namespace SimHash

variable [Hashing]

/-! ### Votes without a counter -/

/-- Bit `j` of byte `i` of the hash of a token. -/
def hashBit (i : Fin FNV128_SIZE) (j : ℕ) (tok : Bytes) : Bool :=
  Hashing.fnv128String tok i &&& (0x80 >>> UInt8.ofNat j) ≠ 0

/-- The votes for a bit, less the votes against it. -/
def surplus (tokens : List Bytes) (i : Fin FNV128_SIZE) (j : ℕ) : ℤ :=
  tokens.countP (hashBit i j) - tokens.countP fun tok => !hashBit i j tok

omit [Hashing] in
/-- Bit `j` of byte `i` of the id. -/
def bit (h : SimHash) (i : Fin FNV128_SIZE) (j : ℕ) : Bool :=
  h.id.id.getD i 0 &&& (0x80 >>> UInt8.ofNat j) ≠ 0

/-- The vote of one occurrence of a token. -/
def sign (i : Fin FNV128_SIZE) (j : ℕ) (tok : Bytes) : ℤ := if hashBit i j tok then 1 else -1

theorem sum_sign (tokens : List Bytes) (i : Fin FNV128_SIZE) (j : ℕ) :
    (tokens.map (sign i j)).sum = surplus tokens i j := by
  induction tokens with
  | nil => rfl
  | cons tok tokens ih =>
    unfold surplus at ih ⊢
    rw [List.map_cons, List.sum_cons, ih, List.countP_cons, List.countP_cons, sign]
    cases hashBit i j tok <;> push_cast <;> simp <;> ring

/-! ### The votes of the tokens that were counted -/

theorem hash_of_mem_tokenMults {tokens : List Bytes} {e : Bytes × Wordhash}
    (he : e ∈ (tokenMults tokens).entries) : e.2.hash = Hashing.fnv128String e.1 := by
  induction tokens using List.reverseRecOn generalizing e with
  | nil => cases he
  | append_singleton tokens tok ih =>
    rw [tokenMults, List.foldl_append, List.foldl_cons, List.foldl_nil, ← tokenMults] at he
    rcases OrdMap.mem_alter_iff.mp he with ⟨hold, -⟩ | ⟨e', he', -, rfl⟩ | ⟨-, rfl⟩
    · exact ih hold
    · have hhash := ih he'
      exact hhash
    · rfl

theorem vote_eq {e : Bytes × Wordhash} (he : e.2.hash = Hashing.fnv128String e.1)
    (i : Fin FNV128_SIZE) (j : ℕ) : vote e.2 i j = sign i j e.1 * e.2.weight := by
  unfold vote sign hashBit
  rw [he]
  by_cases h : Hashing.fnv128String e.1 i &&& (0x80 >>> UInt8.ofNat j) = 0 <;> simp [h]

/-- **Counting a token makes the sum of the votes larger by its sign.** -/
theorem sum_vote_tokenMults (tokens : List Bytes) (i : Fin FNV128_SIZE) (j : ℕ) :
    ((tokenMults tokens).entries.map fun e => vote e.2 i j).sum = surplus tokens i j := by
  rw [← sum_sign]
  induction tokens using List.reverseRecOn with
  | nil => rfl
  | append_singleton tokens tok ih =>
    rw [List.map_append, List.sum_append, List.map_singleton, List.sum_singleton, ← ih,
      tokenMults, List.foldl_append, List.foldl_cons, List.foldl_nil, ← tokenMults]
    refine OrdMap.sum_alterList (fun e => vote e.2 i j) (sign i j tok) (fun e he heq => ?_) ?_
    · obtain rfl := eq_of_stringOrder_equiv tok e.1 heq
      have hhash := hash_of_mem_tokenMults he
      have hhash' : ({ e.2 with weight := e.2.weight + 1 } : Wordhash).hash
          = Hashing.fnv128String e.1 := hhash
      rw [vote_eq (e := (e.1, _)) hhash', vote_eq hhash]
      push_cast
      ring
    · rw [vote_eq (e := (tok, _)) rfl]
      simp

/-! ### The counters -/

omit [Hashing] in
/-- A weight is the sum of the votes, as far as a signed byte holds it. -/
theorem simWeight_eq_ofInt_sum (mults : List Wordhash) (i : Fin FNV128_SIZE) (j : ℕ) :
    simWeight mults i j = Int8.ofInt (mults.map fun wh => vote wh i j).sum := by
  induction mults using List.reverseRecOn with
  | nil => rfl
  | append_singleton mults wh ih =>
    unfold simWeight at ih ⊢
    rw [List.foldl_append, List.foldl_cons, List.foldl_nil, ih, List.map_append, List.sum_append,
      List.map_singleton, List.sum_singleton, Int8.ofInt_add, Int8.ofInt_add, Int8.ofInt_toInt]

theorem simWeight_tokenMults (tokens : List Bytes) (i : Fin FNV128_SIZE) (j : ℕ) :
    simWeight ((tokenMults tokens).entries.map Prod.snd) i j = Int8.ofInt (surplus tokens i j) := by
  rw [simWeight_eq_ofInt_sum, List.map_map, ← sum_vote_tokenMults]
  rfl

/-! ### The id -/

omit [Hashing] in
theorem or_and_eq_zero_iff (a b c : UInt8) : (a ||| b) &&& c = 0 ↔ a &&& c = 0 ∧ b &&& c = 0 := by
  have hdistrib : (a ||| b) &&& c = (a &&& c) ||| (b &&& c) := by
    apply UInt8.eq_of_toBitVec_eq
    apply BitVec.eq_of_getLsbD_eq
    intro i _
    simp [Bool.and_or_distrib_right]
  rw [hdistrib, UInt8.or_eq_zero_iff]

omit [Hashing] in
theorem foldl_or_and (p : ℕ → Bool) (l : List ℕ) (b c : UInt8) :
    l.foldl (fun b j => if p j then b ||| (0x80 >>> UInt8.ofNat j) else b) b &&& c = 0 ↔
      b &&& c = 0 ∧ ∀ j ∈ l, p j → (0x80 >>> UInt8.ofNat j) &&& c = 0 := by
  induction l generalizing b with
  | nil => simp
  | cons j l ih =>
    rw [List.foldl_cons, ih, List.forall_mem_cons]
    split
    · next h =>
      rw [or_and_eq_zero_iff]
      simp [h, and_assoc]
    · next h => simp [h]

omit [Hashing] in
/-- The masks of the bits of a byte have no bit in common. -/
theorem mask_and_mask : ∀ j k : Fin 8,
    (0x80 >>> UInt8.ofNat j &&& (0x80 >>> UInt8.ofNat k) : UInt8) = 0 ↔ j ≠ k := by
  decide

omit [Hashing] in
theorem simByte_and (mults : List Wordhash) (i : Fin FNV128_SIZE) (k : Fin 8) :
    simByte mults i &&& (0x80 >>> UInt8.ofNat k) ≠ 0 ↔ 0 < (simWeight mults i k).toInt := by
  have hfold := foldl_or_and (fun j => decide (0 < (simWeight mults i j).toInt)) (List.range 8) 0
    (0x80 >>> UInt8.ofNat k)
  simp only [decide_eq_true_eq] at hfold
  rw [simByte, ne_eq, hfold, UInt8.zero_and]
  constructor
  · intro h
    by_contra hle
    refine h ⟨rfl, fun j hj hpos => ?_⟩
    refine (mask_and_mask ⟨j, List.mem_range.mp hj⟩ k).mpr fun hjk => hle ?_
    exact hjk ▸ hpos
  · rintro hpos ⟨-, h⟩
    exact (mask_and_mask k k).mp (h k (List.mem_range.mpr k.isLt) hpos) rfl

/-- **A bit of the id is the sign of its weight.** -/
theorem bit_init (tokens : List Bytes) (i : Fin FNV128_SIZE) (k : Fin 8) :
    (init tokens).bit i k = true ↔ 0 < (Int8.ofInt (surplus tokens i k)).toInt := by
  have hget : (init tokens).id.id.getD i 0
      = simByte ((tokenMults tokens).entries.map Prod.snd) i := by
    unfold init
    simp
  rw [bit, decide_eq_true_eq, hget, simByte_and, simWeight_tokenMults]

/-! ### Which counts keep their sign -/

/-- What is left of a number in a signed byte is positive exactly if the number is: its
last eight bits are a number of at most 127 or not. -/
def FitsSign (n : ℤ) : Prop :=
  if 0 < n then 1 ≤ n % 256 ∧ n % 256 ≤ 127 else n % 256 = 0 ∨ 128 ≤ n % 256

instance (n : ℤ) : Decidable (FitsSign n) := by unfold FitsSign; infer_instance

omit [Hashing] in
theorem toInt_ofInt_pos_iff (n : ℤ) :
    0 < (Int8.ofInt n).toInt ↔ 1 ≤ n % 256 ∧ n % 256 ≤ 127 := by
  rw [Int8.toInt_ofInt, Int.bmod]
  have hsize : ((Int8.size : ℕ) : ℤ) = 256 := rfl
  rw [hsize]
  split <;> omega

omit [Hashing] in
theorem fitsSign_iff (n : ℤ) : FitsSign n ↔ (0 < (Int8.ofInt n).toInt ↔ 0 < n) := by
  rw [toInt_ofInt_pos_iff, FitsSign]
  split <;> omega

/-- **Every bit of the id is the vote of the majority** exactly where no surplus loses its
sign in a signed byte. -/
theorem init_majority_iff (tokens : List Bytes) :
    (∀ (i : Fin FNV128_SIZE) (k : Fin 8), (init tokens).bit i k = true ↔
        (tokens.countP fun tok => !hashBit i k tok) < tokens.countP (hashBit i k)) ↔
      ∀ (i : Fin FNV128_SIZE) (k : Fin 8), FitsSign (surplus tokens i k) := by
  refine forall_congr' fun i => forall_congr' fun k => ?_
  have hsurplus : 0 < surplus tokens i k ↔
      (tokens.countP fun tok => !hashBit i k tok) < tokens.countP (hashBit i k) := by
    unfold surplus
    omega
  rw [bit_init, fitsSign_iff, hsurplus]

omit [Hashing] in
/-- A hash without a clear bit. -/
@[reducible] def ones : Hashing := { Hashing.blank with fnv128String := fun _ _ => 0xff }

omit [Hashing] in
/-- One token, 128 times: with `ones`, all votes are for every bit. -/
theorem not_init_majority : ¬ ∀ [Hashing] (tokens : List Bytes) (i : Fin FNV128_SIZE) (k : Fin 8),
    (init tokens).bit i k = true ↔
      (tokens.countP fun tok => !hashBit i k tok) < tokens.countP (hashBit i k) := by
  intro h
  have hiff := @h ones (List.replicate 128 [0x61]) ⟨0, by decide⟩ (0 : Fin 8)
  have hbit : @hashBit ones ⟨0, by decide⟩ 0 [0x61] = true := rfl
  rw [@bit_init ones] at hiff
  unfold surplus at hiff
  simp only [List.countP_replicate, Fin.val_zero, hbit] at hiff
  revert hiff
  decide

theorem fitsSign_of_length {tokens : List Bytes} (h : tokens.length ≤ 127) (i : Fin FNV128_SIZE)
    (k : Fin 8) : FitsSign (surplus tokens i k) := by
  have hset := List.countP_le_length (p := hashBit i k) (l := tokens)
  have hclear := List.countP_le_length (p := fun tok => !hashBit i k tok) (l := tokens)
  unfold FitsSign surplus
  split <;> omega

end SimHash

end SniffDogSniff
