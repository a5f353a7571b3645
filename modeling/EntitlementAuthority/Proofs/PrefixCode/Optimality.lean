import EntitlementAuthority.Proofs.PrefixCode.Inverse
import Mathlib.Data.List.MinMax
import Mathlib.Tactic.LinearCombination

/-!
# Optimal codes

No prefix code of weighted symbols needs fewer bits than the one that joining the two lightest
gives. By Kraft's inequality it is enough to compare with lengths of which the Kraft sum is at most
one. Such lengths can be exchanged, without any more bits, until the two lightest things have the
two greatest lengths, and these can be made equal; then the two can be joined, with one bit less.

* `LengthPlan` — lengths for some things, of which the Kraft sum is at most one.
* `exists_longest_first`, `LengthPlan.exists_joined` — the exchange, and the plan with two joined.
* `Trie.joinAll_cost_le` — by induction on the joining, no plan does with fewer bits.
* `Trie.totalLength_ofLeaves?_le` — no prefix code does.
* `LinkedTrie.codes_optimal` — the codes that are collected attain the least number of bits.
-/

namespace EntitlementAuthority

/-! ### Lengths -/

theorem kraftSum_nonneg (lengths : List Nat) : 0 ≤ kraftSum lengths := by
  refine List.sum_nonneg fun x hx => ?_
  obtain ⟨n, -, rfl⟩ := List.mem_map.1 hx
  positivity

/-- The Kraft sum is a multiple of what the greatest length contributes. -/
theorem exists_kraftSum_eq {lengths : List Nat} {n : Nat} (h : ∀ m ∈ lengths, m ≤ n) :
    ∃ k : Nat, kraftSum lengths = k * (1 / 2) ^ n := by
  induction lengths with
  | nil => exact ⟨0, by rw [kraftSum_nil, Nat.cast_zero, zero_mul]⟩
  | cons m lengths ih =>
    obtain ⟨k, hk⟩ := ih fun m' hm' => h m' (List.mem_cons_of_mem m hm')
    obtain ⟨d, rfl⟩ := Nat.exists_eq_add_of_le (h m List.mem_cons_self)
    have hpow : (2 : ℚ) ^ d * (1 / 2) ^ d = 1 := by
      rw [← mul_pow, mul_one_div_cancel two_ne_zero, one_pow]
    refine ⟨2 ^ d + k, ?_⟩
    rw [kraftSum_cons, hk, pow_add]
    push_cast
    linear_combination (-(1 / 2 : ℚ) ^ m) * hpow

variable {lengths : List Nat} {b : Nat}

theorem mul_half_pow_lt_one_iff {k : Nat} : (k : ℚ) * (1 / 2) ^ b < 1 ↔ k < 2 ^ b := by
  rw [one_div, inv_pow, ← div_eq_mul_inv, div_lt_one (by positivity)]
  exact_mod_cast Iff.rfl

theorem mul_half_pow_le_one_iff {k : Nat} : (k : ℚ) * (1 / 2) ^ b ≤ 1 ↔ k ≤ 2 ^ b := by
  rw [one_div, inv_pow, ← div_eq_mul_inv, div_le_one (by positivity)]
  exact_mod_cast Iff.rfl

/-- A length can be made equal to the greatest of the others. -/
theorem kraftSum_shorten {a : Nat} (hle : ∀ m ∈ lengths, m ≤ b)
    (hfits : kraftSum (a :: b :: lengths) ≤ 1) : kraftSum (b :: b :: lengths) ≤ 1 := by
  obtain ⟨k, hk⟩ := exists_kraftSum_eq hle
  rw [kraftSum_cons, kraftSum_cons, hk] at hfits ⊢
  have hpos : (0 : ℚ) < (1 / 2) ^ a := by positivity
  -- all but the first are less than one, so that one more of the least ones still fits
  have hless : ((k + 1 : Nat) : ℚ) * (1 / 2) ^ b < 1 := by
    push_cast
    linarith
  have hmore : ((k + 2 : Nat) : ℚ) * (1 / 2) ^ b ≤ 1 :=
    mul_half_pow_le_one_iff.2 (mul_half_pow_lt_one_iff.1 hless)
  push_cast at hmore
  linarith

/-- Two equal lengths can be replaced by one that is shorter by one. -/
theorem kraftSum_join (hfits : kraftSum (b :: b :: lengths) ≤ 1) :
    ∃ c, b = c + 1 ∧ kraftSum (c :: lengths) ≤ 1 := by
  rw [kraftSum_cons, kraftSum_cons] at hfits
  cases b with
  | zero =>
    have hnonneg := kraftSum_nonneg lengths
    norm_num at hfits
    linarith
  | succ c =>
    refine ⟨c, rfl, ?_⟩
    rw [kraftSum_cons]
    rw [pow_succ] at hfits
    linarith

/-! ### Plans -/

section Plans

variable {α : Type} {f : α → Nat} {x y : α} {xs : List α} {plan : List (α × Nat)}

/-- What lengths for things cost: the weight of each thing, as often as its length says. -/
def planCost (f : α → Nat) (plan : List (α × Nat)) : Nat :=
  (plan.map fun e => f e.1 * e.2).sum

theorem planCost_cons (f : α → Nat) (e : α × Nat) (plan : List (α × Nat)) :
    planCost f (e :: plan) = f e.1 * e.2 + planCost f plan := by
  rw [planCost, List.map_cons, List.sum_cons]
  rfl

theorem planCost_perm {plan plan' : List (α × Nat)} (h : plan.Perm plan') :
    planCost f plan = planCost f plan' :=
  (h.map _).sum_eq

/-- Lengths for some things, of which the Kraft sum is at most one. -/
structure LengthPlan (xs : List α) (plan : List (α × Nat)) : Prop where
  things : (plan.map Prod.fst).Perm xs
  fits : kraftSum (plan.map Prod.snd) ≤ 1

theorem exists_perm_cons {e : α} {l : List α} (h : e ∈ l) : ∃ rest, l.Perm (e :: rest) := by
  obtain ⟨before, after, rfl⟩ := List.append_of_mem h
  exact ⟨before ++ after, List.perm_middle⟩

/-- The greatest length can be given to a thing of least weight. -/
theorem exists_longest_first (hplan : (plan.map Prod.fst).Perm (x :: xs))
    (hx : ∀ z ∈ xs, f x ≤ f z) :
    ∃ n rest, (rest.map Prod.fst).Perm xs ∧ (plan.map Prod.snd).Perm (n :: rest.map Prod.snd) ∧
      (∀ m ∈ rest.map Prod.snd, m ≤ n) ∧ f x * n + planCost f rest ≤ planCost f plan := by
  obtain ⟨⟨_, n⟩, hn, rfl⟩ := List.mem_map.1 (hplan.mem_iff.2 List.mem_cons_self)
  obtain ⟨others, hothers⟩ := exists_perm_cons hn
  have hthings : (others.map Prod.fst).Perm xs :=
    ((hothers.map Prod.fst).symm.trans hplan).cons_inv
  obtain ⟨longest, hlongest⟩ : ∃ longest, longest ∈ plan.argmax Prod.snd :=
    Option.ne_none_iff_exists'.1 (List.argmax_eq_none.not.2 (List.ne_nil_of_mem hn))
  have hmax : ∀ m ∈ plan.map Prod.snd, m ≤ longest.2 := by
    intro m hm
    obtain ⟨e, he, rfl⟩ := List.mem_map.1 hm
    exact List.le_of_mem_argmax he hlongest
  rcases List.mem_cons.1 (hothers.mem_iff.1 (List.argmax_mem hlongest)) with rfl | hmem
  · -- it has the greatest length already
    have hlengths := hothers.map Prod.snd
    refine ⟨n, others, hthings, hlengths, fun m hm => ?_, ?_⟩
    · exact hmax m (hlengths.mem_iff.2 (List.mem_cons_of_mem n hm))
    · rw [planCost_perm hothers, planCost_cons]
  · -- the two lengths change places
    obtain ⟨z, m⟩ := longest
    obtain ⟨rest, hrest⟩ := exists_perm_cons hmem
    have hall := hothers.trans (hrest.cons _)
    have hlengths := (hall.map Prod.snd).trans (.swap m n _)
    refine ⟨m, (z, n) :: rest, (hrest.map Prod.fst).symm.trans hthings, hlengths,
      fun k hk => ?_, ?_⟩
    · exact hmax k (hlengths.mem_iff.2 (List.mem_cons_of_mem m hk))
    · have hz := hx z (hthings.mem_iff.1 (List.mem_map_of_mem hmem))
      have hexchange := mul_add_mul_le_mul_add_mul hz (hmax n (List.mem_map_of_mem hn))
      rw [planCost_perm hall, planCost_cons, planCost_cons, planCost_cons]
      dsimp only at hexchange ⊢
      omega

/-- Two things of least weight can be joined, with one bit less for both. -/
theorem LengthPlan.exists_joined (hplan : LengthPlan (x :: y :: xs) plan)
    (hx : ∀ z ∈ y :: xs, f x ≤ f z) (hy : ∀ z ∈ xs, f y ≤ f z) :
    ∃ n rest, (rest.map Prod.fst).Perm xs ∧ kraftSum (n :: rest.map Prod.snd) ≤ 1 ∧
      (f x + f y) * (n + 1) + planCost f rest ≤ planCost f plan := by
  obtain ⟨a, others, hothers, hlengths, hmax, hcost⟩ := exists_longest_first hplan.things hx
  obtain ⟨b, rest, hrest, hlengths', hmax', hcost'⟩ := exists_longest_first hothers hy
  have hle : b ≤ a := hmax b (hlengths'.mem_iff.2 List.mem_cons_self)
  have hfits := hplan.fits
  rw [kraftSum_perm (hlengths.trans (hlengths'.cons a))] at hfits
  obtain ⟨c, rfl, hjoined⟩ := kraftSum_join (kraftSum_shorten hmax' hfits)
  refine ⟨c, rest, hrest, hjoined, ?_⟩
  have hless := Nat.mul_le_mul_left (f x) hle
  rw [Nat.add_mul]
  omega

end Plans

/-! ### Tries -/

namespace Trie

/-- Queuing a trie keeps the order. -/
theorem pairwise_enqueue {us : List WeightedTrie} (t : WeightedTrie)
    (h : us.Pairwise (NotHeavier WeightedTrie.weight)) :
    (enqueue t us).Pairwise (NotHeavier WeightedTrie.weight) := by
  have hus : byWeight us = us := h.insertionSort_eq
  rw [← hus, ← byWeight_concat]
  exact List.pairwise_insertionSort _ _

variable (weight : Nat → Nat)

/-- The weight of all symbols of a trie. -/
def mass (t : Trie) : Nat :=
  (t.symbols.map weight).sum

/-- What the codes of a trie cost: the weight of each symbol, as often as its code has bits. -/
def cost (t : Trie) : Nat :=
  (t.codes.map fun e => weight e.1 * e.2.length).sum

theorem mass_node (zero one : Trie) :
    (node zero one).mass weight = zero.mass weight + one.mass weight := by
  rw [mass, symbols, List.map_append, List.sum_append]
  rfl

/-- One bit more for all symbols costs the weight of all symbols. -/
theorem sum_map_cons (t : Trie) (bit : Bool) :
    ((t.codes.map fun e => (e.1, bit :: e.2)).map fun e => weight e.1 * e.2.length).sum =
      t.cost weight + t.mass weight := by
  rw [mass, cost, ← map_fst_codes, List.map_map, List.map_map, ← List.sum_map_add]
  rfl

theorem cost_node (zero one : Trie) :
    (node zero one).cost weight =
      zero.cost weight + zero.mass weight + (one.cost weight + one.mass weight) := by
  rw [← sum_map_cons weight zero false, ← sum_map_cons weight one true, cost, codes,
    List.map_append, List.sum_append]

variable {weight}

/-- **No plan for the tries that wait does with fewer bits** than joining them in order of
weight. -/
theorem joinAll_cost_le {us : List WeightedTrie} {t : Trie} (h : joinAll us = some t)
    (hsorted : us.Pairwise (NotHeavier WeightedTrie.weight))
    (hweight : ∀ u ∈ us, u.weight = u.trie.mass weight) {plan : List (WeightedTrie × Nat)}
    (hplan : LengthPlan us plan) :
    t.cost weight ≤
      (us.map fun u => u.trie.cost weight).sum + planCost WeightedTrie.weight plan := by
  fun_induction joinAll us generalizing plan with
  | case1 => cases h
  | case2 u =>
    cases h
    rw [List.map_singleton, List.sum_singleton]
    exact Nat.le_add_right _ _
  | case3 u v us ih =>
    obtain ⟨hu, hrest⟩ := List.pairwise_cons.1 hsorted
    obtain ⟨hv, hus⟩ := List.pairwise_cons.1 hrest
    obtain ⟨n, rest, hthings, hfits, hcost⟩ := hplan.exists_joined hu hv
    have hperm := enqueue_perm (u.join v) us
    have hmassu := hweight u List.mem_cons_self
    have hmassv := hweight v (List.mem_cons_of_mem u List.mem_cons_self)
    -- what one bit less for both saves is what the node above both costs more than they do
    have hjoined : LengthPlan (enqueue (u.join v) us) ((u.join v, n) :: rest) :=
      ⟨(hthings.cons _).trans hperm.symm, hfits⟩
    have hweight' : ∀ w ∈ enqueue (u.join v) us, w.weight = w.trie.mass weight := by
      intro w hw
      rcases List.mem_cons.1 (hperm.mem_iff.1 hw) with rfl | hw
      · rw [WeightedTrie.join, mass_node, ← hmassu, ← hmassv]
      · exact hweight w (List.mem_cons_of_mem u (List.mem_cons_of_mem v hw))
    have hle : t.cost weight ≤ ((enqueue (u.join v) us).map fun w => w.trie.cost weight).sum +
        planCost WeightedTrie.weight ((u.join v, n) :: rest) :=
      ih h (pairwise_enqueue _ hus) hweight' hjoined
    rw [(hperm.map _).sum_eq, List.map_cons, List.sum_cons, planCost_cons, WeightedTrie.join,
      cost_node] at hle
    rw [List.map_cons, List.map_cons, List.sum_cons, List.sum_cons]
    rw [Nat.mul_succ] at hcost
    dsimp only at hle
    omega

/-- What a code of weighted symbols costs. -/
def totalLength (leaves : List (Nat × Nat)) (code : Nat → List Bool) : Nat :=
  (leaves.map fun leaf => leaf.2 * (code leaf.1).length).sum

variable {leaves : List (Nat × Nat)} {t : Trie}

/-- The weights of symbols that differ are the values of a function. -/
theorem exists_weight (hdistinct : (leaves.map Prod.fst).Nodup) :
    ∃ weight : Nat → Nat, ∀ leaf ∈ leaves, weight leaf.1 = leaf.2 := by
  refine ⟨fun symbol => ((Table.mk leaves hdistinct).get? symbol).getD 0, fun leaf hleaf => ?_⟩
  have hget : (Table.mk leaves hdistinct).get? leaf.1 = some leaf.2 :=
    Table.get?_eq_some_iff.2 hleaf
  show ((Table.mk leaves hdistinct).get? leaf.1).getD 0 = leaf.2
  rw [hget, Option.getD_some]

/-- The cost of the codes of a trie is that of the code of the weighted symbols. -/
theorem cost_eq_totalLength (hperm : t.symbols.Perm (leaves.map Prod.fst))
    (hdistinct : (leaves.map Prod.fst).Nodup) (hweight : ∀ leaf ∈ leaves, weight leaf.1 = leaf.2) :
    t.cost weight = totalLength leaves t.code := by
  have hcost : t.cost weight = (t.symbols.map fun s => weight s * (t.code s).length).sum := by
    rw [cost, ← map_fst_codes, List.map_map]
    refine congrArg List.sum (List.map_congr_left fun e he => ?_)
    rw [Function.comp_apply, code_eq_of_mem_codes (hperm.nodup_iff.2 hdistinct) he]
  rw [hcost, (hperm.map _).sum_eq, totalLength, List.map_map]
  refine congrArg List.sum (List.map_congr_left fun leaf hleaf => ?_)
  rw [Function.comp_apply, hweight leaf hleaf]

/-- **No prefix code does with fewer bits** than the trie for weighted symbols. -/
theorem totalLength_ofLeaves?_le (h : ofLeaves? leaves = some t)
    (hdistinct : (leaves.map Prod.fst).Nodup) {code : Nat → List Bool}
    (hcode : PrefixFree (leaves.map Prod.fst) code) :
    totalLength leaves t.code ≤ totalLength leaves code := by
  obtain ⟨weight, hweight⟩ := exists_weight hdistinct
  have hqueue : (queue leaves).Perm (leaves.map fun x => ⟨x.2, leaf x.1⟩) :=
    List.mergeSort_perm _ _
  have hplan : LengthPlan (queue leaves)
      (leaves.map fun x => (⟨x.2, leaf x.1⟩, (code x.1).length)) := by
    refine ⟨?_, ?_⟩
    · rw [List.map_map]
      exact hqueue.symm
    · have hkraft := hcode.kraftSum_le_one hdistinct
      rwa [List.map_map] at hkraft ⊢
  have hsorted : (queue leaves).Pairwise (NotHeavier WeightedTrie.weight) := by
    rw [queue_eq_byWeight]
    exact List.pairwise_insertionSort _ _
  have hmass : ∀ u ∈ queue leaves, u.weight = u.trie.mass weight := by
    intro u hu
    obtain ⟨x, hx, rfl⟩ := mem_queue.1 hu
    exact (hweight x hx).symm
  -- a leaf has no bits
  have hleaves : ((queue leaves).map fun u => u.trie.cost weight).sum = 0 := by
    refine List.sum_eq_zero fun n hn => ?_
    obtain ⟨u, hu, rfl⟩ := List.mem_map.1 hn
    obtain ⟨x, -, rfl⟩ := mem_queue.1 hu
    rfl
  have hle := joinAll_cost_le h hsorted hmass hplan
  rw [cost_eq_totalLength (symbols_ofLeaves?_perm h) hdistinct hweight, hleaves, Nat.zero_add,
    planCost, List.map_map] at hle
  exact hle

end Trie

/-- **The codes are optimal.** For symbols that differ and weights of which the sum is a machine
word, the codes that are collected are a prefix code, and no other prefix code of the symbols has a
lower total of weight times length. -/
theorem LinkedTrie.codes_optimal {leaves : List (Nat × UInt64)} (hne : leaves ≠ [])
    (hdistinct : (leaves.map Prod.fst).Nodup)
    (hsum : (leaves.map fun leaf => leaf.2.toNat).sum < 2 ^ 64) :
    ∃ (t : LinkedTrie) (table : Table Nat (List Bool)) (code : Nat → List Bool),
      LinkedTrie.build leaves = .ok t ∧ t.codes = .ok table ∧
      (∀ symbol, table.get? symbol =
        if symbol ∈ leaves.map Prod.fst then some (code symbol) else none) ∧
      IsLeast
        (Trie.totalLength (leafWeights leaves) '' {code | PrefixFree (leaves.map Prod.fst) code})
        (Trie.totalLength (leafWeights leaves) code) := by
  obtain ⟨t, table, u, h⟩ := exists_built hne hdistinct hsum
  refine ⟨t, table, u.code, h.build, h.codes, h.get?_eq, ⟨_, h.prefixFree, rfl⟩, ?_⟩
  rintro _ ⟨code, hcode, rfl⟩
  rw [← map_fst_leafWeights] at hdistinct hcode
  exact Trie.totalLength_ofLeaves?_le h.trie hdistinct hcode

/-- Three symbols, of which one weighs as much as the two others together. -/
theorem LinkedTrie.codes_optimal_three :
    let leaves : List (Nat × UInt64) := [(7, 1), (3, 1), (5, 2)]
    leaves ≠ [] ∧ (leaves.map Prod.fst).Nodup ∧
      (leaves.map fun leaf => leaf.2.toNat).sum < 2 ^ 64 ∧
      ∃ (t : LinkedTrie) (table : Table Nat (List Bool)) (code : Nat → List Bool),
        LinkedTrie.build leaves = .ok t ∧ t.codes = .ok table ∧
        table.get? 5 = some (code 5) ∧ Trie.totalLength (leafWeights leaves) code ≤ 6 := by
  let other (s : Nat) : List Bool :=
    if s = 5 then [true] else if s = 7 then [false, false] else [false, true]
  have hother : PrefixFree [7, 3, 5] other := by
    unfold PrefixFree
    decide
  obtain ⟨t, table, code, hbuild, hcodes, hget, -, hleast⟩ :=
    @codes_optimal [(7, 1), (3, 1), (5, 2)] (by decide) (by decide) (by decide)
  exact ⟨by decide, by decide, by decide, t, table, code, hbuild, hcodes, hget 5,
    hleast ⟨other, hother, rfl⟩⟩

end EntitlementAuthority
