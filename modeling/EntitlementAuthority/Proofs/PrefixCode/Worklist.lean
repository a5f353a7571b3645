import EntitlementAuthority.Proofs.PrefixCode.LinkedTrie
import Mathlib.Algebra.BigOperators.Group.List.Basic
import Mathlib.Data.List.Forall2
import Mathlib.Data.List.Sort

/-!
# The same trie with and without an order

`Trie.ofLeaves?` keeps the tries that wait in order of their weights. A linked trie is built without
an order: the tries wait in the order in which they came, and in each round the two lightest are
looked for. Both ways give the same trie, since the order keeps tries of equal weight as they are,
and the search takes the first of the least weights.

* `mergeSort_eq_insertionSort` — the order by weight is the one of an insertion sort.
* `insertionSort_eq_cons`, `insertionSort_eq_cons_cons` — what is found stands first in order.
* `Worklist.joinLightest_result`, `Worklist.run_result` — what a round does, and what all do.
* `LinkedTrie.build_result` — the linked trie stands for the one that `Trie.ofLeaves?` gives.
-/

namespace EntitlementAuthority

/-! ### Order by weight -/

section Sorting

variable {α : Type} {f : α → Nat} {x y : α} {l : List α}

/-- One thing weighs no more than another. -/
def NotHeavier (f : α → Nat) (x y : α) : Prop :=
  f x ≤ f y

instance (f : α → Nat) : DecidableRel (NotHeavier f) :=
  fun x y => Nat.decLe (f x) (f y)

instance (f : α → Nat) : Std.Total (NotHeavier f) :=
  ⟨fun x y => Nat.le_total (f x) (f y)⟩

instance (f : α → Nat) : IsTrans α (NotHeavier f) :=
  ⟨fun _ _ _ => Nat.le_trans⟩

theorem not_notHeavier (h : f x < f y) : ¬ NotHeavier f y x :=
  Nat.not_le_of_lt h

theorem orderedInsert_append {before after : List α} (hbefore : ∀ y ∈ before, f y < f x)
    (hafter : ∀ y ∈ after, f x ≤ f y) :
    (before ++ after).orderedInsert (NotHeavier f) x = before ++ x :: after := by
  induction before with
  | nil =>
    cases after with
    | nil => rfl
    | cons y after => exact List.orderedInsert_cons_of_le _ _ (hafter y List.mem_cons_self)
  | cons y before ih =>
    have hbelow := ih fun z hz => hbefore z (List.mem_cons_of_mem y hz)
    rw [List.cons_append, List.orderedInsert_of_not_le, hbelow]
    · rfl
    · exact not_notHeavier (hbefore y List.mem_cons_self)

/-- A merge sort by weight puts things in the order of an insertion sort, also those of equal
weight. -/
theorem mergeSort_eq_insertionSort (f : α → Nat) (l : List α) :
    l.mergeSort (fun x y => f x ≤ f y) = l.insertionSort (NotHeavier f) := by
  have htrans : ∀ x y z : α, decide (f x ≤ f y) = true → decide (f y ≤ f z) = true →
      decide (f x ≤ f z) = true := by
    simp only [decide_eq_true_eq]
    exact fun x y z => Nat.le_trans
  have htotal : ∀ x y : α, (decide (f x ≤ f y) || decide (f y ≤ f x)) = true := by
    simp only [Bool.or_eq_true, decide_eq_true_eq]
    exact fun x y => Nat.le_total _ _
  induction l with
  | nil => rw [List.mergeSort_nil, List.insertionSort_nil]
  | cons x l ih =>
    obtain ⟨before, after, hcons, hl, hbefore⟩ := List.mergeSort_cons htrans htotal x l
    have hsorted := List.pairwise_mergeSort htrans htotal (x :: l)
    rw [hcons, List.pairwise_append] at hsorted
    rw [List.insertionSort_cons, ← ih, hl, hcons, orderedInsert_append]
    · intro y hy
      simpa using hbefore y hy
    · intro y hy
      exact of_decide_eq_true (List.rel_of_pairwise_cons hsorted.2.1 hy)

variable {weight : Nat → Nat} {s t : Nat}

/-- The first of the least stands first in order, and the others stand behind it in theirs. -/
theorem insertionSort_eq_cons (hweight : ∀ n x, l[n]? = some x → weight n = f x)
    (hs : IsFirstLeast weight none l.length s) (hx : l[s]? = some x) :
    l.insertionSort (NotHeavier f) = x :: (l.eraseIdx s).insertionSort (NotHeavier f) := by
  induction l generalizing s weight with
  | nil => cases hx
  | cons y l ih =>
    cases s with
    | zero =>
      cases hx
      refine List.insertionSort_cons_of_forall_rel _ fun z hz => ?_
      obtain ⟨n, hn⟩ := List.mem_iff_getElem?.1 hz
      have hlt := (List.getElem?_eq_some_iff.1 hn).1
      have hle := hs.least (n + 1) (Nat.succ_lt_succ hlt) nofun
      rwa [hweight 0 _ rfl, hweight (n + 1) z hn] at hle
    | succ s =>
      have hrest : IsFirstLeast (fun n => weight (n + 1)) none l.length s :=
        ⟨Nat.lt_of_succ_lt_succ hs.lt, nofun, fun n hn _ => hs.least _ (Nat.succ_lt_succ hn) nofun,
          fun n hn _ => hs.first _ (Nat.succ_lt_succ hn) nofun⟩
      have hless := hs.first 0 (Nat.succ_pos s) nofun
      rw [hweight 0 y rfl, hweight (s + 1) x hx] at hless
      rw [List.insertionSort_cons, ih (fun n => hweight (n + 1)) hrest hx,
        List.orderedInsert_of_not_le _ _ (not_notHeavier hless), List.eraseIdx_cons_succ,
        List.insertionSort_cons]

/-! ### Two at a time -/

/-- The place of something once what stood at another place is taken out. -/
def placeWithout (s n : Nat) : Nat :=
  if n < s then n else n - 1

/-- The place that something had before. -/
def placeBefore (s n : Nat) : Nat :=
  if n < s then n else n + 1

theorem placeBefore_placeWithout (h : t ≠ s) : placeBefore s (placeWithout s t) = t := by
  rcases Nat.lt_or_gt_of_ne h with hlt | hgt
  · rw [placeWithout, if_pos hlt, placeBefore, if_pos hlt]
  · rw [placeWithout, if_neg (Nat.not_lt_of_gt hgt), placeBefore, if_neg (by omega)]
    omega

theorem placeBefore_ne (s n : Nat) : placeBefore s n ≠ s := by
  unfold placeBefore
  split <;> omega

theorem placeBefore_lt {n count : Nat} (hn : n < count - 1) : placeBefore s n < count := by
  unfold placeBefore
  split <;> omega

theorem placeBefore_lt_of_lt {n : Nat} (hn : n < placeWithout s t) : placeBefore s n < t := by
  unfold placeBefore
  unfold placeWithout at hn
  split at hn <;> split <;> omega

theorem placeWithout_lt {count : Nat} (hs : s < count) (ht : t < count) (hne : t ≠ s) :
    placeWithout s t < count - 1 := by
  unfold placeWithout
  split <;> omega

theorem getElem?_eraseIdx_eq (l : List α) (s n : Nat) :
    (l.eraseIdx s)[n]? = l[placeBefore s n]? := by
  rw [List.getElem?_eraseIdx]
  unfold placeBefore
  split <;> rfl

/-- The first of the least besides one is the first of the least once that one is taken out. -/
theorem IsFirstLeast.eraseIdx (h : IsFirstLeast weight (some s) l.length t) (hs : s < l.length) :
    IsFirstLeast (fun n => weight (placeBefore s n)) none (l.eraseIdx s).length
      (placeWithout s t) := by
  have hne : t ≠ s := fun hts => h.kept (congrArg some hts)
  have hkept : ∀ n, some (placeBefore s n) ≠ some s :=
    fun n hn => placeBefore_ne s n (Option.some.inj hn)
  rw [List.length_eraseIdx_of_lt hs]
  refine ⟨placeWithout_lt hs h.lt hne, nofun, fun n hn _ => ?_, fun n hn _ => ?_⟩
  · rw [placeBefore_placeWithout hne]
    exact h.least _ (placeBefore_lt hn) (hkept n)
  · rw [placeBefore_placeWithout hne]
    exact h.first _ (placeBefore_lt_of_lt hn) (hkept n)

theorem eraseIdx_eraseIdx_of_lt (l : List α) (h : s < t) :
    (l.eraseIdx t).eraseIdx s = (l.eraseIdx s).eraseIdx (t - 1) := by
  induction l generalizing s t with
  | nil => rfl
  | cons x l ih =>
    obtain ⟨t, rfl⟩ := Nat.exists_eq_succ_of_ne_zero (Nat.ne_zero_of_lt h)
    cases s with
    | zero => rfl
    | succ s =>
      have hlt := Nat.lt_of_succ_lt_succ h
      obtain ⟨t, rfl⟩ := Nat.exists_eq_succ_of_ne_zero (Nat.ne_zero_of_lt hlt)
      simpa using ih hlt

/-- Taking out the one further behind first is the same as taking them out one after the other. -/
theorem eraseIdx_max_min (l : List α) (h : t ≠ s) :
    (l.eraseIdx (max s t)).eraseIdx (min s t) = (l.eraseIdx s).eraseIdx (placeWithout s t) := by
  unfold placeWithout
  rcases Nat.lt_or_gt_of_ne h with hlt | hlt
  · rw [Nat.max_eq_left (Nat.le_of_lt hlt), Nat.min_eq_right (Nat.le_of_lt hlt), if_pos hlt]
  · rw [Nat.max_eq_right (Nat.le_of_lt hlt), Nat.min_eq_left (Nat.le_of_lt hlt),
      if_neg (Nat.not_lt_of_gt hlt), eraseIdx_eraseIdx_of_lt l hlt]

/-- **Two that are found one after the other stand first in order.** -/
theorem insertionSort_eq_cons_cons (hweight : ∀ n x, l[n]? = some x → weight n = f x)
    (hs : IsFirstLeast weight none l.length s) (ht : IsFirstLeast weight (some s) l.length t)
    (hx : l[s]? = some x) (hy : l[t]? = some y) :
    l.insertionSort (NotHeavier f) =
      x :: y :: ((l.eraseIdx (max s t)).eraseIdx (min s t)).insertionSort (NotHeavier f) := by
  have hne : t ≠ s := fun hts => ht.kept (congrArg some hts)
  rw [insertionSort_eq_cons hweight hs hx, eraseIdx_max_min l hne]
  congr 1
  refine insertionSort_eq_cons (fun n z hn => ?_) (ht.eraseIdx hs.lt) ?_
  · rw [getElem?_eraseIdx_eq] at hn
    exact hweight _ z hn
  · rw [getElem?_eraseIdx_eq, placeBefore_placeWithout hne, hy]

end Sorting

/-! ### The same trie -/

/-- A trie that waits is the one that nodes stand for, with its weight. -/
structure Stands (nodes : List TrieNode) (e : Nat × UInt64) (u : WeightedTrie) : Prop where
  weight : e.2.toNat = u.weight
  trie : Represents nodes e.1 u.trie

/-- Two tries joined, the first on the side of the zeros. -/
def WeightedTrie.join (u v : WeightedTrie) : WeightedTrie :=
  ⟨u.weight + v.weight, .node u.trie v.trie⟩

/-- Tries by weight, equal weights in the given order. -/
def byWeight (us : List WeightedTrie) : List WeightedTrie :=
  us.insertionSort (NotHeavier WeightedTrie.weight)

theorem sum_weight_byWeight (us : List WeightedTrie) :
    ((byWeight us).map WeightedTrie.weight).sum = (us.map WeightedTrie.weight).sum :=
  ((List.perm_insertionSort _ us).map WeightedTrie.weight).sum_eq

/-- Joining the first two tries in order keeps the sum of all weights. -/
theorem sum_weight_join {us others : List WeightedTrie} {u v : WeightedTrie}
    (h : byWeight us = u :: v :: byWeight others) :
    ((others ++ [u.join v]).map WeightedTrie.weight).sum = (us.map WeightedTrie.weight).sum := by
  rw [← sum_weight_byWeight us, h, List.map_cons, List.map_cons, List.sum_cons, List.sum_cons,
    sum_weight_byWeight, List.map_append, List.sum_append, List.map_singleton, List.sum_singleton,
    ← Nat.add_assoc, Nat.add_comm]
  rfl

namespace Trie

/-- Putting a trie in place and queuing another one can change places. -/
theorem orderedInsert_enqueue (t u : WeightedTrie) (us : List WeightedTrie) :
    (enqueue t us).orderedInsert (NotHeavier WeightedTrie.weight) u =
      enqueue t (us.orderedInsert (NotHeavier WeightedTrie.weight) u) := by
  induction us with
  | nil =>
    simp only [enqueue, List.orderedInsert_cons, List.orderedInsert_nil, NotHeavier]
  | cons v us ih =>
    simp only [enqueue, List.orderedInsert_cons, NotHeavier] at ih ⊢
    by_cases hvt : v.weight ≤ t.weight <;> by_cases huv : u.weight ≤ v.weight
    · have hut := Nat.le_trans huv hvt
      simp only [enqueue, List.orderedInsert_cons, NotHeavier, hvt, huv, hut, if_true]
    · simp only [enqueue, List.orderedInsert_cons, NotHeavier, hvt, huv, if_true, if_false, ih]
    · simp only [enqueue, List.orderedInsert_cons, NotHeavier, hvt, huv, if_true, if_false]
    · have hut : ¬ u.weight ≤ t.weight := by omega
      simp only [enqueue, List.orderedInsert_cons, NotHeavier, hvt, huv, hut, if_false]

/-- A trie that comes last is queued behind all that are not heavier. -/
theorem byWeight_concat (us : List WeightedTrie) (t : WeightedTrie) :
    byWeight (us ++ [t]) = enqueue t (byWeight us) := by
  induction us with
  | nil => rfl
  | cons u us ih =>
    rw [List.cons_append, byWeight, List.insertionSort_cons]
    show List.orderedInsert _ u (byWeight (us ++ [t])) = _
    rw [ih, orderedInsert_enqueue]
    rfl

theorem queue_eq_byWeight (leaves : List (Nat × Nat)) :
    queue leaves = byWeight (leaves.map fun (symbol, weight) => ⟨weight, leaf symbol⟩) :=
  mergeSort_eq_insertionSort WeightedTrie.weight _

end Trie

namespace Worklist

variable {w : Worklist} {us : List WeightedTrie}

theorem weightAt_eq (h : List.Forall₂ (Stands w.nodes) w.pending us) (n : Nat) (u : WeightedTrie)
    (hn : us[n]? = some u) : weightAt w.pending n = u.weight := by
  obtain ⟨hlt, rfl⟩ := List.getElem?_eq_some_iff.1 hn
  have hlt' : n < w.pending.length := h.length_eq ▸ hlt
  rw [weightAt, List.getD_eq_getElem?_getD, List.getElem?_eq_getElem hlt', Option.getD_some]
  exact (h.get hlt' hlt).weight

theorem Stands.mono {nodes nodes' : List TrieNode} (hgrown : nodes <+: nodes')
    {e : Nat × UInt64} {u : WeightedTrie} (h : Stands nodes e u) : Stands nodes' e u :=
  ⟨h.weight, h.trie.mono hgrown⟩

theorem forall₂_eraseIdx {α β : Type} {R : α → β → Prop} {xs : List α} {ys : List β}
    (h : List.Forall₂ R xs ys) (n : Nat) : List.Forall₂ R (xs.eraseIdx n) (ys.eraseIdx n) := by
  rw [List.eraseIdx_eq_take_drop_succ, List.eraseIdx_eq_take_drop_succ]
  exact List.rel_append (List.forall₂_take n h) (List.forall₂_drop (n + 1) h)

/-- At the start there is a leaf for every symbol. -/
theorem ofLeaves_stands (leaves : List (Nat × UInt64)) :
    List.Forall₂ (Stands (ofLeaves leaves).nodes) (ofLeaves leaves).pending
      (leaves.map fun leaf => ⟨leaf.2.toNat, .leaf leaf.1⟩) := by
  refine List.forall₂_iff_get.2 ⟨?_, fun n hn hn' => ?_⟩
  · simp only [ofLeaves, List.length_mapIdx, List.length_map]
  · simp only [ofLeaves, List.get_eq_getElem, List.getElem_mapIdx, List.getElem_map]
    rw [List.length_map] at hn'
    refine ⟨rfl, .leaf ?_⟩
    rw [List.map_map, List.getElem?_map, List.getElem?_eq_getElem hn']
    rfl

/-- **A round** takes the first two tries in order of weight, and lets their join wait behind all
others. -/
theorem joinLightest_result (h : List.Forall₂ (Stands w.nodes) w.pending us)
    (hlength : 1 < us.length) (hsum : (us.map WeightedTrie.weight).sum < 2 ^ 64) :
    ∃ w' u v others, w.joinLightest = .ok w' ∧ byWeight us = u :: v :: byWeight others ∧
      List.Forall₂ (Stands w'.nodes) w'.pending
        (others ++ [u.join v]) := by
  have hpending := h.length_eq
  obtain ⟨s, t, hs, ht, heq⟩ := joinLightest_eq (hpending ▸ hlength)
  have hsus : s < us.length := hpending ▸ hs.lt
  have htus : t < us.length := hpending ▸ ht.lt
  have hleft := h.get hs.lt hsus
  have hright := h.get ht.lt htus
  have horder : byWeight us = us.get ⟨s, hsus⟩ :: us.get ⟨t, htus⟩ ::
      byWeight ((us.eraseIdx (max s t)).eraseIdx (min s t)) :=
    insertionSort_eq_cons_cons (weightAt_eq h) (hpending ▸ hs) (hpending ▸ ht)
      (List.getElem?_eq_getElem hsus) (List.getElem?_eq_getElem htus)
  have hfits : (w.pending.get ⟨s, hs.lt⟩).2.toNat + (w.pending.get ⟨t, ht.lt⟩).2.toNat
      < 2 ^ 64 := by
    have htotal := sum_weight_join horder
    rw [List.map_append, List.sum_append, List.map_singleton, List.sum_singleton] at htotal
    rw [hleft.weight, hright.weight]
    exact Nat.lt_of_le_of_lt (Nat.le_add_left _ _) (htotal ▸ hsum)
  rw [if_pos hfits] at heq
  refine ⟨_, _, _, _, heq, horder, ?_⟩
  have hgrown : w.nodes <+: (w.join s t hs.lt ht.lt).nodes := List.prefix_append _ _
  have hothers := forall₂_eraseIdx (forall₂_eraseIdx h (max s t)) (min s t)
  refine List.rel_append (hothers.imp fun _ _ => Stands.mono hgrown) (.cons ⟨?_, ?_⟩ .nil)
  · show (_ + _ : UInt64).toNat = _
    rw [UInt64.toNat_add, WeightedTrie.join, ← hleft.weight, ← hright.weight]
    exact Nat.mod_eq_of_lt hfits
  · exact .node List.getElem?_concat_length (hleft.trie.mono hgrown) (hright.trie.mono hgrown)

/-- **All rounds** give the trie that joining in order of weight gives. -/
theorem run_result (h : List.Forall₂ (Stands w.nodes) w.pending us) (hne : us ≠ [])
    (hsum : (us.map WeightedTrie.weight).sum < 2 ^ 64) :
    ∃ t u, w.run = .ok t ∧ Trie.joinAll (byWeight us) = some u ∧ Represents t.nodes t.root u := by
  induction hcount : us.length using Nat.strong_induction_on generalizing w us with
  | _ count ih =>
    by_cases hlength : 1 < us.length
    · obtain ⟨w', u, v, others, hjoin, horder, hforest⟩ := joinLightest_result h hlength hsum
      have hpending : 1 < w.pending.length := h.length_eq ▸ hlength
      have hfewer : (others ++ [u.join v]).length < count := by
        rw [← hforest.length_eq, ← hcount, ← h.length_eq]
        exact length_joinLightest hpending hjoin
      obtain ⟨t, trie, hrun, htrie, hrepresents⟩ :=
        ih _ hfewer hforest (by simp) (sum_weight_join horder ▸ hsum) rfl
      refine ⟨t, trie, (run_of_joinLightest hpending hjoin).trans hrun, ?_, hrepresents⟩
      rw [horder, Trie.joinAll, ← htrie, Trie.byWeight_concat]
      rfl
    · -- the one trie that is left
      obtain ⟨u, rfl⟩ := List.length_eq_one_iff.1
        (Nat.le_antisymm (Nat.le_of_not_lt hlength) (List.length_pos_iff.2 hne))
      obtain ⟨e, he⟩ := List.length_eq_one_iff.1 h.length_eq
      have hstands : Stands w.nodes e u := by
        rw [he] at h
        cases h with
        | cons hstands _ => exact hstands
      refine ⟨_, u.trie, run_of_single he, ?_, hstands.trie⟩
      rw [byWeight, List.insertionSort_cons, List.insertionSort_nil, List.orderedInsert_nil,
        Trie.joinAll]

end Worklist

/-- The given weights of symbols, as numbers. -/
def leafWeights (leaves : List (Nat × UInt64)) : List (Nat × Nat) :=
  leaves.map fun leaf => (leaf.1, leaf.2.toNat)

/-- **The linked trie stands for the trie of the weighted symbols**, if there are symbols and the
sum of their weights is a machine word. -/
theorem LinkedTrie.build_result {leaves : List (Nat × UInt64)} (hne : leaves ≠ [])
    (hsum : (leaves.map fun leaf => leaf.2.toNat).sum < 2 ^ 64) :
    ∃ t u, LinkedTrie.build leaves = .ok t ∧ Trie.ofLeaves? (leafWeights leaves) = some u ∧
      Represents t.nodes t.root u := by
  have hstart := Worklist.ofLeaves_stands leaves
  obtain ⟨t, u, hrun, htrie, hrepresents⟩ := Worklist.run_result hstart (by simpa using hne)
    (by rwa [List.map_map])
  refine ⟨t, u, ?_, ?_, hrepresents⟩
  · rw [build, if_neg (by simpa using hne), hrun]
  · rw [Trie.ofLeaves?, Trie.queue_eq_byWeight, leafWeights, List.map_map]
    exact htrie

end EntitlementAuthority
