import EntitlementAuthority.Proofs.PrefixCode.Codes
import Mathlib.InformationTheory.Coding.KraftMcMillan

/-!
# The lengths of the codes of a prefix code

* `PrefixFree` — no symbol has a code that the code of another one begins with.
* `kraftSum` — the sum of `2 ^ -n` over lengths `n`.
* `PrefixFree.kraftSum_le_one` — Kraft's inequality, for any code without such prefixes.
* `Trie.prefixFree_code`, `Trie.kraftSum_lengths` — a trie gives such a code, and attains the bound.
-/

namespace EntitlementAuthority

/-- No code of a symbol is a prefix of the code of another symbol. -/
def PrefixFree (symbols : List Nat) (code : Nat → List Bool) : Prop :=
  ∀ s ∈ symbols, ∀ t ∈ symbols, code s <+: code t → s = t

/-- The sum of `2 ^ -n` over lengths `n`. -/
def kraftSum (lengths : List Nat) : ℚ :=
  (lengths.map fun n => (1 / 2 : ℚ) ^ n).sum

@[simp] theorem kraftSum_nil : kraftSum [] = 0 := rfl

@[simp] theorem kraftSum_cons (n : Nat) (lengths : List Nat) :
    kraftSum (n :: lengths) = (1 / 2) ^ n + kraftSum lengths := rfl

theorem kraftSum_append (lengths lengths' : List Nat) :
    kraftSum (lengths ++ lengths') = kraftSum lengths + kraftSum lengths' := by
  rw [kraftSum, List.map_append, List.sum_append]
  rfl

theorem kraftSum_perm {lengths lengths' : List Nat} (h : lengths.Perm lengths') :
    kraftSum lengths = kraftSum lengths' :=
  (h.map _).sum_eq

/-- One bit more for every code halves the sum. -/
theorem kraftSum_map_succ (lengths : List Nat) :
    kraftSum (lengths.map Nat.succ) = 1 / 2 * kraftSum lengths := by
  induction lengths with
  | nil => rw [List.map_nil, kraftSum_nil, mul_zero]
  | cons n lengths ih => rw [List.map_cons, kraftSum_cons, kraftSum_cons, ih, pow_succ', mul_add]

/-! ### Any prefix code -/

/-- Words of which none is a prefix of another one can be told apart when they are put together. -/
theorem uniquelyDecodable_of_prefix {words : Set (List Bool)} (hnil : [] ∉ words)
    (hapart : ∀ v ∈ words, ∀ w ∈ words, v <+: w → v = w) :
    InformationTheory.UniquelyDecodable words := by
  have hempty : ∀ w ∈ words, ∀ ws : List (List Bool), [] ≠ (w :: ws).flatten := by
    intro w hw ws h
    rw [List.flatten_cons, eq_comm, List.append_eq_nil_iff] at h
    exact hnil (h.1 ▸ hw)
  intro vs
  induction vs with
  | nil =>
    intro ws _ hws h
    cases ws with
    | nil => rfl
    | cons w ws => exact absurd h (hempty w (hws w List.mem_cons_self) ws)
  | cons v vs ih =>
    intro ws hvs hws h
    cases ws with
    | nil => exact absurd h.symm (hempty v (hvs v List.mem_cons_self) vs)
    | cons w ws =>
      have hv := hvs v List.mem_cons_self
      have hw := hws w List.mem_cons_self
      have hvw : v = w := by
        have hbegin : v <+: (w :: ws).flatten := ⟨vs.flatten, h⟩
        rcases List.prefix_or_prefix_of_prefix hbegin ⟨ws.flatten, rfl⟩ with hle | hle
        · exact hapart v hv w hw hle
        · exact (hapart w hw v hv hle).symm
      subst hvw
      rw [List.flatten_cons, List.flatten_cons, List.append_cancel_left_eq] at h
      rw [ih ws (fun u hu => hvs u (List.mem_cons_of_mem v hu))
        (fun u hu => hws u (List.mem_cons_of_mem v hu)) h]

variable {symbols : List Nat} {code : Nat → List Bool}

/-- A symbol without bits is the only one. -/
theorem PrefixFree.eq_singleton (h : PrefixFree symbols code) (hnodup : symbols.Nodup) {s : Nat}
    (hs : s ∈ symbols) (hnil : code s = []) : symbols = [s] := by
  refine List.perm_singleton.1 ((List.perm_ext_iff_of_nodup hnodup (List.nodup_singleton s)).2 ?_)
  intro t
  rw [List.mem_singleton]
  refine ⟨fun ht => ?_, fun ht => ht ▸ hs⟩
  exact (h s hs t ht (hnil ▸ List.nil_prefix)).symm

/-- **Kraft's inequality.** -/
theorem PrefixFree.kraftSum_le_one (h : PrefixFree symbols code) (hnodup : symbols.Nodup) :
    kraftSum (symbols.map fun s => (code s).length) ≤ 1 := by
  by_cases hnil : ∃ s ∈ symbols, code s = []
  · obtain ⟨s, hs, hs'⟩ := hnil
    rw [h.eq_singleton hnodup hs hs', List.map_singleton, hs']
    norm_num [kraftSum]
  · have hinj : (symbols.map code).Nodup := by
      refine List.Nodup.map_on (fun s hs t ht hst => ?_) hnodup
      exact h s hs t ht (hst ▸ List.prefix_refl _)
    have hdecodable : InformationTheory.UniquelyDecodable
        ((symbols.map code).toFinset : Set (List Bool)) := by
      simp only [List.coe_toFinset, List.mem_map]
      refine uniquelyDecodable_of_prefix hnil ?_
      rintro _ ⟨s, hs, rfl⟩ _ ⟨t, ht, rfl⟩ hst
      exact congrArg code (h s hs t ht hst)
    have hkraft := InformationTheory.kraft_mcmillan_inequality hdecodable
    rw [List.sum_toFinset _ hinj, Fintype.card_bool, List.map_map] at hkraft
    have hcast : ((kraftSum (symbols.map fun s => (code s).length) : ℚ) : ℝ) ≤ 1 := by
      rw [kraftSum, List.map_map, Rat.cast_list_sum, List.map_map]
      simpa [Function.comp_def] using hkraft
    exact_mod_cast hcast

namespace Trie

/-- **The code of a trie is prefix free.** -/
theorem prefixFree_code (t : Trie) : PrefixFree t.symbols t.code := by
  rintro s hs t' ht' ⟨rest, hrest⟩
  have hread := decode?_code ht' []
  rw [List.append_nil, ← hrest, decode?_code hs] at hread
  exact congrArg Prod.fst (Option.some.inj hread)

/-- The lengths of the codes, from left to right. -/
def lengths (t : Trie) : List Nat :=
  t.codes.map fun e => e.2.length

theorem lengths_node (zero one : Trie) :
    (node zero one).lengths = zero.lengths.map Nat.succ ++ one.lengths.map Nat.succ := by
  simp only [lengths, codes, List.map_append, List.map_map]
  rfl

/-- **The codes of a trie leave nothing unused.** -/
theorem kraftSum_lengths (t : Trie) : kraftSum t.lengths = 1 := by
  induction t with
  | leaf symbol => norm_num [lengths, codes]
  | node zero one ihzero ihone =>
    rw [lengths_node, kraftSum_append, kraftSum_map_succ, kraftSum_map_succ, ihzero, ihone]
    norm_num

end Trie

end EntitlementAuthority
