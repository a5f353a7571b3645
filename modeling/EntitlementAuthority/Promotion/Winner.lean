import EntitlementAuthority.Registry.Environment

/-!
# Winning environments

A content that several environments of a consumer promote belongs to the first of them in the
order of the consumer's list. Paths, enabled flags and the detection of outdated certificates
all rest on this one choice.

* `PromotionScope` — what can be asked of anything that promotes content.
* `winner` — the first scope that promotes a content.
* `EnvironmentPromotions` — an environment reduced to its id and its promotions.
-/

namespace EntitlementAuthority

/-- Something with an id that promotes content. -/
class PromotionScope (σ : Type) where
  scopeId : σ → String
  promotes : σ → String → Bool

export PromotionScope (scopeId)

instance : PromotionScope Environment where
  scopeId e := e.id
  promotes := Environment.promotes

/-- The first scope that promotes a content. -/
def winner {σ : Type} [PromotionScope σ] (ordering : List σ) (contentId : String) : Option σ :=
  ordering.find? fun scope => PromotionScope.promotes scope contentId

/-- The id of the winner; none if no scope promotes the content. -/
def winnerId {σ : Type} [PromotionScope σ] (ordering : List σ) (contentId : String) :
    Option String :=
  (winner ordering contentId).map scopeId

theorem mem_of_winner {σ : Type} [PromotionScope σ] {ordering : List σ} {contentId : String}
    {scope : σ} (h : winner ordering contentId = some scope) : scope ∈ ordering :=
  List.mem_of_find?_eq_some h

/-- An environment reduced to its id and the contents it promotes. -/
structure EnvironmentPromotions where
  environmentId : String
  /-- A set of content ids. -/
  contentIds : List String
deriving DecidableEq, Repr

instance : PromotionScope EnvironmentPromotions where
  scopeId e := e.environmentId
  promotes e contentId := e.contentIds.contains contentId

/-- What an environment promotes now. -/
def Environment.reduced (e : Environment) : EnvironmentPromotions :=
  ⟨e.id, e.promotedIds⟩

/-- An environment and its reduction promote the same. -/
theorem promotes_reduced (e : Environment) (contentId : String) :
    PromotionScope.promotes e.reduced contentId = PromotionScope.promotes e contentId := by
  rw [Bool.eq_iff_iff]
  simp only [PromotionScope.promotes, Environment.reduced, Environment.promotedIds,
    Environment.promotes, List.contains_iff_mem, Text.mem_sortedSet]
  exact Table.contains_iff_mem_keys.symm

end EntitlementAuthority
