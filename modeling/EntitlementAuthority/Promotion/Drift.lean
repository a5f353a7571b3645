import EntitlementAuthority.Promotion.Winner
import EntitlementAuthority.Text.Sorted

/-!
# Drift

When the environments of a consumer change, the certificates that carry a content whose winning
environment changed no longer show what the consumer should see.

* `changedContent` — the contents whose winner changed.
* `driftedEntitlements` — the entitlements that carry one of them.
-/

namespace EntitlementAuthority

/-- The contents that an entitlement carries. -/
structure EntitlementContent where
  entitlementId : String
  consumerId : String
  /-- A set of content ids. -/
  contentIds : List String
deriving DecidableEq, Repr

/-- The contents among `contentIds` whose winner differs between two orderings; having no
winner counts as one. -/
def changedContent (contentIds : List String) (before after : List EnvironmentPromotions) :
    List String :=
  contentIds.filter fun id => winnerId before id != winnerId after id

/-- All contents that entitlements carry. -/
def carriedContent (entitlements : List EntitlementContent) : List String :=
  Text.sortedSet (entitlements.flatMap (·.contentIds))

/-- The entitlements whose certificates are outdated after a change of environments. -/
def driftedEntitlements (entitlements : List EntitlementContent)
    (before after : List EnvironmentPromotions) : List String :=
  let changed := changedContent (carriedContent entitlements) before after
  Text.sortedSet
    ((entitlements.filter fun e => Text.intersects e.contentIds changed).map (·.entitlementId))

/-- An entitlement is reported exactly if it carries a content whose winner differs. -/
theorem mem_driftedEntitlements {entitlements : List EntitlementContent}
    {before after : List EnvironmentPromotions} {id : String} :
    id ∈ driftedEntitlements entitlements before after ↔
      ∃ e ∈ entitlements, e.entitlementId = id ∧
        ∃ c ∈ e.contentIds, winnerId before c ≠ winnerId after c := by
  simp only [driftedEntitlements, Text.mem_sortedSet, List.mem_map, List.mem_filter,
    Text.intersects_iff, changedContent, carriedContent, List.mem_flatMap, bne_iff_ne]
  constructor
  · rintro ⟨e, ⟨he, c, hc, -, hne⟩, rfl⟩
    exact ⟨e, he, rfl, c, hc, hne⟩
  · rintro ⟨e, he, rfl, c, hc, hne⟩
    exact ⟨e, ⟨he, c, hc, ⟨e, he, hc⟩, hne⟩, rfl⟩

end EntitlementAuthority
