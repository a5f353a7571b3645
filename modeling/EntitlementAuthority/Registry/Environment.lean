import EntitlementAuthority.Table
import EntitlementAuthority.Text.Sorted
import EntitlementAuthority.Time.Instant

/-!
# Environments

An environment promotes some of its owner's content to the consumers in it.

* `Environment` — the environment and its promotions.
* `Environment.promote`, `Environment.demote` — its changes, which stamp it.
-/

namespace EntitlementAuthority

/-- That a content is promoted. -/
structure Promotion where
  /-- Whether the content is enabled; unset leaves it to the product. -/
  enabled : Option Bool
deriving DecidableEq, Repr

/-- A part of an owner's organisation. -/
structure Environment where
  id : String
  ownerId : String
  name : String
  promotions : Table String Promotion
  /-- When the promotions last changed. -/
  contentUpdated : Instant

namespace Environment

/-- Whether a content is promoted. -/
def promotes (e : Environment) (contentId : String) : Bool :=
  e.promotions.contains contentId

/-- The promoted contents. -/
def promotedIds (e : Environment) : List String :=
  Text.sortedSet e.promotions.keys

/-- Promotes a content, in place of an earlier promotion of it. -/
def promote (e : Environment) (contentId : String) (enabled : Option Bool) (now : Instant) :
    Environment :=
  { e with promotions := e.promotions.insert contentId ⟨enabled⟩, contentUpdated := now }

/-- Takes a promotion back; nothing happens if there is none. -/
def demote (e : Environment) (contentId : String) (now : Instant) : Environment :=
  if e.promotes contentId then
    { e with promotions := e.promotions.erase contentId, contentUpdated := now }
  else e

end Environment

end EntitlementAuthority
