import EntitlementAuthority.Issuance.Sample
import EntitlementAuthority.Proofs.Body.Clean
import EntitlementAuthority.Proofs.Body.Placement
import EntitlementAuthority.Proofs.Catalog.Merging

/-!
# Granted contents and the contents of a pool

A pool has the contents of its product and of all that this one provides, at any depth. An
entitlement grants those of the product and of what it provides itself, and of products with one id
only the first counts. The two are compared here for all consumers but distributors, who are granted
derived products as well.

* `Pool.PassesOver` — the products of a pool that an entitlement leaves out.
* `mem_reach_iff_granted_or_passedOver` — no others are left out.
* `Pool.not_passesOver_of_flat` — none is where nothing provides twice over and ids are distinct.
* `grantedContentIds_eq_iff` — when nothing is lost that way.
-/

namespace EntitlementAuthority

open Relation (ReflTransGen TransGen)

/-! ### Products that are left out -/

/-- The product of the pool reaches the product, and an entitlement leaves it out. -/
inductive Pool.PassesOver (pool : Pool) (p : Product) : Prop
  /-- It is provided by a provided product, or by what that one provides. -/
  | deep {q : Product} (hq : pool.product.Provides q) (hp : TransGen Product.Provides q p)
  /-- It stands behind a product with the same id. -/
  | repeated {before after : List Product} {q : Product}
      (hp : pool.product :: pool.product.provided = before ++ p :: after) (hq : q ∈ before)
      (hid : q.id = p.id)

section NoDistributor

variable {pool : Pool} {consumer : Consumer} (h : consumer.kind ≠ .distributor)
include h

theorem grantedProducts_eq :
    grantedProducts pool consumer = firstById [] (pool.product :: pool.product.provided) := by
  simp [grantedProducts, h]

/-- What stands in the pool itself is granted, or it is left out. -/
theorem mem_granted_or_passedOver {p : Product}
    (hp : p ∈ pool.product :: pool.product.provided) :
    p ∈ grantedProducts pool consumer ∨ pool.PassesOver p := by
  rw [grantedProducts_eq h]
  obtain ⟨q, hq, hid, rfl | ⟨before, after, hps, hbefore⟩⟩ :=
    exists_mem_firstById hp List.not_mem_nil
  · exact .inl hq
  · exact .inr (.repeated hps hbefore hid)

/-- **What a pool reaches** is granted or left out. -/
theorem mem_reach_iff_granted_or_passedOver {p : Product} :
    p ∈ pool.product.reach ↔ p ∈ grantedProducts pool consumer ∨ pool.PassesOver p := by
  constructor
  · intro hp
    rcases Product.mem_reach_cases.1 hp with rfl | ⟨q, hq, hp⟩
    · exact mem_granted_or_passedOver h List.mem_cons_self
    · rcases Relation.reflTransGen_iff_eq_or_transGen.1 (Product.mem_reach_iff.1 hp) with rfl | hp
      · exact mem_granted_or_passedOver h (List.mem_cons_of_mem _ hq)
      · exact .inr (.deep hq hp)
  · rintro (hp | hp)
    · rw [grantedProducts_eq h] at hp
      exact Product.mem_reach_of_mem ((firstById_sublist [] _).subset hp)
    · cases hp with
      | deep hq hp => exact Product.mem_reach_iff.2 (.head hq hp.to_reflTransGen)
      | repeated hps _ _ =>
        exact Product.mem_reach_of_mem (hps ▸ List.mem_append_right _ List.mem_cons_self)

end NoDistributor

/-- Nothing is left out if no provided product provides others and no id occurs twice. -/
theorem Pool.not_passesOver_of_flat {pool : Pool}
    (hflat : ∀ q ∈ pool.product.provided, q.provided = [])
    (hids : ((pool.product :: pool.product.provided).map (·.id)).Nodup) (p : Product) :
    ¬ pool.PassesOver p := by
  intro h
  cases h with
  | deep hq hp =>
    obtain ⟨r, hr, -⟩ := TransGen.head'_iff.1 hp
    rw [Product.Provides, hflat _ hq] at hr
    cases hr
  | repeated hps hq hid =>
    rw [hps, List.map_append, List.nodup_append] at hids
    exact hids.2.2 _ (List.mem_map_of_mem hq) _ (List.mem_map_of_mem List.mem_cons_self) hid

/-! ### Contents -/

section Contents

variable {pool : Pool} {consumer : Consumer} {x : String}

theorem Pool.mem_contentIds_iff :
    x ∈ pool.contentIds ↔ ∃ p ∈ pool.product.reach, x ∈ p.ownContentIds := by
  rw [contentIds, Product.contentIds, Text.mem_sortedSet, List.mem_flatMap]

/-- What stands on the certificate of an entitlement is granted by it. -/
theorem mem_grantedContentIds_of_mem_entitlementProducts {config : Config} {d : Directory}
    {owner : Owner} {m : ProductModel} (hm : m ∈ entitlementProducts config d consumer owner pool)
    {c : ContentModel} (hc : c ∈ m.contents) : c.id ∈ grantedContentIds pool consumer := by
  obtain ⟨p, hp, pc, hoffers, hid⟩ := ContentView.mem_ids_createProducts_iff.1 ⟨m, hm, c, hc, rfl⟩
  refine mem_grantedContentIds_iff.2 ⟨p, (List.mem_filter.1 hp).1, ?_⟩
  rw [← hid]
  exact List.mem_map_of_mem (List.mem_of_find?_eq_some hoffers.1)

/-- The owner of a pool has all contents of it. -/
theorem Pool.mem_activeContent_of_mem_contentIds {d : Directory} {id : String}
    (hpool : d.pools.get? id = some pool) (hx : x ∈ pool.contentIds) :
    ∃ pc ∈ d.activeContent pool.ownerId, pc.content.id = x := by
  obtain ⟨p, hp, hx⟩ := mem_contentIds_iff.1 hx
  obtain ⟨pc, hpc, rfl⟩ := List.mem_map.1 hx
  have hreached : ReflTransGen Product.LeadsTo pool.product p :=
    ReflTransGen.mono (fun _ _ => Or.inl) _ _ (Product.mem_reach_iff.1 hp)
  exact (activeContent_isMergeOf d pool.ownerId).complete pc
    ⟨pool, Table.mem_values_iff.2 ⟨id, hpool⟩, rfl, p, hreached, hpc⟩

/-- **What an entitlement grants of a pool.** For all but distributors, what is granted belongs to
the contents of the pool, and these are all granted exactly if each content of a product that is left
out is carried by a product that is not. Only what is granted can stand on the certificate, while the
owner has all contents of the pool. -/
theorem grantedContentIds_eq_iff (h : consumer.kind ≠ .distributor) :
    (∀ x ∈ grantedContentIds pool consumer, x ∈ pool.contentIds) ∧
      (grantedContentIds pool consumer = pool.contentIds ↔
        ∀ p, pool.PassesOver p → ∀ x ∈ p.ownContentIds, x ∈ grantedContentIds pool consumer) ∧
      (∀ config d owner, ∀ m ∈ entitlementProducts config d consumer owner pool,
        ∀ c ∈ m.contents, c.id ∈ grantedContentIds pool consumer) ∧
      ∀ (d : Directory) (id : String), d.pools.get? id = some pool →
        ∀ x ∈ pool.contentIds, ∃ pc ∈ d.activeContent pool.ownerId, pc.content.id = x := by
  have hwithin : ∀ x ∈ grantedContentIds pool consumer, x ∈ pool.contentIds := by
    intro x hx
    obtain ⟨p, hp, hx⟩ := mem_grantedContentIds_iff.1 hx
    exact Pool.mem_contentIds_iff.2 ⟨p, (mem_reach_iff_granted_or_passedOver h).2 (.inl hp), hx⟩
  refine ⟨hwithin, ⟨?_, ?_⟩, ?_, ?_⟩
  · intro heq p hp x hx
    rw [heq]
    exact Pool.mem_contentIds_iff.2 ⟨p, (mem_reach_iff_granted_or_passedOver h).2 (.inr hp), hx⟩
  · intro hall
    refine (Text.sortedSet_increasing _).eq_of_mem_iff (Text.sortedSet_increasing _) fun x => ?_
    refine ⟨hwithin x, fun hx => ?_⟩
    obtain ⟨p, hp, hx⟩ := Pool.mem_contentIds_iff.1 hx
    rcases (mem_reach_iff_granted_or_passedOver h).1 hp with hp | hp
    · exact mem_grantedContentIds_iff.2 ⟨p, hp, hx⟩
    · exact hall p hp x hx
  · intro config d owner m hm c hc
    exact mem_grantedContentIds_of_mem_entitlementProducts hm hc
  · intro d id hpool x hx
    exact Pool.mem_activeContent_of_mem_contentIds hpool hx

end Contents

/-! ### Subscriptions with and without add-ons -/

namespace AddOnSubscription

def product (id : String) (contents : List String) (provided : List Product) : Product :=
  { (default : Product) with
    id
    contents := contents.map fun id => ⟨{ (default : Content) with id }, true⟩
    provided }

def pool (product : Product) : Pool :=
  { Sample.pool 0 ⟨0, 0⟩ with product }

/-- Two systems. -/
def flat : Product :=
  product "MKT-1" ["1000"] [product "100" ["2000"] [], product "200" ["3000"] []]

/-- A system with an add-on of its own. -/
def nested : Product :=
  product "MKT-1" [] [product "100" ["1000"] [product "110" ["2000"] []]]

def consumer : Consumer :=
  { Sample.consumer "uuid-1" false ⟨0, 0⟩ with environmentIds := ["env-1"] }

def directory : Directory :=
  Directory.empty.addConsumer consumer |>.addPool (pool nested) |>.addEntitlement Sample.entitlement

theorem consumersIn_directory : directory.consumersIn "env-1" = [consumer] :=
  List.mergeSort_singleton consumer

theorem entitlementsOf_consumer :
    directory.entitlementsOf consumer.id = [Sample.entitlement] :=
  List.mergeSort_singleton Sample.entitlement

end AddOnSubscription

open AddOnSubscription

/-- Where no product is left out, nothing is lost. -/
theorem grantedContentIds_eq_iff_flat :
    consumer.kind ≠ .distributor ∧
      grantedContentIds (pool flat) consumer = (pool flat).contentIds := by
  have hkind : consumer.kind ≠ .distributor := by decide
  have hnone : ∀ p, ¬ (pool flat).PassesOver p :=
    Pool.not_passesOver_of_flat (List.forall_mem_cons.2 ⟨rfl, List.forall_mem_singleton.2 rfl⟩)
      (by decide)
  refine ⟨hkind, (grantedContentIds_eq_iff hkind).2.1.2 ?_⟩
  intro p hp
  exact absurd hp (hnone p)

/-- The add-on of a provided product is left out, though its graph is valid, the consumer is
entitled to it and its content is among those of the pool and of the owner. -/
theorem add_on_not_granted :
    nested.validateGraph = .ok () ∧ consumer.kind ≠ .distributor ∧
      grantedContentIds (pool nested) consumer = ["1000"] ∧
      (pool nested).contentIds = ["1000", "2000"] ∧
      directory.entitledProductIds consumer.id = ["100", "110", "MKT-1"] ∧
      (directory.activeContent (pool nested).ownerId).map (·.content.id) = ["1000", "2000"] ∧
      Authority.affectedBy directory "env-1" ["2000"] = .ok [] := by
  refine ⟨by decide, by decide, by decide, by decide, ?_, by decide, ?_⟩
  · unfold Directory.entitledProductIds
    rw [entitlementsOf_consumer]
    decide
  · unfold Authority.affectedBy
    rw [consumersIn_directory, List.mapM_cons, List.mapM_nil]
    unfold Authority.carriedBy
    rw [entitlementsOf_consumer]
    decide

end EntitlementAuthority
