import EntitlementAuthority.Proofs.Body.Clean
import EntitlementAuthority.Proofs.Body.Placement
import EntitlementAuthority.Proofs.Catalog.Merging
import EntitlementAuthority.Proofs.Issuance.Flagging

/-!
# Granted products and entitled products

Content that modifies products is for those who are entitled to one of them. A consumer is entitled
to what the products of its pools provide at any depth; what its entitlements grant it is counted
separately, and for distributors takes in derived products.

* `Directory.IsEntitledTo` — an entitlement of the consumer reaches a product.
* `Pool.GrantsDerived` — an entitlement to the pool grants a product as a derived one.
* `Directory.grantedProducts_entitled_iff` — when what an entitlement grants counts as entitled.
-/

namespace EntitlementAuthority

/-! ### What an entitlement grants -/

/-- An entitlement to the pool grants the product as a derived one. -/
def Pool.GrantsDerived (pool : Pool) (consumer : Consumer) (p : Product) : Prop :=
  consumer.kind = .distributor ∧ pool.isDerived = false ∧
    ∃ derived ∈ pool.product.derived, p ∈ derived :: derived.provided

section Granted

variable {pool : Pool} {consumer : Consumer}

/-- What an entitlement grants is the product of the pool, or one that it provides, or derived. -/
theorem mem_or_grantsDerived_of_mem_grantedProducts {p : Product}
    (h : p ∈ grantedProducts pool consumer) :
    p ∈ pool.product :: pool.product.provided ∨ pool.GrantsDerived consumer p := by
  have h := (firstById_sublist [] _).subset h
  refine (List.mem_append.1 h).imp_right fun h => ?_
  split at h
  · rename_i hkind
    obtain ⟨derived, hderived, hp⟩ := List.mem_flatMap.1 h
    exact ⟨hkind.1, eq_false_of_ne_true hkind.2, derived, Option.mem_toList.1 hderived, hp⟩
  · cases h

/-- A derived product is granted, or another one with its id is. -/
theorem exists_granted_of_grantsDerived {p : Product} (h : pool.GrantsDerived consumer p) :
    ∃ q ∈ grantedProducts pool consumer, q.id = p.id := by
  obtain ⟨hkind, hpool, derived, hderived, hp⟩ := h
  have hlisted : p ∈ pool.product.derived.toList.flatMap fun q => q :: q.provided :=
    List.mem_flatMap.2 ⟨derived, Option.mem_toList.2 hderived, hp⟩
  have hdistributor : consumer.kind = .distributor ∧ ¬ pool.isDerived :=
    ⟨hkind, ne_true_of_eq_false hpool⟩
  rw [grantedProducts, if_pos hdistributor]
  obtain ⟨q, hq, hid, -⟩ := exists_mem_firstById (List.mem_append_right _ hlisted) List.not_mem_nil
  exact ⟨q, hq, hid⟩

end Granted

/-! ### What a consumer is entitled to -/

/-- Who is entitled to a product is entitled to the contents that modify it. -/
theorem ContentView.isEntitled_of_modifies {v : ContentView} {productId : String}
    (h : productId ∈ v.entitledProductIds) {content : Content}
    (hmodifies : productId ∈ content.modifiedProductIds) : v.isEntitled content = true :=
  isEntitled_iff.2 fun _ _ => ⟨productId, hmodifies, h⟩

namespace Directory

section Entitled

variable {d : Directory} {c : Consumer} {e : Entitlement} {pool : Pool}

/-- An entitlement of the consumer is to a pool whose product reaches one with the id. -/
def IsEntitledTo (d : Directory) (consumerId productId : String) : Prop :=
  ∃ e ∈ d.entitlementsOf consumerId, ∃ pool, d.pools.get? e.poolId = some pool ∧
    ∃ p ∈ pool.product.reach, p.id = productId

theorem mem_entitledProductIds_iff {consumerId productId : String} :
    productId ∈ d.entitledProductIds consumerId ↔ d.IsEntitledTo consumerId productId := by
  unfold entitledProductIds IsEntitledTo
  rw [Text.mem_sortedSet, List.mem_flatMap]
  refine exists_congr fun e => and_congr_right fun _ => ?_
  cases d.pools.get? e.poolId with
  | none => simp
  | some pool => simp

/-- A consumer is entitled to the product of its pool and to those that one provides. -/
theorem isEntitledTo_of_mem (he : e ∈ d.entitlementsOf c.id)
    (hpool : d.pools.get? e.poolId = some pool) {p : Product}
    (hp : p ∈ pool.product :: pool.product.provided) : d.IsEntitledTo c.id p.id :=
  ⟨e, he, pool, hpool, p, Product.mem_reach_of_mem hp, rfl⟩

/-- **When granted products count as entitled.** Consumers are entitled to the product of their
pool and to those that one provides. All that an entitlement grants counts as entitled, so that no
content modifying some of it is dropped, exactly if every product that is granted as a derived one
is reached by an entitlement of the consumer as well. -/
theorem grantedProducts_entitled_iff (he : e ∈ d.entitlementsOf c.id)
    (hpool : d.pools.get? e.poolId = some pool) :
    (∀ p ∈ pool.product :: pool.product.provided, p.id ∈ d.entitledProductIds c.id) ∧
      ((∀ p ∈ grantedProducts pool c, p.id ∈ d.entitledProductIds c.id ∧
          ∀ config owner content, p.id ∈ content.modifiedProductIds →
            (entitlementView config d c owner).isEntitled content = true) ↔
        ∀ p, pool.GrantsDerived c p → d.IsEntitledTo c.id p.id) := by
  have hown : ∀ p ∈ pool.product :: pool.product.provided, p.id ∈ d.entitledProductIds c.id :=
    fun p hp => mem_entitledProductIds_iff.2 (isEntitledTo_of_mem he hpool hp)
  refine ⟨hown, ?_, ?_⟩
  · intro h p hp
    obtain ⟨q, hq, hid⟩ := exists_granted_of_grantsDerived hp
    exact mem_entitledProductIds_iff.1 (hid ▸ (h q hq).1)
  · intro h p hp
    have hentitled : p.id ∈ d.entitledProductIds c.id := by
      rcases mem_or_grantsDerived_of_mem_grantedProducts hp with hp | hp
      · exact hown p hp
      · exact mem_entitledProductIds_iff.2 (h p hp)
    exact ⟨hentitled, fun _ _ _ hmodifies =>
      ContentView.isEntitled_of_modifies hentitled hmodifies⟩

end Entitled

end Directory

/-! ### A host and a distributor -/

namespace GuestSubscription

/-- A product without contents. -/
def product (id : String) (provided : List Product) (derived : Option Product) : Product :=
  { (default : Product) with id, provided, derived }

/-- What guests run. -/
def guest : Product := product "300" [] none

/-- A subscription for hosts with guests. -/
def pool : Pool where
  id := "pool-1"
  ownerId := "owner-1"
  product := product "MKT-1" [product "100" [] none] (some (product "MKT-D" [guest] none))
  quantity := 10
  startDate := ⟨0, 0⟩
  endDate := ⟨0, 0⟩
  orderNumber := none
  contractNumber := none
  accountNumber := none
  attributes := Table.empty

/-- The share of the one consumer. -/
def entitlement : Entitlement := ⟨"ent-1", "consumer-1", "pool-1", 1, false⟩

def directory : Directory :=
  (Directory.empty.addPool pool).addEntitlement entitlement

def consumer (kind : ConsumerKind) : Consumer where
  id := "consumer-1"
  uuid := "uuid-1"
  name := "consumer"
  ownerId := "owner-1"
  kind
  facts := Table.empty
  capabilities := []
  environmentIds := []
  created := ⟨0, 0⟩

/-- A content for guests. -/
def addOn : Content :=
  { (default : Content) with id := "1000", modifiedProductIds := ["300"] }

def owner : Owner where
  id := "owner-1"
  key := "acme"
  contentPrefix := none
  accessMode := .entitlement
  contentUpdated := ⟨0, 0⟩

theorem entitlementsOf_consumer (kind : ConsumerKind) :
    directory.entitlementsOf (consumer kind).id = [entitlement] :=
  List.mergeSort_singleton entitlement

theorem entitledProductIds_consumer (kind : ConsumerKind) :
    directory.entitledProductIds (consumer kind).id = ["100", "MKT-1"] := by
  unfold Directory.entitledProductIds
  rw [entitlementsOf_consumer]
  decide

theorem entitlement_mem (kind : ConsumerKind) :
    entitlement ∈ directory.entitlementsOf (consumer kind).id := by
  rw [entitlementsOf_consumer]
  exact List.mem_cons_self

theorem pool_found : directory.pools.get? entitlement.poolId = some pool := rfl

end GuestSubscription

open GuestSubscription

/-- For a host, all that the entitlement grants counts as entitled. -/
theorem grantedProducts_entitled_host :
    entitlement ∈ directory.entitlementsOf (consumer .system).id ∧
      directory.pools.get? entitlement.poolId = some pool ∧
      ∀ p ∈ grantedProducts pool (consumer .system),
        p.id ∈ directory.entitledProductIds (consumer .system).id := by
  have hderived : ∀ p, pool.GrantsDerived (consumer .system) p →
      directory.IsEntitledTo (consumer .system).id p.id := by
    rintro p ⟨hkind, -⟩
    cases hkind
  have hgranted := (Directory.grantedProducts_entitled_iff (entitlement_mem .system)
    pool_found).2.2 hderived
  exact ⟨entitlement_mem _, pool_found, fun p hp => (hgranted p hp).1⟩

/-- A distributor is granted the product of the guests without being entitled to it, and a content
that modifies that product is dropped. -/
theorem guest_product_not_entitled :
    entitlement ∈ directory.entitlementsOf (consumer .distributor).id ∧
      directory.pools.get? entitlement.poolId = some pool ∧
      guest ∈ grantedProducts pool (consumer .distributor) ∧
      guest.id ∉ directory.entitledProductIds (consumer .distributor).id ∧
      guest.id ∈ addOn.modifiedProductIds ∧
      (entitlementView default directory (consumer .distributor) owner).isEntitled addOn =
        false := by
  refine ⟨entitlement_mem _, pool_found, ?_, ?_, ?_, ?_⟩
  · have hfourth : (grantedProducts pool (consumer .distributor))[3]? = some guest := rfl
    exact List.mem_of_getElem? hfourth
  · rw [entitledProductIds_consumer]
    decide
  · exact List.mem_cons_self
  · unfold entitlementView
    rw [entitledProductIds_consumer]
    rfl

end EntitlementAuthority
