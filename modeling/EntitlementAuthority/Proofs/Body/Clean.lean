import EntitlementAuthority.Issuance.AnonymousAccess
import EntitlementAuthority.Proofs.Body.Roundtrip
import EntitlementAuthority.Proofs.Body.Views
import EntitlementAuthority.Proofs.PathTree.ContentTree

/-!
# Bodies made of clean records

What stands in the records may be of any kind, but numbers have 64 bits there, and the URLs of
contents should not hold a zero character: with it the segments of the content tree end.

* `Content.IsClean`, `Product.IsClean`, `Pool.IsClean` — such records.
* `EntitlementBody.IsClean` — a body that can be read back, of which the content tree can be.
* `entitlementBody_isClean`, `anonymousBody_isClean` — bodies that are made of clean records.
-/

namespace EntitlementAuthority

open Json (IsInt64)

/-! ### Records -/

/-- The URL of the content holds no zero character, and its number has 64 bits. -/
structure Content.IsClean (c : Content) : Prop where
  url : '\u0000' ∉ c.url.toList
  metadataExpire : ∀ n ∈ c.metadataExpire, IsInt64 n

/-- So it is with all contents that the product itself carries. -/
def Product.CarriesClean (p : Product) : Prop :=
  ∀ pc ∈ p.contents, pc.content.IsClean

/-- So it is with all products that belong to the product. -/
def Product.IsClean (p : Product) : Prop :=
  ∀ q ∈ p.graph, q.CarriesClean

/-- The product is clean, and the number of the pool has 64 bits. -/
structure Pool.IsClean (p : Pool) : Prop where
  product : p.product.IsClean
  quantity : IsInt64 p.quantity

namespace Product

mutual

/-- What a product reaches belongs to it. -/
theorem mem_graph_of_mem_reach {q : Product} : (p : Product) → q ∈ p.reach → q ∈ p.graph
  | ⟨id, name, attributes, contents, provided, derived, branding, ns⟩, h => by
    rw [reach] at h
    rw [graph]
    rcases List.mem_cons.1 h with rfl | h
    · exact List.mem_cons_self
    · have hprovided := mem_graphAll_of_mem_reachAll provided h
      exact List.mem_cons_of_mem _ (List.mem_append_left _ hprovided)

theorem mem_graphAll_of_mem_reachAll {q : Product} :
    (ps : List Product) → q ∈ reachAll ps → q ∈ graphAll ps
  | [], h => h
  | p :: ps, h => by
    rw [reachAll] at h
    rw [graphAll]
    rcases List.mem_append.1 h with h | h
    · exact List.mem_append_left _ (mem_graph_of_mem_reach p h)
    · exact List.mem_append_right _ (mem_graphAll_of_mem_reachAll ps h)

end

theorem mem_graph_self (p : Product) : p ∈ p.graph := by
  rw [graph_eq]
  exact List.mem_cons_self

theorem mem_graph_of_mem_provided {p q : Product} (h : q ∈ p.provided) : q ∈ p.graph := by
  rw [graph_eq]
  refine List.mem_cons_of_mem p (List.mem_append_left _ ?_)
  exact List.mem_flatMap.2 ⟨q, h, q.mem_graph_self⟩

theorem mem_graph_of_mem_derived {p d q : Product} (h : d ∈ p.derived) (hq : q ∈ d.graph) :
    q ∈ p.graph := by
  rw [graph_eq]
  refine List.mem_cons_of_mem p (List.mem_append_right _ ?_)
  exact List.mem_flatMap.2 ⟨d, Option.mem_toList.2 h, hq⟩

end Product

theorem firstById_sublist (seen : List String) (ps : List Product) :
    (firstById seen ps).Sublist ps := by
  induction ps generalizing seen with
  | nil => exact List.Sublist.slnil
  | cons p ps ih =>
    rw [firstById]
    split
    · exact (ih seen).cons p
    · exact (ih (p.id :: seen)).cons_cons p

/-- Of the products with one id the first is kept: the others stand behind it. -/
theorem exists_mem_firstById {seen : List String} {ps : List Product} {p : Product} (hp : p ∈ ps)
    (hid : p.id ∉ seen) : ∃ q ∈ firstById seen ps, q.id = p.id ∧
      (q = p ∨ ∃ before after, ps = before ++ p :: after ∧ q ∈ before) := by
  induction ps generalizing seen with
  | nil => cases hp
  | cons first rest ih =>
    by_cases hfirst : first.id = p.id
    · have hkept : first ∈ firstById seen (first :: rest) := by
        simp [firstById, hfirst, hid]
      refine ⟨first, hkept, hfirst, ?_⟩
      rcases List.mem_cons.1 hp with rfl | hp
      · exact .inl rfl
      · obtain ⟨before, after, rfl⟩ := List.append_of_mem hp
        exact .inr ⟨first :: before, after, rfl, List.mem_cons_self⟩
    · have hp : p ∈ rest := (List.mem_cons.1 hp).resolve_left fun he => hfirst (he ▸ rfl)
      -- The first one has another id, so that its own does not keep this product out.
      have hrest : ∃ seen', p.id ∉ seen' ∧
          ∀ q ∈ firstById seen' rest, q ∈ firstById seen (first :: rest) := by
        rw [firstById]
        split
        · exact ⟨seen, hid, fun _ hq => hq⟩
        · refine ⟨first.id :: seen, ?_, fun _ => List.mem_cons_of_mem first⟩
          simpa [Ne.symm hfirst] using hid
      obtain ⟨seen', hid, hkept⟩ := hrest
      obtain ⟨q, hq, hqid, hbehind⟩ := ih hp hid
      refine ⟨q, hkept q hq, hqid, hbehind.imp_right ?_⟩
      rintro ⟨before, after, rfl, hbefore⟩
      exact ⟨first :: before, after, rfl, List.mem_cons_of_mem first hbefore⟩

/-- What an entitlement grants belongs to the product of the pool. -/
theorem mem_graph_of_mem_grantedProducts {pool : Pool} {consumer : Consumer} {p : Product}
    (h : p ∈ grantedProducts pool consumer) : p ∈ pool.product.graph := by
  have h := (firstById_sublist [] _).subset h
  rcases List.mem_append.1 h with h | h
  · rcases List.mem_cons.1 h with rfl | h
    · exact Product.mem_graph_self _
    · exact Product.mem_graph_of_mem_provided h
  · split at h
    · obtain ⟨d, hd, h⟩ := List.mem_flatMap.1 h
      refine Product.mem_graph_of_mem_derived (Option.mem_toList.1 hd) ?_
      rcases List.mem_cons.1 h with rfl | h
      · exact Product.mem_graph_self _
      · exact Product.mem_graph_of_mem_provided h
    · cases h

/-! ### Contents as they are shown -/

/-- The number of the content has 64 bits, and its path holds no zero character. -/
structure ContentModel.IsClean (c : ContentModel) : Prop where
  fits : c.Fits
  path : '\u0000' ∉ c.path.toList

/-- So it is with all contents that are shown under the product. -/
def ProductModel.IsClean (p : ProductModel) : Prop :=
  ∀ c ∈ p.contents, c.IsClean

/-- **A clean content is shown as one**, whatever stands in front of its path. -/
theorem Content.IsClean.contentModel {c : Content} (h : c.IsClean) (promoted : PromotedContent)
    (enabled : Bool) (productArches : List String) :
    (contentModel c (promoted.path c) enabled productArches).IsClean := by
  refine ⟨h.metadataExpire, ?_⟩
  show '\u0000' ∉ (promoted.template.build (promoted.winner c.id) c.url).toList
  cases habsolute : PathTemplate.isAbsolute c.url with
  | true =>
    rw [PathTemplate.build_of_absolute habsolute]
    exact h.url
  | false => exact PathTemplate.zero_notMem_build habsolute _ _

theorem unscopedModels_isClean {template : PathTemplate} {contents : List ProductContent}
    (h : ∀ pc ∈ contents, pc.content.IsClean) :
    ∀ c ∈ unscopedModels template contents, c.IsClean := by
  intro c hc
  obtain ⟨pc, hpc, rfl⟩ := List.mem_map.1 hc
  exact (h pc hpc).contentModel _ _ _

theorem mergeContents_isClean {contents : List ProductContent}
    (h : ∀ pc ∈ contents, pc.content.IsClean) :
    ∀ pc ∈ mergeContents contents, pc.content.IsClean := by
  intro pc hpc
  obtain ⟨pc', hpc', heq⟩ := List.mem_map.1 (mem_mergeContents hpc)
  exact heq ▸ h pc' hpc'

namespace ContentView

variable {v : ContentView} {sku p : Product} {ms : List ProductModel} {seen : List String}

theorem contentModels_isClean (h : p.CarriesClean) : ∀ c ∈ v.contentModels sku p, c.IsClean := by
  intro c hc
  obtain ⟨pc, hpc, rfl⟩ := List.mem_map.1 hc
  have hfirst := List.mem_of_mem_filter (List.mem_of_mem_filter hpc)
  exact (h pc ((firstContents_sublist [] p.contents).subset hfirst)).contentModel _ _ _

theorem dropSeen_sublist (seen : List String) (cs : List ContentModel) :
    (dropSeen seen cs).Sublist cs := by
  induction cs generalizing seen with
  | nil => exact List.Sublist.slnil
  | cons c cs ih =>
    rw [dropSeen]
    split
    · exact (ih seen).cons c
    · exact (ih (c.id :: seen)).cons_cons c

/-- What stands under the first product that has it is clean if all products are. -/
theorem firstUnder_isClean (h : ∀ m ∈ ms, m.IsClean) : ∀ m ∈ firstUnder seen ms, m.IsClean := by
  induction ms generalizing seen with
  | nil => exact nofun
  | cons m ms ih =>
    rw [List.forall_mem_cons] at h
    rw [firstUnder]
    refine List.forall_mem_cons.2 ⟨fun c hc => ?_, ih h.2⟩
    exact h.1 c ((dropSeen_sublist seen m.contents).subset hc)

theorem createProducts_isClean {products : List Product} {pool : Option Pool}
    (h : ∀ p ∈ products, p.CarriesClean) :
    ∀ m ∈ v.createProducts sku products pool, m.IsClean := by
  refine firstUnder_isClean fun m hm => ?_
  obtain ⟨p, hp, rfl⟩ := List.mem_map.1 hm
  exact contentModels_isClean (h p (List.mem_of_mem_filter hp))

end ContentView

/-! ### Bodies -/

/-- A body that is read back from its text, and of whose paths none holds a zero character. -/
structure EntitlementBody.IsClean (b : EntitlementBody) : Prop where
  fits : b.Fits
  paths : ∀ path ∈ b.contentPaths, '\u0000' ∉ path.toList

namespace EntitlementBody

theorem zero_notMem_contentPaths {b : EntitlementBody} (h : ∀ p ∈ b.products, p.IsClean) :
    ∀ path ∈ b.contentPaths, '\u0000' ∉ path.toList := by
  intro path hpath
  obtain ⟨p, hp, hpath⟩ := List.mem_flatMap.1 hpath
  obtain ⟨c, hc, rfl⟩ := List.mem_map.1 hpath
  exact (h p hp c hc).path

theorem IsClean.contentOnly {consumer : String} {products : List ProductModel}
    (h : ∀ p ∈ products, p.IsClean) : (EntitlementBody.contentOnly consumer products).IsClean where
  fits := .contentOnly fun p hp c hc => (h p hp c hc).fits
  paths := zero_notMem_contentPaths h

end EntitlementBody

theorem isInt64_of_lt {n : Nat} (h : n < Nat.pow 2 63) : IsInt64 (Int.ofNat n) :=
  ⟨Int.le_trans (by decide) (Int.natCast_nonneg n), Int.ofNat_lt.2 h⟩

theorem isInt64_of_readInt64? {s : String} {n : Int} (h : Text.readInt64? s = some n) :
    IsInt64 n := by
  unfold Text.readInt64? at h
  split at h
  · obtain ⟨m, hm, rfl⟩ := Option.map_eq_some_iff.1 h
    obtain ⟨k, hk, hm⟩ := Option.bind_eq_some_iff.1 hm
    cases hm
    have hle := of_decide_eq_true (Option.filter_eq_some_iff.1 hk).2
    exact ⟨Int.neg_le_neg (Int.ofNat_le.2 hle),
      Int.lt_of_le_of_lt (Int.neg_nonpos_of_nonneg (Int.natCast_nonneg k)) (by decide)⟩
  · obtain ⟨m, hm, rfl⟩ := Option.map_eq_some_iff.1 h
    exact isInt64_of_lt (of_decide_eq_true (Option.filter_eq_some_iff.1 hm).2)
  · obtain ⟨m, hm, rfl⟩ := Option.map_eq_some_iff.1 h
    exact isInt64_of_lt (of_decide_eq_true (Option.filter_eq_some_iff.1 hm).2)

theorem isInt64_of_intAttr? {p : Product} {name : String} : ∀ n ∈ p.intAttr? name, IsInt64 n := by
  intro n hn
  obtain ⟨s, -, hs⟩ := Option.bind_eq_some_iff.1 hn
  exact isInt64_of_readInt64? hs

theorem subscriptionModel_fits (pool : Pool) : (subscriptionModel pool).Fits where
  warning n hn := isInt64_of_intAttr? n (Option.filter_eq_some_iff.1 hn).1
  sockets := isInt64_of_intAttr?
  ram := isInt64_of_intAttr?
  cores := isInt64_of_intAttr?

/-- **The body of an entitlement to a clean pool is clean.** -/
theorem entitlementBody_isClean {pool : Pool} {quantity : Int} {products : List ProductModel}
    (hpool : IsInt64 pool.quantity) (hquantity : IsInt64 quantity)
    (hproducts : ∀ p ∈ products, p.IsClean) (consumerUuid : String) :
    (entitlementBody consumerUuid pool quantity products).IsClean where
  fits := {
    quantity := by
      rintro n ⟨⟩
      exact hquantity
    subscription := by
      rintro s ⟨⟩
      exact subscriptionModel_fits pool
    order := by
      rintro o ⟨⟩
      exact hpool
    products := fun p hp c hc => (hproducts p hp c hc).fits }
  paths := EntitlementBody.zero_notMem_contentPaths hproducts

/-- **So is the body of what anonymous consumers get**, whoever it is for. -/
theorem anonymousBody_isClean {contents : List ContentModel} (h : ∀ c ∈ contents, c.IsClean)
    (consumer : String) : (anonymousBody consumer contents).IsClean := by
  refine .contentOnly fun p hp => ?_
  rw [List.mem_singleton.1 hp]
  exact h

end EntitlementAuthority
