import EntitlementAuthority.Issuance.AnonymousAccess
import EntitlementAuthority.Proofs.Body.Views
import Mathlib.Data.List.Induction
import Mathlib.Data.List.Sort
import Mathlib.Logic.Relation

/-!
# Merging contents in any order

The contents of an owner are gathered from all graphs of its pools, those of anonymous consumers
from what their products provide. A content may occur in many places of these graphs, and nobody
promises in which order the places are visited.

* `Product.mem_graph_iff`, `Product.mem_reach_iff` — graphs as what can be reached step by step.
* `IsMergeOf` — the merge of contents that occur somewhere, said without a merging procedure.
* `isMergeOf_mergeContents` — entering one content after the other makes such a merge.
* `MergedAlike`, `IsMergeOf.mergedAlike` — what two merges of the same contents have in common.
* `merged_in_any_order` — what that means for owners and for anonymous consumers.
-/

namespace EntitlementAuthority

open Relation (ReflTransGen)

/-! ### Graphs of products -/

namespace Product

/-- The first product provides the second one itself. -/
def Provides (p q : Product) : Prop :=
  q ∈ p.provided

/-- The first product provides the second one itself, or that is derived from it. -/
def LeadsTo (p q : Product) : Prop :=
  q ∈ p.provided ∨ q ∈ p.derived

theorem LeadsTo.sizeOf_lt {p q : Product} (h : p.LeadsTo q) : sizeOf q < sizeOf p := by
  obtain ⟨id, name, attributes, contents, provided, derived, branding, ns⟩ := p
  rw [mk.sizeOf_spec]
  rcases h with h | h
  · have hlt := List.sizeOf_lt_of_mem h
    dsimp only at hlt
    omega
  · obtain rfl := Option.mem_def.1 h
    rw [Option.some.sizeOf_spec]
    omega

/-- What is so of a product if it is so of those that it leads to is so of all products. -/
theorem graph_induction {motive : Product → Prop}
    (step : ∀ p, (∀ q, p.LeadsTo q → motive q) → motive p) (p : Product) : motive p :=
  step p fun q _ => graph_induction step q
termination_by sizeOf p
decreasing_by exact LeadsTo.sizeOf_lt ‹_›

theorem mem_graph_cases {p q : Product} :
    q ∈ p.graph ↔ q = p ∨ ∃ r, p.LeadsTo r ∧ q ∈ r.graph := by
  rw [graph_eq, List.mem_cons, List.mem_append, List.mem_flatMap, List.mem_flatMap]
  simp only [Option.mem_toList, Option.mem_def, LeadsTo, or_and_right, exists_or]

theorem mem_reach_cases {p q : Product} :
    q ∈ p.reach ↔ q = p ∨ ∃ r, p.Provides r ∧ q ∈ r.reach := by
  rw [reach_eq, List.mem_cons, List.mem_flatMap]
  rfl

/-- A list that holds the product itself and the lists of all that one step leads to holds what is
reached in any number of steps. -/
theorem mem_iff_of_cases {f : Product → List Product} {R : Product → Product → Prop}
    (hR : ∀ p q, R p q → p.LeadsTo q) (hf : ∀ p q, q ∈ f p ↔ q = p ∨ ∃ r, R p r ∧ q ∈ f r)
    {p q : Product} : q ∈ f p ↔ ReflTransGen R p q := by
  constructor
  · induction p using graph_induction with
    | step p ih =>
      intro h
      rcases (hf p q).1 h with rfl | ⟨r, hr, hq⟩
      · exact .refl
      · exact .head hr (ih r (hR p r hr) hq)
  · intro h
    induction h using ReflTransGen.head_induction_on with
    | refl => exact (hf q q).2 (.inl rfl)
    | head hr _ ih => exact (hf _ q).2 (.inr ⟨_, hr, ih⟩)

/-- The graph of a product holds what it leads to in any number of steps. -/
theorem mem_graph_iff {p q : Product} : q ∈ p.graph ↔ ReflTransGen LeadsTo p q :=
  mem_iff_of_cases (fun _ _ h => h) fun _ _ => mem_graph_cases

/-- A product reaches what is provided in any number of steps. -/
theorem mem_reach_iff {p q : Product} : q ∈ p.reach ↔ ReflTransGen Provides p q :=
  mem_iff_of_cases (fun _ _ => .inl) fun _ _ => mem_reach_cases

/-- A product reaches itself and those that it provides. -/
theorem mem_reach_of_mem {p q : Product} (h : q ∈ p :: p.provided) : q ∈ p.reach := by
  rcases List.mem_cons.1 h with rfl | h
  · exact mem_reach_iff.2 .refl
  · exact mem_reach_iff.2 (.single h)

end Product

/-! ### Merges -/

/-- The merge of all contents that occur somewhere. -/
structure IsMergeOf (occurs : ProductContent → Prop) (merged : List ProductContent) : Prop where
  /-- They stand in ascending order of their ids, so that no id is there twice. -/
  ordered : InIdOrder merged
  /-- Every id that occurs is there. -/
  complete : ∀ o, occurs o → ∃ c ∈ merged, c.content.id = o.content.id
  /-- Every record that is there occurs with the id. -/
  record : ∀ c ∈ merged, ∃ o, occurs o ∧ o.content = c.content
  /-- A content is enabled if it is so anywhere. -/
  enabled : ∀ c ∈ merged, c.enabled = true ↔
    ∃ o, occurs o ∧ o.content.id = c.content.id ∧ o.enabled = true

/-- What is there after a content was entered: all with other ids as they were, and either the one
with its id, enabled if the new one is, or the new one. -/
theorem mem_mergeContent_iff {pc c : ProductContent} {merged : List ProductContent}
    (h : InIdOrder merged) :
    c ∈ mergeContent pc merged ↔
      (c ∈ merged ∧ c.content.id ≠ pc.content.id) ∨
      (∃ other ∈ merged, other.content.id = pc.content.id ∧
        c = { other with enabled := other.enabled || pc.enabled }) ∨
      ((∀ other ∈ merged, other.content.id ≠ pc.content.id) ∧ c = pc) := by
  induction merged with
  | nil => simp [mergeContent]
  | cons first rest ih =>
    obtain ⟨hfirst, hrest⟩ := List.pairwise_cons.1 h
    have ih := ih hrest
    rw [mergeContent]
    split
    · rename_i hlt
      -- the new id comes before all others, so it is none of them
      have hnew : ∀ other ∈ first :: rest, other.content.id ≠ pc.content.id := by
        intro other hother he
        rcases List.mem_cons.1 hother with rfl | hother
        · exact String.lt_irrefl _ (he ▸ hlt)
        · exact String.lt_irrefl _ (he ▸ String.lt_trans hlt (hfirst other hother))
      grind
    · split
      · rename_i heq
        have honce : ∀ other ∈ rest, other.content.id ≠ pc.content.id := by
          intro other hother he
          exact String.lt_irrefl _ ((he.trans heq) ▸ hfirst other hother)
        grind
      · grind

namespace IsMergeOf

variable {occurs occurs' : ProductContent → Prop} {merged merged' : List ProductContent}
  {pc : ProductContent}

/-- One more content that occurs is entered. -/
theorem mergeContent (h : IsMergeOf occurs merged) (pc : ProductContent) :
    IsMergeOf (fun o => occurs o ∨ o = pc) (mergeContent pc merged) where
  ordered := mergeContent_sorted h.ordered
  complete := by
    have hcomplete := h.complete
    simp only [mem_mergeContent_iff h.ordered]
    rintro o (ho | rfl)
    · obtain ⟨c, hc, hid⟩ := hcomplete o ho
      by_cases hpc : c.content.id = pc.content.id
      · exact ⟨_, .inr (.inl ⟨c, hc, hpc, rfl⟩), hid⟩
      · exact ⟨c, .inl ⟨hc, hpc⟩, hid⟩
    · by_cases hknown : ∃ c ∈ merged, c.content.id = o.content.id
      · obtain ⟨c, hc, hid⟩ := hknown
        exact ⟨_, .inr (.inl ⟨c, hc, hid, rfl⟩), hid⟩
      · exact ⟨o, .inr (.inr ⟨fun c hc hid => hknown ⟨c, hc, hid⟩, rfl⟩), rfl⟩
  record := by
    intro c hc
    rcases (mem_mergeContent_iff h.ordered).1 hc with ⟨hc, -⟩ | ⟨other, hother, -, rfl⟩ | ⟨-, rfl⟩
    · obtain ⟨o, ho, he⟩ := h.record c hc
      exact ⟨o, .inl ho, he⟩
    · obtain ⟨o, ho, he⟩ := h.record other hother
      exact ⟨o, .inl ho, he⟩
    · exact ⟨c, .inr rfl, rfl⟩
  enabled := by
    intro c hc
    rcases (mem_mergeContent_iff h.ordered).1 hc with
      ⟨hc, hid⟩ | ⟨other, hother, hid, rfl⟩ | ⟨hnew, rfl⟩
    · have henabled := h.enabled c hc
      grind
    · have henabled := h.enabled other hother
      rw [Bool.or_eq_true, henabled]
      grind
    · -- nothing with the id has occurred before
      have hnone : ∀ o, occurs o → o.content.id ≠ c.content.id := by
        intro o ho he
        obtain ⟨c', hc', hid⟩ := h.complete o ho
        exact hnew c' hc' (hid.trans he)
      grind

theorem congr (h : IsMergeOf occurs merged) (hoccurs : ∀ o, occurs o ↔ occurs' o) :
    IsMergeOf occurs' merged := by
  obtain rfl : occurs = occurs' := funext fun o => propext (hoccurs o)
  exact h

/-- The id and the flag of a content in a merge. -/
theorem mem_flags_iff (h : IsMergeOf occurs merged) {id : String} {enabled : Bool} :
    (id, enabled) ∈ merged.map (fun c => (c.content.id, c.enabled)) ↔
      (∃ o, occurs o ∧ o.content.id = id) ∧
        (enabled = true ↔ ∃ o, occurs o ∧ o.content.id = id ∧ o.enabled = true) := by
  rw [List.mem_map]
  constructor
  · rintro ⟨c, hc, he⟩
    rw [Prod.mk.injEq] at he
    obtain ⟨rfl, rfl⟩ := he
    obtain ⟨o, ho, hrecord⟩ := h.record c hc
    exact ⟨⟨o, ho, congrArg Content.id hrecord⟩, h.enabled c hc⟩
  · rintro ⟨⟨o, ho, rfl⟩, henabled⟩
    obtain ⟨c, hc, hid⟩ := h.complete o ho
    have hflag := h.enabled c hc
    rw [hid, ← henabled, ← Bool.eq_iff_iff] at hflag
    exact ⟨c, hc, Prod.ext hid hflag⟩

end IsMergeOf

/-- **Entering one content after the other merges them.** -/
theorem isMergeOf_mergeContents (pcs : List ProductContent) :
    IsMergeOf (· ∈ pcs) (mergeContents pcs) := by
  induction pcs using List.reverseRecOn with
  | nil => exact ⟨.nil, nofun, nofun, nofun⟩
  | append_singleton pcs pc ih =>
    have hlast : mergeContents (pcs ++ [pc]) = mergeContent pc (mergeContents pcs) := by
      unfold mergeContents
      rw [List.foldl_append, List.foldl_cons, List.foldl_nil]
    rw [hlast]
    refine (ih.mergeContent pc).congr fun o => ?_
    rw [List.mem_append, List.mem_singleton]

/-! ### What two merges have in common -/

/-- Contents that occur with the same id have the same record. -/
def RecordsAgree (occurs : ProductContent → Prop) : Prop :=
  ∀ o o', occurs o → occurs o' → o.content.id = o'.content.id → o.content = o'.content

/-- Two merges of what occurs have the same ids in the same order with the same flags, and are the
same if the records agree. -/
structure MergedAlike (occurs : ProductContent → Prop) (merged merged' : List ProductContent) :
    Prop where
  flags : merged.map (fun c => (c.content.id, c.enabled)) =
    merged'.map (fun c => (c.content.id, c.enabled))
  whole : RecordsAgree occurs → merged = merged'

namespace IsMergeOf

variable {occurs : ProductContent → Prop} {merged merged' : List ProductContent}

theorem mem_of_mem (h : IsMergeOf occurs merged) (h' : IsMergeOf occurs merged')
    (hagree : RecordsAgree occurs) {c : ProductContent} (hc : c ∈ merged) : c ∈ merged' := by
  obtain ⟨o, ho, hrecord⟩ := h.record c hc
  obtain ⟨c', hc', hid⟩ := h'.complete o ho
  obtain ⟨o', ho', hrecord'⟩ := h'.record c' hc'
  have hcontent : c'.content = c.content := by
    rw [← hrecord, ← hrecord']
    exact hagree o' o ho' ho ((congrArg Content.id hrecord').trans hid)
  have hflag : c'.enabled = c.enabled := by
    rw [Bool.eq_iff_iff, h.enabled c hc, h'.enabled c' hc', hcontent]
  obtain rfl : c' = c := by
    cases c
    cases c'
    rw [ProductContent.mk.injEq]
    exact ⟨hcontent, hflag⟩
  exact hc'

/-- **All merges of the same contents are alike.** -/
theorem mergedAlike (h : IsMergeOf occurs merged) (h' : IsMergeOf occurs merged') :
    MergedAlike occurs merged merged' := by
  constructor
  · have hordered : ∀ {m : List ProductContent}, InIdOrder m →
        (m.map fun c => (c.content.id, c.enabled)).Pairwise fun x y => x.1 < y.1 :=
      fun hm => List.pairwise_map.2 hm
    have : Std.Irrefl fun x y : String × Bool => x.1 < y.1 := ⟨fun x => String.lt_irrefl x.1⟩
    refine (hordered h.ordered).eq_of_mem_iff (hordered h'.ordered) fun x => ?_
    rw [h.mem_flags_iff, h'.mem_flags_iff]
  · intro hagree
    have : Std.Irrefl fun c c' : ProductContent => c.content.id < c'.content.id :=
      ⟨fun c => String.lt_irrefl c.content.id⟩
    exact List.Pairwise.eq_of_mem_iff h.ordered h'.ordered fun c =>
      ⟨h.mem_of_mem h' hagree, h'.mem_of_mem h hagree⟩

end IsMergeOf

/-! ### Contents of owners and of anonymous consumers -/

/-- The content occurs in the graph of a pool of the owner. -/
def Directory.OffersContent (d : Directory) (ownerId : String) (pc : ProductContent) : Prop :=
  ∃ pool ∈ d.pools.values, pool.ownerId = ownerId ∧
    ∃ q, ReflTransGen Product.LeadsTo pool.product q ∧ pc ∈ q.contents

/-- The content occurs in one of the products or in what one provides. -/
def AreCarrying (products : List Product) (pc : ProductContent) : Prop :=
  ∃ p ∈ products, ∃ q, ReflTransGen Product.Provides p q ∧ pc ∈ q.contents

theorem offersContent_iff {d : Directory} {ownerId : String} {pc : ProductContent} :
    d.OffersContent ownerId pc ↔ pc ∈ (d.pools.values.filter fun p => p.ownerId == ownerId).flatMap
      fun p => p.product.graph.flatMap (·.contents) := by
  unfold Directory.OffersContent
  simp only [List.mem_flatMap, List.mem_filter, beq_iff_eq, Product.mem_graph_iff, and_assoc]

theorem activeContent_isMergeOf (d : Directory) (ownerId : String) :
    IsMergeOf (d.OffersContent ownerId) (d.activeContent ownerId) :=
  (isMergeOf_mergeContents _).congr fun _ => offersContent_iff.symm

theorem providedContents_isMergeOf (products : List Product) :
    IsMergeOf (AreCarrying products) (providedContents products) := by
  refine (isMergeOf_mergeContents _).congr fun pc => ?_
  unfold AreCarrying
  simp only [List.mem_flatMap, Product.mem_reach_iff]

/-- **Contents are merged alike in any order.** What an owner has is the merge of the contents in
the graphs of its pools, in whatever order these are visited, and what products provide is the
merge of the contents that they and those that they provide carry, in whatever order they stand. -/
theorem merged_in_any_order :
    (∀ (d : Directory) (ownerId : String),
      IsMergeOf (d.OffersContent ownerId) (d.activeContent ownerId) ∧
      ∀ d' : Directory, d.pools.values.Perm d'.pools.values →
        MergedAlike (d.OffersContent ownerId) (d.activeContent ownerId)
          (d'.activeContent ownerId)) ∧
    ∀ products : List Product,
      IsMergeOf (AreCarrying products) (providedContents products) ∧
      ∀ products', products.Perm products' →
        MergedAlike (AreCarrying products) (providedContents products)
          (providedContents products') := by
  constructor
  · intro d ownerId
    refine ⟨activeContent_isMergeOf d ownerId, fun d' hperm => ?_⟩
    refine (activeContent_isMergeOf d ownerId).mergedAlike ?_
    refine (activeContent_isMergeOf d' ownerId).congr fun pc => ?_
    unfold Directory.OffersContent
    simp only [hperm.mem_iff]
  · intro products
    refine ⟨providedContents_isMergeOf products, fun products' hperm => ?_⟩
    refine (providedContents_isMergeOf products).mergedAlike ?_
    refine (providedContents_isMergeOf products').congr fun pc => ?_
    unfold AreCarrying
    simp only [hperm.mem_iff]

/-! ### Two pools in two orders -/

namespace TwoPools

/-- A content. -/
def content (id label : String) : Content :=
  { (default : Content) with id, label }

/-- A pool with a product that carries a content. -/
def pool (id label : String) (enabled : Bool) (derived : Option Product) : Pool where
  id
  ownerId := "owner-1"
  product := { (default : Product) with contents := [⟨content "1000" label, enabled⟩], derived }
  quantity := 1
  startDate := ⟨0, 0⟩
  endDate := ⟨0, 0⟩
  orderNumber := none
  contractNumber := none
  accountNumber := none
  attributes := .empty

/-- It disables the content, and a derived product carries another one. -/
def host : Pool :=
  pool "pool-1" "os" false
    (some { (default : Product) with contents := [⟨content "0900" "guest", true⟩] })

/-- It enables the content, under some label. -/
def plain (label : String) : Pool :=
  pool "pool-2" label true none

/-- A directory with the two pools. -/
def directory (label : String) : Directory :=
  (Directory.empty.addPool host).addPool (plain label)

/-- They have been added the other way round. -/
def swapped (label : String) : Directory :=
  (Directory.empty.addPool (plain label)).addPool host

theorem recordsAgree : RecordsAgree ((directory "os").OffersContent "owner-1") := by
  intro o o' ho ho'
  rw [offersContent_iff] at ho ho'
  revert o'
  revert o
  decide

end TwoPools

open TwoPools

/-- The owner of the two pools has the same contents in both orders. -/
theorem merged_in_any_order_swapped :
    (directory "os").pools.values.Perm (swapped "os").pools.values ∧
      RecordsAgree ((directory "os").OffersContent "owner-1") ∧
      (directory "os").activeContent "owner-1" = (swapped "os").activeContent "owner-1" ∧
      (directory "os").activeContent "owner-1" =
        [⟨content "0900" "guest", true⟩, ⟨content "1000" "os", true⟩] := by
  have hperm : (directory "os").pools.values.Perm (swapped "os").pools.values :=
    List.Perm.swap (plain "os") host []
  have halike := ((merged_in_any_order.1 (directory "os") "owner-1").2 (swapped "os") hperm).whole
  exact ⟨hperm, recordsAgree, halike recordsAgree, by decide⟩

/-- Where the records of a content differ, the one that is visited first is kept. -/
example : (directory "other").activeContent "owner-1" ≠ (swapped "other").activeContent "owner-1" :=
  by decide

end EntitlementAuthority
