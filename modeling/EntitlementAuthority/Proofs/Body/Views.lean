import EntitlementAuthority.Body.Assembly

/-!
# When two views show the same

Two views of one product agree exactly if they agree on every content that the product carries,
one content at a time. Whatever decides what a consumer sees can then be compared content by
content.

* `ContentView.shows` — the three filters as one test.
* `ContentView.ShowsAlike` — two views show a content in the same way, or both hide it.
* `ContentView.contentModels_eq_iff` — equal models are the same as contents shown alike.
* `ContentView.createProducts_congr`, `ContentView.createProducts_eq_bare_iff` — what that means
  for the products of a certificate.
* `mergeContents_sorted` — merged contents stand in the strict order of their ids.
-/

namespace EntitlementAuthority

/-! ### The contents of a product, each once -/

theorem firstContents_sublist (seen : List String) (pcs : List ProductContent) :
    (firstContents seen pcs).Sublist pcs := by
  induction pcs generalizing seen with
  | nil => exact List.Sublist.slnil
  | cons pc rest ih =>
    rw [firstContents]
    split
    · exact (ih seen).cons pc
    · exact (ih (pc.content.id :: seen)).cons_cons pc

theorem notMem_of_mem_firstContents {seen : List String} {pcs : List ProductContent}
    {pc : ProductContent} (h : pc ∈ firstContents seen pcs) : pc.content.id ∉ seen := by
  induction pcs generalizing seen with
  | nil => exact absurd h List.not_mem_nil
  | cons c rest ih =>
    rw [firstContents] at h
    split at h
    · exact ih h
    · rename_i hc
      rcases List.mem_cons.1 h with rfl | h
      · intro hm
        exact hc (List.contains_iff_mem.2 hm)
      · intro hm
        exact ih h (List.mem_cons_of_mem _ hm)

/-- No two of the contents have the same id. -/
theorem firstContents_nodup (seen : List String) (pcs : List ProductContent) :
    ((firstContents seen pcs).map (·.content.id)).Nodup := by
  induction pcs generalizing seen with
  | nil => exact List.nodup_nil
  | cons pc rest ih =>
    rw [firstContents]
    split
    · exact ih seen
    · rw [List.map_cons, List.nodup_cons]
      refine ⟨?_, ih _⟩
      intro hm
      obtain ⟨c, hc, hid⟩ := List.mem_map.1 hm
      apply notMem_of_mem_firstContents hc
      rw [hid]
      exact List.mem_cons_self

/-- Contents that are all different are kept as they are. -/
theorem firstContents_eq_self {seen : List String} {pcs : List ProductContent}
    (hd : (pcs.map (·.content.id)).Nodup) (hs : ∀ pc ∈ pcs, pc.content.id ∉ seen) :
    firstContents seen pcs = pcs := by
  induction pcs generalizing seen with
  | nil => rfl
  | cons pc rest ih =>
    rw [List.map_cons, List.nodup_cons] at hd
    have hpc : ¬ seen.contains pc.content.id = true := by
      rw [List.contains_iff_mem]
      exact hs pc List.mem_cons_self
    rw [firstContents, if_neg hpc, ih hd.2]
    intro c hc hm
    rcases List.mem_cons.1 hm with he | hm
    · exact hd.1 (he ▸ List.mem_map_of_mem hc)
    · exact hs c (List.mem_cons_of_mem _ hc) hm

theorem mem_ownContentIds_of_mem_firstContents {p : Product} {pc : ProductContent}
    (h : pc ∈ firstContents [] p.contents) : pc.content.id ∈ p.ownContentIds :=
  List.mem_map_of_mem ((firstContents_sublist [] p.contents).subset h)

theorem mem_grantedContentIds_iff {pool : Pool} {consumer : Consumer} {x : String} :
    x ∈ grantedContentIds pool consumer ↔
      ∃ p ∈ grantedProducts pool consumer, x ∈ p.ownContentIds := by
  rw [grantedContentIds, Text.mem_sortedSet, List.mem_flatMap]

/-! ### Merged contents -/

/-- A merged content is the one that was entered or one of those before. -/
theorem mem_mergeContent {pc c : ProductContent} {pcs : List ProductContent}
    (h : c ∈ mergeContent pc pcs) :
    c.content = pc.content ∨ c.content ∈ pcs.map (·.content) := by
  induction pcs with
  | nil =>
    rw [mergeContent, List.mem_singleton] at h
    exact .inl (congrArg (·.content) h)
  | cons other rest ih =>
    rw [mergeContent] at h
    rw [List.map_cons, List.mem_cons]
    split at h
    · rcases List.mem_cons.1 h with rfl | h
      · exact .inl rfl
      · exact .inr (List.mem_cons.1 (List.mem_map_of_mem (f := (·.content)) h))
    · split at h
      · rcases List.mem_cons.1 h with rfl | h
        · exact .inr (.inl rfl)
        · exact .inr (.inr (List.mem_map_of_mem (f := (·.content)) h))
      · rcases List.mem_cons.1 h with rfl | h
        · exact .inr (.inl rfl)
        · exact (ih h).imp_right .inr

theorem mem_foldl_mergeContent {c : ProductContent} {pcs merged : List ProductContent}
    (h : c ∈ pcs.foldl (fun merged pc => mergeContent pc merged) merged) :
    c.content ∈ merged.map (·.content) ∨ c.content ∈ pcs.map (·.content) := by
  induction pcs generalizing merged with
  | nil => exact .inl (List.mem_map_of_mem h)
  | cons pc pcs ih =>
    rw [List.map_cons, List.mem_cons]
    rcases ih h with hmerged | hrest
    · obtain ⟨c', hc', he⟩ := List.mem_map.1 hmerged
      rw [← he]
      rcases mem_mergeContent hc' with hnew | hold
      · exact .inr (.inl hnew)
      · exact .inl hold
    · exact .inr (.inr hrest)

/-- Merging adds no contents. -/
theorem mem_mergeContents {c : ProductContent} {pcs : List ProductContent}
    (h : c ∈ mergeContents pcs) : c.content ∈ pcs.map (·.content) :=
  (mem_foldl_mergeContent h).resolve_left List.not_mem_nil

/-- Contents in the strict order of their ids. -/
def InIdOrder (pcs : List ProductContent) : Prop :=
  pcs.Pairwise fun a b => a.content.id < b.content.id

theorem InIdOrder.nodup {pcs : List ProductContent} (h : InIdOrder pcs) :
    (pcs.map (·.content.id)).Nodup := by
  rw [List.Nodup, List.pairwise_map]
  refine h.imp ?_
  intro a b hab he
  rw [he] at hab
  exact String.lt_irrefl _ hab

theorem mergeContent_sorted {pc : ProductContent} {pcs : List ProductContent}
    (h : InIdOrder pcs) : InIdOrder (mergeContent pc pcs) := by
  induction pcs with
  | nil => exact List.pairwise_singleton _ _
  | cons other rest ih =>
    obtain ⟨hother, hrest⟩ := List.pairwise_cons.1 h
    rw [mergeContent]
    split
    · rename_i hlt
      refine List.pairwise_cons.2 ⟨?_, h⟩
      intro c hc
      rcases List.mem_cons.1 hc with rfl | hc
      · exact hlt
      · exact String.lt_trans hlt (hother c hc)
    · split
      · exact List.pairwise_cons.2 ⟨hother, hrest⟩
      · rename_i hnlt hne
        refine List.pairwise_cons.2 ⟨?_, ih hrest⟩
        intro c hc
        rcases mem_mergeContent hc with hid | hid
        · rw [hid]
          exact Std.lt_of_le_of_ne (String.not_lt.1 hnlt) (Ne.symm hne)
        · obtain ⟨c', hc', he⟩ := List.mem_map.1 hid
          rw [← he]
          exact hother c' hc'

theorem foldl_mergeContent_sorted {pcs merged : List ProductContent} (h : InIdOrder merged) :
    InIdOrder (pcs.foldl (fun merged pc => mergeContent pc merged) merged) := by
  induction pcs generalizing merged with
  | nil => exact h
  | cons pc rest ih => exact ih (mergeContent_sorted h)

/-- Merged contents stand in the strict order of their ids. -/
theorem mergeContents_sorted (pcs : List ProductContent) : InIdOrder (mergeContents pcs) :=
  foldl_mergeContent_sorted List.Pairwise.nil

/-- What has been merged holds every content once. -/
theorem firstContents_mergeContents (pcs : List ProductContent) :
    firstContents [] (mergeContents pcs) = mergeContents pcs :=
  firstContents_eq_self (mergeContents_sorted pcs).nodup fun _ _ => List.not_mem_nil

/-! ### Filtered lists with keys -/

section Filtered

variable {α β κ : Type} {f g : α → β}

/-- Two selections from a list whose elements can be told apart by a key give the same list
exactly if they select the same elements and map them to the same. -/
theorem filter_map_eq_iff (k : α → κ) (key : β → κ) {p q : α → Bool} (hf : ∀ x, key (f x) = k x)
    (hg : ∀ x, key (g x) = k x) {l : List α} (hl : (l.map k).Nodup) :
    (l.filter p).map f = (l.filter q).map g ↔ ∀ x ∈ l, p x = q x ∧ (p x = true → f x = g x) := by
  induction l with
  | nil => simp
  | cons x l ih =>
    rw [List.map_cons, List.nodup_cons] at hl
    have ih := ih hl.2
    -- an element that only one side selects would have its key once more further back
    have once : ∀ {r : α → Bool} {h : α → β}, (∀ y, key (h y) = k y) →
        ∀ b ∈ (l.filter r).map h, key b ≠ k x := by
      intro r h hh b hb he
      obtain ⟨y, hy, rfl⟩ := List.mem_map.1 hb
      rw [hh y] at he
      exact hl.1 (he ▸ List.mem_map_of_mem (List.mem_filter.1 hy).1)
    rw [List.forall_mem_cons, ← ih]
    cases hp : p x <;> cases hq : q x
    · simp [hp, hq]
    · simp only [List.filter_cons_of_pos hq, List.filter_cons_of_neg (Bool.not_eq_true _ ▸ hp),
        List.map_cons, Bool.false_eq_true, false_and, iff_false]
      intro he
      exact once hf (g x) (he ▸ List.mem_cons_self) (hg x)
    · simp only [List.filter_cons_of_pos hp, List.filter_cons_of_neg (Bool.not_eq_true _ ▸ hq),
        List.map_cons, Bool.true_eq_false, false_and, iff_false]
      intro he
      exact once hg (f x) (he ▸ List.mem_cons_self) (hf x)
    · simp [hp, hq]

end Filtered

/-! ### Views -/

theorem enabledMark_inj {b b' : Bool} : enabledMark b = enabledMark b' ↔ b = b' := by
  cases b <;> cases b' <;> simp [enabledMark]

theorem contentModel_inj {c : Content} {path path' : String} {enabled enabled' : Bool}
    {arches : List String} :
    contentModel c path enabled arches = contentModel c path' enabled' arches ↔
      path = path' ∧ enabled = enabled' := by
  simp [contentModel, enabledMark_inj]

namespace ContentView

variable (v w : ContentView) (sku p : Product)

/-- Whether the consumer sees a content: it is entitled to it, an environment promotes it, and
it fits. -/
def shows (c : Content) : Bool :=
  v.isEntitled c && v.isUnhidden c && v.fitsArch c

/-- Two views show a content of a product in the same way, or both hide it. -/
def ShowsAlike (pc : ProductContent) : Prop :=
  v.shows pc.content = w.shows pc.content ∧
    (v.shows pc.content = true →
      v.promoted.path pc.content = w.promoted.path pc.content ∧
        v.contentEnabled sku pc = w.contentEnabled sku pc)

theorem visibleContent_eq :
    v.visibleContent p = (firstContents [] p.contents).filter fun pc => v.shows pc.content := by
  simp only [visibleContent, filterContent, shows, List.filter_filter, Bool.and_comm]

variable {v w sku p}

/-- **Views agree on a product exactly if they show each of its contents alike.** -/
theorem contentModels_eq_iff :
    v.contentModels sku p = w.contentModels sku p ↔
      ∀ pc ∈ firstContents [] p.contents, ShowsAlike v w sku pc := by
  simp only [contentModels, visibleContent_eq]
  rw [filter_map_eq_iff (·.content.id) ContentModel.id (fun _ => rfl) (fun _ => rfl)
    (firstContents_nodup [] p.contents)]
  simp only [contentModel_inj, ShowsAlike]

theorem contentModels_eq_nil (h : ∀ pc ∈ firstContents [] p.contents, v.shows pc.content = false) :
    v.contentModels sku p = [] := by
  rw [contentModels, visibleContent_eq, List.map_eq_nil_iff, List.filter_eq_nil_iff]
  intro pc hpc
  simp [h pc hpc]

theorem mapProduct_congr {pool : Option Pool} (h : v.contentModels sku p = w.contentModels sku p) :
    v.mapProduct p sku pool = w.mapProduct p sku pool := by
  rw [mapProduct, mapProduct, h]

variable {products : List Product} {pool : Option Pool}

/-- Views that agree on every engineering product make the same products of a certificate. -/
theorem createProducts_congr
    (h : ∀ p ∈ products.filter Product.isEngineering,
      v.contentModels sku p = w.contentModels sku p) :
    v.createProducts sku products pool = w.createProducts sku products pool := by
  have hmap : ((products.filter Product.isEngineering).map fun p => v.mapProduct p sku pool) =
      (products.filter Product.isEngineering).map fun p => w.mapProduct p sku pool := by
    refine List.map_congr_left ?_
    intro p hp
    exact mapProduct_congr (h p hp)
  rw [createProducts, createProducts, hmap]

/-- A product with its contents taken out. -/
def withoutContents (m : ProductModel) : ProductModel :=
  { m with contents := [] }

theorem firstUnder_map_withoutContents (seen : List String) (ms : List ProductModel) :
    (firstUnder seen ms).map withoutContents = ms.map withoutContents := by
  induction ms generalizing seen with
  | nil => rfl
  | cons m ms ih =>
    rw [firstUnder, List.map_cons, List.map_cons, ih]
    rfl

theorem withoutContents_mapProduct (v : ContentView) (p sku : Product) (pool : Option Pool) :
    withoutContents (v.mapProduct p sku pool) = productModel p pool := rfl

/-- Without their contents, the products of a certificate do not depend on the view. -/
theorem createProducts_map_withoutContents (v : ContentView) (sku : Product)
    (products : List Product) (pool : Option Pool) :
    (v.createProducts sku products pool).map withoutContents =
      (products.filter Product.isEngineering).map (productModel · pool) := by
  rw [createProducts, firstUnder_map_withoutContents, List.map_map]
  refine List.map_congr_left ?_
  intro p _
  exact withoutContents_mapProduct v p sku pool

theorem firstUnder_eq_self {seen : List String} {ms : List ProductModel}
    (h : ∀ m ∈ ms, m.contents = []) : firstUnder seen ms = ms := by
  induction ms generalizing seen with
  | nil => rfl
  | cons m ms ih =>
    have hm := h m List.mem_cons_self
    rw [firstUnder, ih fun m' hm' => h m' (List.mem_cons_of_mem _ hm')]
    rw [hm, dropSeen, ← hm]

/-- The products of a certificate are bare exactly if none of them has a content. -/
theorem createProducts_eq_bare_iff :
    v.createProducts sku products pool =
        (products.filter Product.isEngineering).map (productModel · pool) ↔
      ∀ m ∈ v.createProducts sku products pool, m.contents = [] := by
  constructor
  · intro h m hm
    rw [h] at hm
    obtain ⟨p, -, rfl⟩ := List.mem_map.1 hm
    rfl
  · intro h
    rw [← createProducts_map_withoutContents v sku]
    refine (List.map_id _).symm.trans (List.map_congr_left ?_)
    intro m hm
    rw [withoutContents, ← h m hm]
    rfl

/-- A view that shows none of the contents makes bare products. -/
theorem createProducts_eq_bare
    (h : ∀ p ∈ products.filter Product.isEngineering, v.contentModels sku p = []) :
    v.createProducts sku products pool =
      (products.filter Product.isEngineering).map (productModel · pool) := by
  have hmap : ((products.filter Product.isEngineering).map fun p => v.mapProduct p sku pool) =
      (products.filter Product.isEngineering).map (productModel · pool) := by
    refine List.map_congr_left ?_
    intro p hp
    rw [mapProduct, h p hp]
    rfl
  rw [createProducts, hmap]
  refine firstUnder_eq_self ?_
  intro m hm
  obtain ⟨p, -, rfl⟩ := List.mem_map.1 hm
  rfl

end ContentView

end EntitlementAuthority
