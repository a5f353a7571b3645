import EntitlementAuthority.Proofs.Body.Views

/-!
# Which contents a certificate has, and where

A product offers the first entry that it has for a content, if that entry passes the filters. The
certificate has every content that is offered, once, under the first product that offers it.

* `ContentView.Passes`, `ContentView.Offers` — the filters spelled out, and what a product offers.
* `ContentView.Decides` — what decides whether a content is enabled, the strongest word first.
* `ContentView.IsShownAs` — the path and the flag under which an entry is shown.
* `ContentView.createProducts_exact` — which contents the products of a certificate have.
-/

namespace EntitlementAuthority

/-! ### The first of several -/

/-- The entries that are kept are the first ones for their contents. -/
theorem mem_firstContents_iff {seen : List String} {pcs : List ProductContent}
    {pc : ProductContent} :
    pc ∈ firstContents seen pcs ↔
      pc.content.id ∉ seen ∧ pcs.find? (·.content.id == pc.content.id) = some pc := by
  induction pcs generalizing seen with
  | nil => simp [firstContents]
  | cons other rest ih =>
    rw [firstContents, List.find?_cons]
    by_cases hid : other.content.id = pc.content.id
    · have hother : (other.content.id == pc.content.id) = true := beq_iff_eq.2 hid
      rw [hother, hid]
      split
      · rename_i hseen
        have hseen := List.contains_iff_mem.1 hseen
        exact iff_of_false (fun hmem => (ih.1 hmem).1 hseen) fun h => h.1 hseen
      · rename_i hseen
        have hseen : pc.content.id ∉ seen := fun h => hseen (List.contains_iff_mem.2 h)
        -- what comes later for the same content is left out
        have hrest : pc ∉ firstContents (pc.content.id :: seen) rest :=
          fun hmem => (ih.1 hmem).1 List.mem_cons_self
        simp [hrest, hseen, eq_comm]
    · have hother : (other.content.id == pc.content.id) = false := beq_eq_false_iff_ne.2 hid
      have hne : pc ≠ other := by
        rintro rfl
        exact hid rfl
      rw [hother]
      split
      · exact ih
      · rw [List.mem_cons, or_iff_right hne, ih, List.mem_cons, not_or,
          and_iff_right (Ne.symm hid)]

/-- If something holds of a member of a list, it holds of a first one. -/
theorem exists_first_of_mem {α : Type} {P : α → Prop} {l : List α} (h : ∃ a ∈ l, P a) :
    ∃ (i : Nat) (a : α), l[i]? = some a ∧ P a ∧ ∀ b ∈ l.take i, ¬ P b := by
  induction l with
  | nil => simp at h
  | cons a l ih =>
    by_cases ha : P a
    · exact ⟨0, a, rfl, ha, fun b hb => absurd hb List.not_mem_nil⟩
    · obtain ⟨b, hb, hPb⟩ := h
      have hb : b ∈ l := (List.mem_cons.1 hb).resolve_left fun he => ha (he ▸ hPb)
      obtain ⟨i, c, hc, hPc, hbefore⟩ := ih ⟨b, hb, hPb⟩
      refine ⟨i + 1, c, hc, hPc, fun d hd => ?_⟩
      rcases List.mem_cons.1 hd with rfl | hd
      · exact ha
      · exact hbefore d hd

namespace ContentView

/-! ### Contents that stand further up -/

theorem notMem_of_mem_dropSeen {seen : List String} {cs : List ContentModel} {c : ContentModel}
    (h : c ∈ dropSeen seen cs) : c.id ∉ seen := by
  induction cs generalizing seen with
  | nil => cases h
  | cons other rest ih =>
    rw [dropSeen] at h
    split at h
    · exact ih h
    · rename_i hother
      rcases List.mem_cons.1 h with rfl | h
      · exact fun hmem => hother (List.contains_iff_mem.2 hmem)
      · exact fun hmem => ih h (List.mem_cons_of_mem _ hmem)

theorem dropSeen_nodup (seen : List String) (cs : List ContentModel) :
    ((dropSeen seen cs).map (·.id)).Nodup := by
  induction cs generalizing seen with
  | nil => exact List.nodup_nil
  | cons c rest ih =>
    rw [dropSeen]
    split
    · exact ih seen
    · rw [List.map_cons, List.nodup_cons]
      refine ⟨fun hmem => ?_, ih _⟩
      obtain ⟨c', hc', hid⟩ := List.mem_map.1 hmem
      exact notMem_of_mem_dropSeen hc' (hid ▸ List.mem_cons_self)

/-- Of contents that are all different, those with known ids are taken out and no others. -/
theorem mem_dropSeen_iff {seen : List String} {cs : List ContentModel}
    (hcs : (cs.map (·.id)).Nodup) {c : ContentModel} :
    c ∈ dropSeen seen cs ↔ c ∈ cs ∧ c.id ∉ seen := by
  induction cs generalizing seen with
  | nil => simp [dropSeen]
  | cons other rest ih =>
    rw [List.map_cons, List.nodup_cons] at hcs
    have hrest : ∀ c' ∈ rest, c'.id ≠ other.id :=
      fun c' hc' he => hcs.1 (he ▸ List.mem_map_of_mem hc')
    rw [dropSeen]
    split
    · rename_i hseen
      have hseen := List.contains_iff_mem.1 hseen
      rw [ih hcs.2, List.mem_cons]
      refine ⟨fun h => ⟨.inr h.1, h.2⟩, fun h => ⟨h.1.resolve_left ?_, h.2⟩⟩
      rintro rfl
      exact h.2 hseen
    · rename_i hseen
      have hseen : other.id ∉ seen := fun h => hseen (List.contains_iff_mem.2 h)
      rw [List.mem_cons, List.mem_cons, ih hcs.2, List.mem_cons, not_or]
      constructor
      · rintro (rfl | ⟨hc, -, hid⟩)
        · exact ⟨.inl rfl, hseen⟩
        · exact ⟨.inr hc, hid⟩
      · rintro ⟨rfl | hc, hid⟩
        · exact .inl rfl
        · exact .inr ⟨hc, hrest c hc, hid⟩

/-- No content stands under two products, or twice under one. -/
theorem firstUnder_nodup (seen : List String) (ms : List ProductModel) :
    ((firstUnder seen ms).flatMap fun m => m.contents.map (·.id)).Nodup ∧
      ∀ m ∈ firstUnder seen ms, ∀ c ∈ m.contents, c.id ∉ seen := by
  induction ms generalizing seen with
  | nil => exact ⟨List.nodup_nil, fun m hm => absurd hm List.not_mem_nil⟩
  | cons m ms ih =>
    obtain ⟨hnodup, hfresh⟩ := ih ((dropSeen seen m.contents).map (·.id) ++ seen)
    rw [firstUnder]
    refine ⟨?_, ?_⟩
    · rw [List.flatMap_cons, List.nodup_append]
      refine ⟨dropSeen_nodup seen m.contents, hnodup, ?_⟩
      rintro id hid _ hlater rfl
      obtain ⟨m', hm', hlater⟩ := List.mem_flatMap.1 hlater
      obtain ⟨c, hc, rfl⟩ := List.mem_map.1 hlater
      exact hfresh m' hm' c hc (List.mem_append_left seen hid)
    · intro m' hm' c hc
      rcases List.mem_cons.1 hm' with rfl | hm'
      · exact notMem_of_mem_dropSeen hc
      · exact fun hseen => hfresh m' hm' c hc (List.mem_append_right _ hseen)

/-- Under a product stay those of its contents that no product before it has. -/
theorem mem_contents_firstUnder {seen : List String} {ms : List ProductModel}
    (hms : ∀ m ∈ ms, (m.contents.map (·.id)).Nodup) {i : Nat} {m m' : ProductModel}
    (hm : ms[i]? = some m) (hm' : (firstUnder seen ms)[i]? = some m') {c : ContentModel} :
    c ∈ m'.contents ↔
      c ∈ m.contents ∧ c.id ∉ seen ∧ ∀ q ∈ ms.take i, c.id ∉ q.contents.map (·.id) := by
  induction ms generalizing seen i with
  | nil => cases hm
  | cons first rest ih =>
    rw [List.forall_mem_cons] at hms
    rw [firstUnder] at hm'
    cases i with
    | zero =>
      obtain rfl := Option.some.inj hm
      obtain rfl := Option.some.inj hm'
      rw [mem_dropSeen_iff hms.1]
      simp
    | succ i =>
      rw [ih hms.2 hm hm', List.take_succ_cons, List.forall_mem_cons, List.mem_append, not_or,
        and_assoc]
      refine and_congr_right fun _ => ?_
      -- what the first product has is known from then on, or was known before
      have hfirst : c.id ∉ seen →
          (c.id ∉ (dropSeen seen first.contents).map (·.id) ↔
            c.id ∉ first.contents.map (·.id)) := by
        intro hseen
        refine not_congr ?_
        simp only [List.mem_map, mem_dropSeen_iff hms.1]
        refine exists_congr fun c' => ⟨fun h => ⟨h.1.1, h.2⟩, fun h => ⟨⟨h.1, ?_⟩, h.2⟩⟩
        rw [h.2]
        exact hseen
      constructor
      · rintro ⟨hc, hseen, hbefore⟩
        exact ⟨hseen, (hfirst hseen).1 hc, hbefore⟩
      · rintro ⟨hseen, hc, hbefore⟩
        exact ⟨(hfirst hseen).2 hc, hseen, hbefore⟩

/-! ### What a product offers -/

variable (v : ContentView) (sku p : Product) (pc : ProductContent)

/-- The filters that a content has to pass: the consumer is entitled to a product that it modifies,
an environment promotes it, and it is for the architecture of the consumer. -/
structure Passes (c : Content) : Prop where
  /-- Without simple access, a content that modifies products is for those entitled to one. -/
  entitled : v.simpleAccess = false → c.modifiedProductIds ≠ [] →
    ∃ id ∈ c.modifiedProductIds, id ∈ v.entitledProductIds
  /-- Without simple access, and where environments filter, some environment has to promote it. -/
  promoted : v.simpleAccess = false → v.environmentFiltering = true →
    (∃ consumer ∈ v.consumer, consumer.environmentIds ≠ []) →
      ∃ e ∈ v.promoted.environments, e.promotes c.id = true
  /-- A content for some architectures is for consumers that one of them serves, and for those of
  which none is known. -/
  arch : ∀ consumer ∈ v.consumer, ∀ arch ∈ consumer.arch, Text.isBlank arch = false →
    Arch.parseList c.arches ≠ [] →
      ∃ a ∈ Arch.parseList c.arches, Arch.serves a (Text.trim arch) = true

/-- The product offers an entry: it is the first for its content, and passes the filters. -/
def Offers : Prop :=
  p.contents.find? (·.content.id == pc.content.id) = some pc ∧ v.Passes pc.content

/-- The winning environment says of a content whether it is enabled. -/
def IsMarked (contentId : String) (enabled : Bool) : Prop :=
  v.environmentFiltering = true ∧ (∃ consumer ∈ v.consumer, consumer.environmentIds ≠ []) ∧
    ∃ e promotion, v.promoted.environments.find? (·.promotes contentId) = some e ∧
      e.promotions.get? contentId = some promotion ∧ promotion.enabled = some enabled

/-- What decides whether a content is enabled. -/
inductive Decides : Bool → Prop
  /-- The mark of the winning environment. -/
  | mark {enabled : Bool} (h : v.IsMarked pc.content.id enabled) : Decides enabled
  /-- Without one, the subscription product, if it enables the content. -/
  | enabledBySku (hmark : ∀ b, ¬ v.IsMarked pc.content.id b)
      (h : pc.content.id ∈ sku.enabledContentIds) : Decides true
  /-- The subscription product, if it disables the content and does not enable it as well. -/
  | disabledBySku (hmark : ∀ b, ¬ v.IsMarked pc.content.id b)
      (hsku : pc.content.id ∉ sku.enabledContentIds)
      (h : pc.content.id ∈ sku.disabledContentIds) : Decides false
  /-- The entry itself, if nothing else says anything. -/
  | entry (hmark : ∀ b, ¬ v.IsMarked pc.content.id b)
      (henabled : pc.content.id ∉ sku.enabledContentIds)
      (hdisabled : pc.content.id ∉ sku.disabledContentIds) : Decides pc.enabled

/-- An entry is shown with the path that it has in the first environment that promotes its content,
and as enabled or not as was decided. -/
structure IsShownAs (c : ContentModel) : Prop where
  record : c = contentModel pc.content c.path c.isEnabled p.arches
  path : c.path = v.promoted.template.build
    (v.promoted.environments.find? (·.promotes pc.content.id)) pc.content.url
  enabled : v.Decides sku pc c.isEnabled

variable {v sku p pc}

theorem IsShownAs.id_eq {c : ContentModel} (h : v.IsShownAs sku p pc c) : c.id = pc.content.id :=
  congrArg ContentModel.id h.record

theorem hasEnvironments_iff :
    v.hasEnvironments = true ↔ ∃ consumer ∈ v.consumer, consumer.environmentIds ≠ [] := by
  unfold hasEnvironments
  cases v.consumer <;> simp

theorem isEntitled_iff {c : Content} : v.isEntitled c = true ↔
    (v.simpleAccess = false → c.modifiedProductIds ≠ [] →
      ∃ id ∈ c.modifiedProductIds, id ∈ v.entitledProductIds) := by
  unfold isEntitled
  rw [Bool.or_eq_true, Bool.or_eq_true, Text.intersects_iff, List.isEmpty_iff]
  cases v.simpleAccess with
  | true => simp
  | false => simp [Classical.or_iff_not_imp_left]

theorem isUnhidden_iff {c : Content} : v.isUnhidden c = true ↔
    (v.simpleAccess = false → v.environmentFiltering = true →
      (∃ consumer ∈ v.consumer, consumer.environmentIds ≠ []) →
        ∃ e ∈ v.promoted.environments, e.promotes c.id = true) := by
  have hpromoted : v.promoted.isPromoted c.id = true ↔
      ∃ e ∈ v.promoted.environments, e.promotes c.id = true := List.find?_isSome
  unfold isUnhidden
  rw [← hasEnvironments_iff, ← hpromoted]
  cases v.simpleAccess <;> cases v.environmentFiltering <;> cases v.hasEnvironments <;> simp

theorem fitsArch_iff {c : Content} : v.fitsArch c = true ↔
    ∀ consumer ∈ v.consumer, ∀ arch ∈ consumer.arch, Text.isBlank arch = false →
      Arch.parseList c.arches ≠ [] →
        ∃ a ∈ Arch.parseList c.arches, Arch.serves a (Text.trim arch) = true := by
  unfold fitsArch Arch.isCompatible
  cases hconsumer : v.consumer with
  | none => simp [Text.nonBlank?]
  | some consumer =>
    cases harch : consumer.arch with
    | none => simp [harch, Text.nonBlank?]
    | some arch =>
      cases hblank : Text.isBlank arch with
      | true => simp [harch, Text.nonBlank?, hblank, Option.filter_some]
      | false =>
        simp [harch, Text.nonBlank?, hblank, Option.filter_some, Classical.or_iff_not_imp_left]

/-- The consumer sees a content exactly if it passes the filters. -/
theorem shows_iff {c : Content} : v.shows c = true ↔ v.Passes c := by
  unfold shows
  rw [Bool.and_eq_true, Bool.and_eq_true, isEntitled_iff, isUnhidden_iff, fitsArch_iff]
  exact ⟨fun h => ⟨h.1.1, h.1.2, h.2⟩, fun h => ⟨⟨h.entitled, h.promoted⟩, h.arch⟩⟩

theorem mem_visibleContent_iff : pc ∈ v.visibleContent p ↔ v.Offers p pc := by
  rw [visibleContent_eq, List.mem_filter, shows_iff, mem_firstContents_iff,
    and_iff_right List.not_mem_nil]
  rfl

theorem isMarked_iff {contentId : String} {enabled : Bool} : v.IsMarked contentId enabled ↔
    (v.environmentFiltering && v.hasEnvironments) = true ∧
      v.promoted.enabled? contentId = some enabled := by
  have hmark : v.promoted.enabled? contentId = some enabled ↔
      ∃ e promotion, v.promoted.environments.find? (·.promotes contentId) = some e ∧
        e.promotions.get? contentId = some promotion ∧ promotion.enabled = some enabled := by
    unfold PromotedContent.enabled?
    simp only [Option.bind_eq_bind, Option.bind_eq_some_iff, exists_and_left]
    rfl
  rw [Bool.and_eq_true, hasEnvironments_iff, hmark, and_assoc]
  rfl

/-- Without a mark, the subscription product decides, or else the entry. -/
theorem contentEnabled_of_not_marked (h : ∀ b, ¬ v.IsMarked pc.content.id b) :
    v.contentEnabled sku pc = if sku.enabledContentIds.contains pc.content.id then true
      else if sku.disabledContentIds.contains pc.content.id then false else pc.enabled := by
  unfold contentEnabled
  dsimp only
  split
  · rename_i hfilter
    cases hmark : v.promoted.enabled? pc.content.id with
    | none => rfl
    | some b => exact absurd (isMarked_iff.2 ⟨hfilter, hmark⟩) (h b)
  · rfl

theorem contentEnabled_of_decides {b : Bool} (h : v.Decides sku pc b) :
    v.contentEnabled sku pc = b := by
  cases h with
  | mark h =>
    obtain ⟨hfilter, hmark⟩ := isMarked_iff.1 h
    unfold contentEnabled
    dsimp only
    rw [if_pos hfilter, hmark, Option.getD_some]
  | enabledBySku hmark h =>
    rw [contentEnabled_of_not_marked hmark, if_pos (List.contains_iff_mem.2 h)]
  | disabledBySku hmark hsku h =>
    rw [contentEnabled_of_not_marked hmark, if_neg (by simpa using hsku),
      if_pos (List.contains_iff_mem.2 h)]
  | entry hmark henabled hdisabled =>
    rw [contentEnabled_of_not_marked hmark, if_neg (by simpa using henabled),
      if_neg (by simpa using hdisabled)]

/-- Something always decides. -/
theorem exists_decides (v : ContentView) (sku : Product) (pc : ProductContent) :
    ∃ b, v.Decides sku pc b := by
  by_cases hmark : ∃ b, v.IsMarked pc.content.id b
  · obtain ⟨b, hb⟩ := hmark
    exact ⟨b, .mark hb⟩
  · have hmark := not_exists.1 hmark
    by_cases henabled : pc.content.id ∈ sku.enabledContentIds
    · exact ⟨true, .enabledBySku hmark henabled⟩
    · by_cases hdisabled : pc.content.id ∈ sku.disabledContentIds
      · exact ⟨false, .disabledBySku hmark henabled hdisabled⟩
      · exact ⟨pc.enabled, .entry hmark henabled hdisabled⟩

theorem decides_iff {b : Bool} : v.Decides sku pc b ↔ v.contentEnabled sku pc = b := by
  constructor
  · exact contentEnabled_of_decides
  · rintro rfl
    obtain ⟨b, hb⟩ := exists_decides v sku pc
    rw [contentEnabled_of_decides hb]
    exact hb

theorem isShownAs_iff {c : ContentModel} : v.IsShownAs sku p pc c ↔
    contentModel pc.content (v.promoted.path pc.content) (v.contentEnabled sku pc) p.arches =
      c := by
  constructor
  · intro h
    have hpath : c.path = v.promoted.path pc.content := h.path
    rw [h.record, decides_iff.1 h.enabled, hpath]
  · rintro rfl
    have henabled : (contentModel pc.content (v.promoted.path pc.content)
        (v.contentEnabled sku pc) p.arches).isEnabled = v.contentEnabled sku pc :=
      getD_enabledMark _
    refine ⟨?_, rfl, ?_⟩
    · rw [henabled]
      rfl
    · rw [henabled]
      exact decides_iff.2 rfl

/-! ### The contents of a certificate -/

variable {products : List Product} {pool : Option Pool}

theorem mem_contentModels_iff {c : ContentModel} :
    c ∈ v.contentModels sku p ↔ ∃ pc, v.Offers p pc ∧ v.IsShownAs sku p pc c := by
  unfold contentModels
  simp only [List.mem_map, mem_visibleContent_iff, isShownAs_iff]

theorem contentModels_nodup (v : ContentView) (sku p : Product) :
    ((v.contentModels sku p).map (·.id)).Nodup := by
  unfold contentModels
  rw [visibleContent_eq, List.map_map]
  exact (List.filter_sublist.map _).nodup (firstContents_nodup [] p.contents)

theorem mem_ids_contentModels_iff {contentId : String} :
    contentId ∈ (v.contentModels sku p).map (·.id) ↔
      ∃ pc, v.Offers p pc ∧ pc.content.id = contentId := by
  unfold contentModels
  simp only [List.map_map, List.mem_map, mem_visibleContent_iff, Function.comp_apply]
  rfl

/-- Products that do not offer a content do not have it. -/
theorem notMem_contents_mapProduct_iff {ps : List Product} {contentId : String} :
    (∀ m ∈ ps.map fun q => v.mapProduct q sku pool, contentId ∉ m.contents.map (·.id)) ↔
      ∀ q ∈ ps, ∀ pc, v.Offers q pc → pc.content.id ≠ contentId := by
  rw [List.forall_mem_map]
  refine forall₂_congr fun q _ => ?_
  have hids : contentId ∉ (v.contentModels sku q).map (·.id) ↔
      ∀ pc, v.Offers q pc → pc.content.id ≠ contentId := by
    rw [mem_ids_contentModels_iff, not_exists]
    simp only [not_and, ne_eq]
  exact hids

/-- **Under a product** stands what it offers and no engineering product before it does. -/
theorem mem_contents_createProducts {i : Nat} {m : ProductModel}
    (hp : (products.filter Product.isEngineering)[i]? = some p)
    (hm : (v.createProducts sku products pool)[i]? = some m) {c : ContentModel} :
    c ∈ m.contents ↔ ∃ pc, v.Offers p pc ∧
      (∀ q ∈ (products.filter Product.isEngineering).take i, ∀ pc', v.Offers q pc' →
        pc'.content.id ≠ pc.content.id) ∧
      v.IsShownAs sku p pc c := by
  have hmodels : ∀ m ∈ (products.filter Product.isEngineering).map
      fun p => v.mapProduct p sku pool, (m.contents.map (·.id)).Nodup := by
    intro m hm
    obtain ⟨p, -, rfl⟩ := List.mem_map.1 hm
    exact contentModels_nodup v sku p
  have hmodel : ((products.filter Product.isEngineering).map
      fun p => v.mapProduct p sku pool)[i]? = some (v.mapProduct p sku pool) := by
    rw [List.getElem?_map, hp, Option.map_some]
  rw [mem_contents_firstUnder hmodels hmodel hm, and_iff_right List.not_mem_nil, ← List.map_take,
    notMem_contents_mapProduct_iff]
  constructor
  · rintro ⟨hc, hfirst⟩
    obtain ⟨pc, hoffers, hshown⟩ := mem_contentModels_iff.1 hc
    exact ⟨pc, hoffers, hshown.id_eq ▸ hfirst, hshown⟩
  · rintro ⟨pc, hoffers, hfirst, hshown⟩
    exact ⟨mem_contentModels_iff.2 ⟨pc, hoffers, hshown⟩, hshown.id_eq ▸ hfirst⟩

theorem exists_product_at {i : Nat} :
    (∃ m, (v.createProducts sku products pool)[i]? = some m) ↔
      ∃ p, (products.filter Product.isEngineering)[i]? = some p := by
  have hlength := congrArg List.length (createProducts_map_withoutContents v sku products pool)
  rw [List.length_map, List.length_map] at hlength
  rw [← Option.isSome_iff_exists, ← Option.isSome_iff_exists, isSome_getElem?, isSome_getElem?,
    hlength]

/-- A content is on the certificate exactly if some engineering product offers it. -/
theorem mem_ids_createProducts_iff {contentId : String} :
    (∃ m ∈ v.createProducts sku products pool, ∃ c ∈ m.contents, c.id = contentId) ↔
      ∃ p ∈ products.filter Product.isEngineering, ∃ pc, v.Offers p pc ∧
        pc.content.id = contentId := by
  constructor
  · rintro ⟨m, hm, c, hc, hid⟩
    obtain ⟨i, hi⟩ := List.getElem?_of_mem hm
    obtain ⟨p, hp⟩ := exists_product_at.1 ⟨m, hi⟩
    obtain ⟨pc, hoffers, -, hshown⟩ := (mem_contents_createProducts hp hi).1 hc
    exact ⟨p, List.mem_of_getElem? hp, pc, hoffers, hshown.id_eq ▸ hid⟩
  · intro h
    obtain ⟨i, p, hp, ⟨pc, hoffers, hid⟩, hbefore⟩ := exists_first_of_mem h
    have hm : ∃ m, (v.createProducts sku products pool)[i]? = some m :=
      exists_product_at.2 ⟨p, hp⟩
    obtain ⟨m, hm⟩ := hm
    have hfirst : ∀ q ∈ (products.filter Product.isEngineering).take i, ∀ pc', v.Offers q pc' →
        pc'.content.id ≠ pc.content.id := by
      intro q hq pc' hpc' he
      exact hbefore q hq ⟨pc', hpc', he.trans hid⟩
    have hmem := (mem_contents_createProducts hp hm).2 ⟨pc, hoffers, hfirst, isShownAs_iff.2 rfl⟩
    exact ⟨m, List.mem_of_getElem? hm, _, hmem, hid⟩

/-- **Exactly what is offered.** The products of a certificate are the engineering products, in
their order. No content stands there twice. A content stands there if and only if an engineering
product offers it; it stands under the first one that does, with the path that it has in the first
environment promoting it, and as enabled or not as was decided for that product's entry. -/
theorem createProducts_exact (v : ContentView) (sku : Product) (products : List Product)
    (pool : Option Pool) :
    (v.createProducts sku products pool).map withoutContents =
        (products.filter Product.isEngineering).map (productModel · pool) ∧
      ((v.createProducts sku products pool).flatMap fun m => m.contents.map (·.id)).Nodup ∧
      (∀ contentId,
        (∃ m ∈ v.createProducts sku products pool, ∃ c ∈ m.contents, c.id = contentId) ↔
          ∃ p ∈ products.filter Product.isEngineering, ∃ pc, v.Offers p pc ∧
            pc.content.id = contentId) ∧
      ∀ i p m, (products.filter Product.isEngineering)[i]? = some p →
        (v.createProducts sku products pool)[i]? = some m → ∀ c, c ∈ m.contents ↔
          ∃ pc, v.Offers p pc ∧
            (∀ q ∈ (products.filter Product.isEngineering).take i, ∀ pc', v.Offers q pc' →
              pc'.content.id ≠ pc.content.id) ∧
            v.IsShownAs sku p pc c :=
  ⟨createProducts_map_withoutContents v sku products pool, (firstUnder_nodup [] _).1,
    fun _ => mem_ids_createProducts_iff, fun _ _ _ hp hm _ => mem_contents_createProducts hp hm⟩

end ContentView

end EntitlementAuthority
