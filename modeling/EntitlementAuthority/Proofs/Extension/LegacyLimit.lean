import EntitlementAuthority.Proofs.Extension.LegacyLookup

/-!
# How many contents a legacy certificate takes

The limit of a legacy certificate is for the contents of all products that an identifier can name.
A content that no identifier can name is left out of the certificate, but it is counted. So a
certificate never has more contents than the limit, but one may be refused although what it would
carry fits.

* `EntitlementBody.carriedContents`, `EntitlementBody.skippedContents` — the contents that a legacy
  certificate carries, and those that are only counted.
* `Oid.namesContent`, `filter_legacyRows` — the contents are read off a certificate.
* `legacyExtensions_limit` — when a certificate is refused, and what it carries if it is not.
-/

namespace EntitlementAuthority

open Extension (ofRows)

/-! ### What is counted -/

namespace EntitlementBody

/-- The contents that a legacy certificate carries. -/
def carriedContents (b : EntitlementBody) : List ContentModel :=
  b.encodableContents.filter fun c => (contentOid? c).isSome

/-- The contents that it skips, because no identifier can name them. -/
def skippedContents (b : EntitlementBody) : List ContentModel :=
  b.encodableContents.filter fun c => !(contentOid? c).isSome

/-- **Contents are counted whether the certificate carries them or not.** -/
theorem legacyContentCount_eq (b : EntitlementBody) :
    legacyContentCount b = b.carriedContents.length + b.skippedContents.length := by
  have hcount : legacyContentCount b = b.encodableContents.length :=
    (List.length_flatMap).symm
  rw [hcount]
  exact List.length_eq_length_filter_add _

end EntitlementBody

/-! ### What is carried -/

/-- Whether an identifier names a content, rather than one of its attributes or something else. -/
def Oid.namesContent (oid : Oid) : Bool :=
  match oid.suffix with
  | [2, _, _] => true
  | _ => false

/-- The extension that names a content, if there can be one. -/
def contentHead? (c : ContentModel) : Option Extension :=
  (contentOid? c).map fun base => Extension.text base c.type

theorem filter_ofRows_eq_nil {rows : List (Oid × Option String)}
    (h : ∀ oid ∈ rows.map Prod.fst, oid.namesContent = false) :
    (ofRows rows).filter (·.oid.namesContent) = [] := by
  rw [List.filter_eq_nil_iff]
  intro x hx
  have hoid := (Extension.oids_ofRows_sublist rows).subset (List.mem_map_of_mem hx)
  rw [h x.oid hoid]
  exact Bool.false_ne_true

theorem filter_productRows (productId : Nat) (p : ProductModel) :
    (ofRows (productRows productId p)).filter (·.oid.namesContent) = [] := by
  refine filter_ofRows_eq_nil fun oid hoid => ?_
  obtain ⟨field, hsuffix⟩ := suffix_of_mem_productRows hoid
  rw [Oid.namesContent, hsuffix]
  rfl

theorem filter_orderRows (b : EntitlementBody) :
    (ofRows (orderRows b)).filter (·.oid.namesContent) = [] := by
  refine filter_ofRows_eq_nil fun oid hoid => ?_
  obtain ⟨field, hsuffix⟩ := suffix_of_mem_orderRows hoid
  rw [Oid.namesContent, hsuffix]
  rfl

/-- Of the rows of a content, only the first one names it. -/
theorem filter_contentRows (c : ContentModel) :
    (ofRows (contentRows c)).filter (·.oid.namesContent) = (contentHead? c).toList := by
  unfold contentRows contentHead?
  cases hbase : contentOid? c with
  | none => rfl
  | some base =>
    obtain ⟨id, typeArc, -, -, rfl⟩ := contentOid?_eq_some_iff.1 hbase
    have hattributes : (ofRows (contentRowsAt (Oid.content id typeArc) c).tail).filter
        (·.oid.namesContent) = [] := by
      refine filter_ofRows_eq_nil fun oid hoid => ?_
      rw [List.map_tail, oids_contentRowsAt, List.tail_cons] at hoid
      obtain ⟨field, -, rfl⟩ := List.mem_map.1 hoid
      rfl
    rw [Option.toList_some, List.flatMap_singleton]
    exact congrArg (Extension.text (Oid.content id typeArc) c.type :: ·) hattributes

/-- **The contents that a certificate carries are read off it.** -/
theorem filter_legacyRows (b : EntitlementBody) :
    (ofRows (legacyRows b)).filter (·.oid.namesContent) =
      b.encodableContents.filterMap contentHead? := by
  have hproduct : ∀ x : Nat × ProductModel,
      (ofRows (productRows x.1 x.2 ++ x.2.contents.flatMap contentRows)).filter
          (·.oid.namesContent) = x.2.contents.flatMap fun c => (contentHead? c).toList := by
    intro x
    rw [Extension.ofRows_append, List.filter_append, filter_productRows, Extension.ofRows_flatMap,
      List.filter_flatMap, List.nil_append]
    simp only [filter_contentRows]
  have hconsumer : (ofRows [(Oid.consumer, some b.consumer)]).filter (·.oid.namesContent) = [] :=
    rfl
  unfold legacyRows
  rw [Extension.ofRows_append, Extension.ofRows_append, Extension.ofRows_flatMap,
    List.filter_append, List.filter_append, List.filter_flatMap, filter_orderRows, hconsumer,
    List.append_nil, List.append_nil]
  simp only [hproduct]
  rw [EntitlementBody.encodableContents, List.filterMap_eq_flatMap_toList, List.flatMap_assoc]

theorem length_filter_legacyRows (b : EntitlementBody) :
    ((ofRows (legacyRows b)).filter (·.oid.namesContent)).length = b.carriedContents.length := by
  rw [filter_legacyRows, List.length_filterMap_eq_countP, List.countP_eq_length_filter]
  simp only [contentHead?, Option.isSome_map]
  rfl

/-- All attributes of a content that is carried are there. -/
theorem contentAttributes_subset {b : EntitlementBody} {c : ContentModel}
    (hc : c ∈ b.carriedContents) : contentAttributes c ⊆ ofRows (legacyRows b) := by
  obtain ⟨x, hx, hc⟩ := List.mem_flatMap.1 (List.mem_of_mem_filter hc)
  rw [← ofRows_contentRows]
  intro e he
  obtain ⟨row, hrow, he⟩ := List.mem_flatMap.1 he
  refine List.mem_flatMap.2 ⟨row, ?_, he⟩
  obtain ⟨base, hbase, hrow⟩ := List.mem_flatMap.1 hrow
  exact mem_legacyRows_of_content hx hc (Option.mem_toList.1 hbase) hrow

/-- **When a legacy certificate is refused**: if more contents stand under the products that an
identifier can name than the limit allows, be they carried or skipped. Otherwise a certificate is
made, with as many contents as it is to carry, and all attributes of each of them. -/
theorem legacyExtensions_limit (b : EntitlementBody) (limit : Nat) :
    (limit < b.carriedContents.length + b.skippedContents.length →
      legacyExtensions b limit = .error (.tooManyContentSets (legacyName b)
        (b.carriedContents.length + b.skippedContents.length) limit)) ∧
    (b.carriedContents.length + b.skippedContents.length ≤ limit →
      ∃ extensions, legacyExtensions b limit = .ok extensions ∧
        (extensions.filter (·.oid.namesContent)).length = b.carriedContents.length ∧
        ∀ c ∈ b.carriedContents, contentAttributes c ⊆ extensions) := by
  rw [← b.legacyContentCount_eq]
  refine ⟨fun hmany => if_pos hmany, fun hfew => ?_⟩
  obtain ⟨extensions, hok⟩ : ∃ extensions, legacyExtensions b limit = .ok extensions :=
    ⟨_, if_neg (Nat.not_lt.2 hfew)⟩
  have hrows := ofRows_legacyRows hok
  refine ⟨extensions, hok, ?_, fun c hc => ?_⟩
  · rw [← hrows, length_filter_legacyRows]
  · rw [← hrows]
    exact contentAttributes_subset hc

namespace NumberedProducts

/-- A product with a repository and an image, for which there is no identifier. -/
def withImage : List Product :=
  [product "100" [⟨content, true⟩, ⟨{ content with id := "2000", type := "containerimage" }, true⟩]]

end NumberedProducts

open NumberedProducts

/-- The bundle has one content, for which there has to be room. -/
theorem legacyExtensions_limit_bundle :
    legacyExtensions (body bundle) 0 =
        .error (.tooManyContentSets (legacyName (body bundle)) 1 0) ∧
      ∃ extensions, legacyExtensions (body bundle) 1 = .ok extensions ∧
        (extensions.filter (·.oid.namesContent)).length = 1 := by
  refine ⟨(legacyExtensions_limit (body bundle) 0).1 (by decide), ?_⟩
  obtain ⟨extensions, hok, hlength, -⟩ := (legacyExtensions_limit (body bundle) 1).2 (by decide)
  exact ⟨extensions, hok, hlength⟩

/-- Where there is room for one content, a certificate that would carry one is refused. -/
theorem refused_though_it_fits : (body withImage).carriedContents.length ≤ 1 ∧
    ∃ e, legacyExtensions (body withImage) 1 = .error e :=
  ⟨by decide, _, rfl⟩

end EntitlementAuthority
