import EntitlementAuthority.Body.Assembly
import EntitlementAuthority.Extension.Legacy
import Mathlib.Data.List.Nodup
import Mathlib.Data.List.Perm.Basic

/-!
# Looking attributes up in legacy certificates

A legacy certificate is a list of extensions, and a reader looks an attribute up by its identifier.
The list is laid out in rows, one for each attribute that could be there. If no two rows have the
same identifier, every attribute is found in its own row.

* `Extension.valueAt` — the value that a reader finds.
* `Extension.ofRows`, `Extension.valueAt_ofRows` — extensions laid out in rows, and what is found.
* `ContentModel.IsAt` — every attribute of a content is found below an identifier.
* `EntitlementBody.HasDistinctNumbers` — numbers tell the products and contents of a body apart.
* `legacyExtensions_faithful` — what is found in a legacy certificate.
-/

namespace EntitlementAuthority

/-! ### The number that an id stands for -/

namespace Text

/-- One or more ASCII digits. -/
def IsDecimal (s : String) : Prop :=
  s ≠ "" ∧ s.toList.all Char.isDigit = true

/-- The number that a row of digits stands for. -/
def decimalValue (s : String) : Nat :=
  s.toList.foldl (fun n c => n * 10 + (c.toNat - '0'.toNat)) 0

theorem digitsValue?_eq_some {acc : Nat} {cs : List Char} (h : ∀ c ∈ cs, c.isDigit = true) :
    digitsValue? acc cs = some (cs.foldl (fun n c => n * 10 + (c.toNat - '0'.toNat)) acc) := by
  induction cs generalizing acc with
  | nil => rfl
  | cons c cs ih =>
    rw [List.forall_mem_cons] at h
    rw [digitsValue?, if_pos h.1, List.foldl_cons, ih h.2]

theorem readNatBelow?_of_isDecimal {s : String} (h : IsDecimal s) (bound : Nat) :
    readNatBelow? bound s = if decimalValue s < bound then some (decimalValue s) else none := by
  obtain ⟨hne, hdigits⟩ := h
  rw [List.all_eq_true] at hdigits
  have hvalue : digitsValue? 0 s.toList = some (decimalValue s) := digitsValue?_eq_some hdigits
  unfold readNatBelow?
  cases hcs : s.toList with
  | nil => exact absurd (String.toList_eq_nil_iff.1 hcs) hne
  | cons c cs =>
    rw [hcs] at hdigits hvalue
    dsimp only
    split
    · -- a sign is no digit
      rename_i heq
      cases heq
      exact absurd (hdigits '+' List.mem_cons_self) (by decide)
    · have hdigits? : digits? (c :: cs) = some (decimalValue s) := hvalue
      rw [hdigits?, Option.filter_some]
      simp only [decide_eq_true_eq]

end Text

theorem numericId?_of_isDecimal {id : String} (h : Text.IsDecimal id) :
    numericId? id =
      if Text.decimalValue id < Text.word64Bound then some (Text.decimalValue id) else none :=
  Text.readNatBelow?_of_isDecimal h Text.word64Bound

/-! ### Extensions laid out in rows -/

namespace Extension

/-- The value that a reader finds under an identifier, which is that of the first extension. -/
def valueAt (extensions : List Extension) (oid : Oid) : Option ExtensionValue :=
  (extensions.find? (·.oid == oid)).map (·.value)

/-- The extensions of rows that may have no text. -/
def ofRows (rows : List (Oid × Option String)) : List Extension :=
  rows.flatMap fun row => text? row.1 row.2

/-- The text of a list with commas, unless the list is empty. -/
def commaText? (values : List String) : Option String :=
  if values.isEmpty then none else some (Text.joinWith "," values)

theorem texts_eq_text? (oid : Oid) (values : List String) :
    texts oid values = text? oid (commaText? values) := by
  unfold texts commaText?
  split <;> rfl

theorem ofRows_append (rows rows' : List (Oid × Option String)) :
    ofRows (rows ++ rows') = ofRows rows ++ ofRows rows' :=
  List.flatMap_append

theorem ofRows_flatMap {α : Type} (l : List α) (f : α → List (Oid × Option String)) :
    ofRows (l.flatMap f) = l.flatMap fun a => ofRows (f a) :=
  List.flatMap_assoc

theorem oids_ofRows_sublist (rows : List (Oid × Option String)) :
    ((ofRows rows).map (·.oid)).Sublist (rows.map Prod.fst) := by
  induction rows with
  | nil => exact List.Sublist.slnil
  | cons row rows ih =>
    obtain ⟨oid, text⟩ := row
    cases text with
    | none => exact ih.cons oid
    | some text => exact ih.cons_cons oid

theorem valueAt_ofRows_of_notMem {rows : List (Oid × Option String)} {oid : Oid}
    (h : oid ∉ rows.map Prod.fst) : valueAt (ofRows rows) oid = none := by
  unfold valueAt
  rw [Option.map_eq_none_iff, List.find?_eq_none]
  intro x hx heq
  have hmem := (oids_ofRows_sublist rows).subset (List.mem_map_of_mem hx)
  exact h (beq_iff_eq.1 heq ▸ hmem)

/-- If rows have different identifiers, each of them is found. -/
theorem valueAt_ofRows {rows : List (Oid × Option String)} (h : (rows.map Prod.fst).Nodup)
    {oid : Oid} {text : Option String} (hrow : (oid, text) ∈ rows) :
    valueAt (ofRows rows) oid = text.map .text := by
  induction rows with
  | nil => cases hrow
  | cons row rows ih =>
    rw [List.map_cons, List.nodup_cons] at h
    rcases List.mem_cons.1 hrow with rfl | hrow
    · have hrest : valueAt (ofRows rows) oid = none := valueAt_ofRows_of_notMem h.1
      cases text with
      | none => exact hrest
      | some text => simp [valueAt, ofRows, text?, Extension.text]
    · -- the row in front has another identifier, so a reader passes it over
      have hne : row.1 ≠ oid := fun he => h.1 (he ▸ List.mem_map_of_mem hrow)
      rw [← ih h.2 hrow]
      obtain ⟨other, text'⟩ := row
      cases text' with
      | none => rfl
      | some text' => simp [valueAt, ofRows, text?, Extension.text, hne]

end Extension

/-! ### The rows of a legacy certificate -/

open Extension (commaText? ofRows valueAt)

/-- The rows of a product. -/
def productRows (productId : Nat) (p : ProductModel) : List (Oid × Option String) :=
  let oid := Oid.product productId
  [(oid ProductField.name, some p.name), (oid ProductField.variant, p.variant),
    (oid ProductField.arches, commaText? p.architectures), (oid ProductField.version, p.version),
    (oid ProductField.brandType, p.brandType), (oid ProductField.brandName, p.brandName)]

/-- The rows of a content below an identifier. -/
def contentRowsAt (base : Oid) (c : ContentModel) : List (Oid × Option String) :=
  let oid := base.child
  [(base, some c.type), (oid ContentField.name, some c.name),
    (oid ContentField.label, some c.label), (oid ContentField.vendor, some c.vendor),
    (oid ContentField.path, some c.path),
    (oid ContentField.enabled, some (Extension.flag c.isEnabled)),
    (oid ContentField.gpgUrl, c.gpgUrl),
    (oid ContentField.metadataExpire, c.metadataExpire.map toString),
    (oid ContentField.requiredTags, commaText? c.requiredTags),
    (oid ContentField.arches, commaText? c.arches)]

/-- The identifier of a content, if one can name it. -/
def contentOid? (c : ContentModel) : Option Oid :=
  match numericId? c.id, contentTypeArc? c.type with
  | some id, some typeArc => some (Oid.content id typeArc)
  | _, _ => none

/-- The rows of a content; none if no identifier can name it. -/
def contentRows (c : ContentModel) : List (Oid × Option String) :=
  (contentOid? c).toList.flatMap fun base => contentRowsAt base c

/-- The rows of what stands behind an entitlement. -/
def orderRows (b : EntitlementBody) : List (Oid × Option String) :=
  let s := b.subscription
  let o := b.order
  [(Oid.order OrderField.name, s.map (·.name)), (Oid.order OrderField.sku, s.map (·.sku)),
    (Oid.order OrderField.sockets, s.bind fun s => s.sockets.map toString),
    (Oid.order OrderField.warningPeriod, s.bind fun s => s.warning.map toString),
    (Oid.order OrderField.management, s.map fun s => Extension.flag (s.management.getD false)),
    (Oid.order OrderField.supportLevel, s.bind fun s => s.service.bind (·.level)),
    (Oid.order OrderField.supportType, s.bind fun s => s.service.bind (·.type)),
    (Oid.order OrderField.stackingId, s.bind (·.stackingId)),
    (Oid.order OrderField.virtOnly, s.bind fun s => s.virtOnly.map Extension.flag),
    (Oid.order OrderField.number, o.bind (·.number)),
    (Oid.order OrderField.quantity, o.map fun o => toString o.quantity),
    (Oid.order OrderField.startDate, o.map (·.startDate)),
    (Oid.order OrderField.endDate, o.map (·.endDate)),
    (Oid.order OrderField.contract, o.bind (·.contract)),
    (Oid.order OrderField.account, o.bind (·.account)),
    (Oid.order OrderField.subscription, b.pool),
    (Oid.order OrderField.quantityUsed, b.quantity.map toString)]

/-- The rows of a legacy certificate. -/
def legacyRows (b : EntitlementBody) : List (Oid × Option String) :=
  ((encodableProducts b).flatMap fun x =>
      productRows x.1 x.2 ++ x.2.contents.flatMap contentRows) ++
    orderRows b ++ [(Oid.consumer, some b.consumer)]

theorem ofRows_productRows (productId : Nat) (p : ProductModel) :
    ofRows (productRows productId p) = productAttributes productId p := by
  simp [productAttributes, productRows, ofRows, Extension.texts_eq_text?, Extension.text?]

theorem ofRows_contentRows (c : ContentModel) : ofRows (contentRows c) = contentAttributes c := by
  unfold contentAttributes contentRows contentOid?
  cases numericId? c.id with
  | none => rfl
  | some id =>
    cases contentTypeArc? c.type with
    | none => rfl
    | some typeArc =>
      simp [contentRowsAt, ofRows, Extension.texts_eq_text?, Extension.text?]

theorem ofRows_orderRows (b : EntitlementBody) : ofRows (orderRows b) = orderAttributes b := by
  unfold orderAttributes orderRows
  cases b.subscription <;> cases b.order <;>
    simp [ofRows, subscriptionAttributes, purchaseAttributes, Extension.text?]

/-- A legacy certificate is laid out in rows. -/
theorem ofRows_legacyRows {b : EntitlementBody} {limit : Nat} {extensions : List Extension}
    (h : legacyExtensions b limit = .ok extensions) : ofRows (legacyRows b) = extensions := by
  unfold legacyExtensions at h
  dsimp only at h
  split at h
  · cases h
  · have hproduct : ∀ x : Nat × ProductModel,
        ofRows (productRows x.1 x.2 ++ x.2.contents.flatMap contentRows) =
          productWithContents x.1 x.2 := by
      intro x
      rw [Extension.ofRows_append, Extension.ofRows_flatMap, ofRows_productRows,
        productWithContents]
      simp only [ofRows_contentRows]
    unfold legacyRows
    rw [Extension.ofRows_append, Extension.ofRows_append, Extension.ofRows_flatMap,
      ofRows_orderRows]
    simp only [hproduct]
    exact Except.ok.inj h

/-! ### Identifiers of rows -/

/-- The arcs of an identifier below the base. -/
def Oid.suffix (oid : Oid) : List Nat :=
  oid.arcs.drop Oid.baseArcs.length

theorem contentTypeArc?_inj {type type' : String} {typeArc : Nat}
    (h : contentTypeArc? type = some typeArc) (h' : contentTypeArc? type' = some typeArc) :
    type = type' := by
  unfold contentTypeArc? at h h'
  grind

theorem contentOid?_eq_some_iff {c : ContentModel} {base : Oid} :
    contentOid? c = some base ↔ ∃ id typeArc, numericId? c.id = some id ∧
      contentTypeArc? c.type = some typeArc ∧ Oid.content id typeArc = base := by
  unfold contentOid?
  cases numericId? c.id <;> cases contentTypeArc? c.type <;> simp

theorem oids_productRows (productId : Nat) (p : ProductModel) :
    (productRows productId p).map Prod.fst = [1, 2, 3, 4, 5, 7].map (Oid.product productId) := rfl

theorem oids_contentRowsAt (base : Oid) (c : ContentModel) :
    (contentRowsAt base c).map Prod.fst = base :: [1, 2, 5, 6, 8, 7, 9, 10, 11].map base.child :=
  rfl

theorem oids_orderRows (b : EntitlementBody) : (orderRows b).map Prod.fst =
    [1, 3, 9, 12, 14, 15, 16, 17, 18, 2, 5, 6, 7, 10, 13, 4, 11].map Oid.order := rfl

theorem oids_productRows_nodup (productId : Nat) (p : ProductModel) :
    ((productRows productId p).map Prod.fst).Nodup := by
  rw [oids_productRows]
  refine List.Nodup.map ?_ (by decide)
  intro field field' h
  simpa using Oid.entitlement_injective h

theorem oids_contentRowsAt_nodup (base : Oid) (c : ContentModel) :
    ((contentRowsAt base c).map Prod.fst).Nodup := by
  rw [oids_contentRowsAt, List.nodup_cons]
  refine ⟨?_, List.Nodup.map ?_ (by decide)⟩
  · intro h
    obtain ⟨field, -, hfield⟩ := List.mem_map.1 h
    have hlength := congrArg (fun oid => oid.arcs.length) hfield
    simp at hlength
  · intro field field' h
    simpa using congrArg Oid.arcs h

theorem oids_orderRows_nodup (b : EntitlementBody) : ((orderRows b).map Prod.fst).Nodup := by
  rw [oids_orderRows]
  refine List.Nodup.map ?_ (by decide)
  intro field field' h
  simpa using Oid.entitlement_injective h

theorem oids_contentRows_nodup (c : ContentModel) : ((contentRows c).map Prod.fst).Nodup := by
  unfold contentRows
  cases contentOid? c with
  | none => exact List.nodup_nil
  | some base => simpa using oids_contentRowsAt_nodup base c

/-- The number of a product is in its identifiers. -/
theorem suffix_of_mem_productRows {productId : Nat} {p : ProductModel} {oid : Oid}
    (h : oid ∈ (productRows productId p).map Prod.fst) :
    ∃ field, oid.suffix = [1, productId, field] := by
  rw [oids_productRows] at h
  obtain ⟨field, -, rfl⟩ := List.mem_map.1 h
  exact ⟨field, rfl⟩

/-- The number and the type of a content are in its identifiers. -/
theorem suffix_of_mem_contentRows {c : ContentModel} {oid : Oid}
    (h : oid ∈ (contentRows c).map Prod.fst) : ∃ id typeArc field, numericId? c.id = some id ∧
      contentTypeArc? c.type = some typeArc ∧ oid.suffix = 2 :: id :: typeArc :: field := by
  unfold contentRows at h
  cases hbase : contentOid? c with
  | none =>
    rw [hbase] at h
    cases h
  | some base =>
    obtain ⟨id, typeArc, hid, htype, rfl⟩ := contentOid?_eq_some_iff.1 hbase
    rw [hbase, Option.toList_some, List.flatMap_singleton, oids_contentRowsAt] at h
    rcases List.mem_cons.1 h with rfl | h
    · exact ⟨id, typeArc, [], hid, htype, rfl⟩
    · obtain ⟨field, -, rfl⟩ := List.mem_map.1 h
      exact ⟨id, typeArc, [field], hid, htype, rfl⟩

theorem suffix_of_mem_orderRows {b : EntitlementBody} {oid : Oid}
    (h : oid ∈ (orderRows b).map Prod.fst) : ∃ field, oid.suffix = [4, 1, field] := by
  rw [oids_orderRows] at h
  obtain ⟨field, -, rfl⟩ := List.mem_map.1 h
  exact ⟨field, rfl⟩

/-- Identifiers with different arcs below the base are different. -/
theorem Oid.disjoint_of_head {oids oids' : List Oid} {arc arc' : Nat} (hne : arc ≠ arc')
    (h : ∀ oid ∈ oids, oid.suffix.head? = some arc)
    (h' : ∀ oid ∈ oids', oid.suffix.head? = some arc') : oids.Disjoint oids' :=
  fun oid hoid hoid' => hne (Option.some.inj ((h oid hoid).symm.trans (h' oid hoid')))

namespace EntitlementBody

variable {b : EntitlementBody}

/-- The contents of the products that an identifier can name. -/
def encodableContents (b : EntitlementBody) : List ContentModel :=
  (encodableProducts b).flatMap fun x => x.2.contents

/-- The numbers of a body tell its products apart, and its contents of one type, as far as an
identifier can name them. -/
structure HasDistinctNumbers (b : EntitlementBody) : Prop where
  products : b.products.Pairwise fun p q =>
    (numericId? p.id).isSome → numericId? p.id ≠ numericId? q.id
  contents : b.encodableContents.Pairwise fun c c' =>
    (contentOid? c).isSome → c.type = c'.type → numericId? c.id ≠ numericId? c'.id

theorem HasDistinctNumbers.encodableProducts_pairwise (h : b.HasDistinctNumbers) :
    (encodableProducts b).Pairwise fun x y => x.1 ≠ y.1 := by
  refine h.products.filterMap _ ?_
  intro p q hne x hx y hy he
  obtain ⟨n, hn, rfl⟩ := Option.map_eq_some_iff.1 hx
  obtain ⟨m, hm, rfl⟩ := Option.map_eq_some_iff.1 hy
  exact hne (Option.isSome_of_eq_some hn) ((hn.trans (congrArg some he)).trans hm.symm)

theorem HasDistinctNumbers.oids_products_nodup (h : b.HasDistinctNumbers) :
    ((encodableProducts b).flatMap fun x => (productRows x.1 x.2).map Prod.fst).Nodup := by
  rw [List.nodup_flatMap]
  refine ⟨fun x _ => oids_productRows_nodup x.1 x.2, h.encodableProducts_pairwise.imp ?_⟩
  intro x y hne oid hx hy
  obtain ⟨field, hsuffix⟩ := suffix_of_mem_productRows hx
  obtain ⟨field', hsuffix'⟩ := suffix_of_mem_productRows hy
  have heq : x.1 = y.1 ∧ field = field' := by simpa using hsuffix.symm.trans hsuffix'
  exact hne heq.1

theorem HasDistinctNumbers.oids_contents_nodup (h : b.HasDistinctNumbers) :
    (b.encodableContents.flatMap fun c => (contentRows c).map Prod.fst).Nodup := by
  rw [List.nodup_flatMap]
  refine ⟨fun c _ => oids_contentRows_nodup c, h.contents.imp ?_⟩
  intro c c' hne oid hc hc'
  obtain ⟨id, typeArc, field, hid, htype, hsuffix⟩ := suffix_of_mem_contentRows hc
  obtain ⟨id', typeArc', field', hid', htype', hsuffix'⟩ := suffix_of_mem_contentRows hc'
  -- the shared identifier has one number and one type
  have heq : id = id' ∧ typeArc = typeArc' ∧ field = field' := by
    simpa using hsuffix.symm.trans hsuffix'
  obtain ⟨rfl, rfl, -⟩ := heq
  have hbase := contentOid?_eq_some_iff.2 ⟨id, typeArc, hid, htype, rfl⟩
  exact hne (Option.isSome_of_eq_some hbase) (contentTypeArc?_inj htype htype')
    (hid.trans hid'.symm)

/-- The identifiers, those of all products first and then those of all contents. -/
theorem oids_legacyRows_perm (b : EntitlementBody) :
    ((legacyRows b).map Prod.fst).Perm
      (((encodableProducts b).flatMap fun x => (productRows x.1 x.2).map Prod.fst) ++
        (b.encodableContents.flatMap fun c => (contentRows c).map Prod.fst) ++
        ((orderRows b).map Prod.fst ++ [Oid.consumer])) := by
  unfold legacyRows encodableContents
  rw [List.map_append, List.map_append, List.append_assoc, List.map_flatMap, List.flatMap_assoc]
  refine List.Perm.append_right _ ?_
  simp only [List.map_append, List.map_flatMap]
  exact (List.flatMap_append_perm _ _ _).symm

/-- If the numbers tell products and contents apart, no two rows have the same identifier. -/
theorem HasDistinctNumbers.oids_legacyRows_nodup (h : b.HasDistinctNumbers) :
    ((legacyRows b).map Prod.fst).Nodup := by
  -- each family of identifiers has an arc of its own
  have hproducts : ∀ oid ∈ (encodableProducts b).flatMap fun x =>
      (productRows x.1 x.2).map Prod.fst, oid.suffix.head? = some 1 := by
    intro oid hoid
    obtain ⟨x, -, hx⟩ := List.mem_flatMap.1 hoid
    obtain ⟨field, hsuffix⟩ := suffix_of_mem_productRows hx
    rw [hsuffix, List.head?_cons]
  have hcontents : ∀ oid ∈ b.encodableContents.flatMap fun c => (contentRows c).map Prod.fst,
      oid.suffix.head? = some 2 := by
    intro oid hoid
    obtain ⟨c, -, hc⟩ := List.mem_flatMap.1 hoid
    obtain ⟨id, typeArc, field, -, -, hsuffix⟩ := suffix_of_mem_contentRows hc
    rw [hsuffix, List.head?_cons]
  have horder : ∀ oid ∈ (orderRows b).map Prod.fst, oid.suffix.head? = some 4 := by
    intro oid hoid
    obtain ⟨field, hsuffix⟩ := suffix_of_mem_orderRows hoid
    rw [hsuffix, List.head?_cons]
  have hconsumer : ∀ oid ∈ [Oid.consumer], oid.suffix.head? = some 5 := by
    intro oid hoid
    rw [List.mem_singleton.1 hoid]
    rfl
  rw [(oids_legacyRows_perm b).nodup_iff]
  refine (h.oids_products_nodup.append h.oids_contents_nodup ?_).append
    ((oids_orderRows_nodup b).append (List.nodup_singleton _) ?_) ?_
  · exact Oid.disjoint_of_head (by decide) hproducts hcontents
  · exact Oid.disjoint_of_head (by decide) horder hconsumer
  · rw [List.disjoint_append_left, List.disjoint_append_right, List.disjoint_append_right]
    exact ⟨⟨Oid.disjoint_of_head (by decide) hproducts horder,
        Oid.disjoint_of_head (by decide) hproducts hconsumer⟩,
      Oid.disjoint_of_head (by decide) hcontents horder,
      Oid.disjoint_of_head (by decide) hcontents hconsumer⟩

end EntitlementBody

/-! ### What is found -/

/-- Every attribute of a content is found below an identifier, and those that it does not have are
not there. -/
structure ContentModel.IsAt (c : ContentModel) (extensions : List Extension) (base : Oid) :
    Prop where
  type : valueAt extensions base = some (.text c.type)
  name : valueAt extensions (base.child ContentField.name) = some (.text c.name)
  label : valueAt extensions (base.child ContentField.label) = some (.text c.label)
  vendor : valueAt extensions (base.child ContentField.vendor) = some (.text c.vendor)
  path : valueAt extensions (base.child ContentField.path) = some (.text c.path)
  enabled : valueAt extensions (base.child ContentField.enabled) =
    some (.text (Extension.flag c.isEnabled))
  gpgUrl : valueAt extensions (base.child ContentField.gpgUrl) = c.gpgUrl.map .text
  metadataExpire : valueAt extensions (base.child ContentField.metadataExpire) =
    (c.metadataExpire.map toString).map .text
  requiredTags : valueAt extensions (base.child ContentField.requiredTags) =
    (commaText? c.requiredTags).map .text
  arches : valueAt extensions (base.child ContentField.arches) = (commaText? c.arches).map .text

theorem ContentModel.isAt_of_rows {c : ContentModel} {extensions : List Extension} {base : Oid}
    (h : ∀ row ∈ contentRowsAt base c, valueAt extensions row.1 = row.2.map .text) :
    c.IsAt extensions base := by
  simp only [contentRowsAt, List.forall_mem_cons] at h
  obtain ⟨htype, hname, hlabel, hvendor, hpath, henabled, hgpg, hexpire, htags, harches, -⟩ := h
  exact ⟨htype, hname, hlabel, hvendor, hpath, henabled, hgpg, hexpire, htags, harches⟩

section Rows

variable {b : EntitlementBody} {p : ProductModel} {c : ContentModel} {id : Nat}

theorem mem_encodableProducts_iff :
    (id, p) ∈ encodableProducts b ↔ p ∈ b.products ∧ numericId? p.id = some id := by
  unfold encodableProducts
  simp only [List.mem_filterMap, Option.map_eq_some_iff, Prod.mk.injEq]
  constructor
  · rintro ⟨q, hq, n, hn, rfl, rfl⟩
    exact ⟨hq, hn⟩
  · rintro ⟨hp, hid⟩
    exact ⟨p, hp, id, hid, rfl, rfl⟩

theorem mem_legacyRows_of_product (hp : (id, p) ∈ encodableProducts b)
    {row : Oid × Option String} (hrow : row ∈ productRows id p) : row ∈ legacyRows b := by
  unfold legacyRows
  refine List.mem_append_left _ (List.mem_append_left _ ?_)
  exact List.mem_flatMap.2 ⟨_, hp, List.mem_append_left _ hrow⟩

theorem mem_legacyRows_of_content (hp : (id, p) ∈ encodableProducts b) (hc : c ∈ p.contents)
    {base : Oid} (hbase : contentOid? c = some base) {row : Oid × Option String}
    (hrow : row ∈ contentRowsAt base c) : row ∈ legacyRows b := by
  have hcontent : row ∈ contentRows c :=
    List.mem_flatMap.2 ⟨base, Option.mem_toList.2 hbase, hrow⟩
  unfold legacyRows
  refine List.mem_append_left _ (List.mem_append_left _ ?_)
  refine List.mem_flatMap.2 ⟨_, hp, List.mem_append_right _ ?_⟩
  exact List.mem_flatMap.2 ⟨c, hc, hcontent⟩

/-- Identifiers of products and contents are those of some that an identifier can name. -/
theorem suffix_of_mem_legacyRows {oid : Oid} (h : oid ∈ (legacyRows b).map Prod.fst) :
    (∃ x ∈ encodableProducts b, ∃ field, oid.suffix = [1, x.1, field]) ∨
      (∃ c ∈ b.encodableContents, ∃ id typeArc field, numericId? c.id = some id ∧
        oid.suffix = 2 :: id :: typeArc :: field) ∨
      (∃ field, oid.suffix = [4, 1, field]) ∨ oid.suffix = [5, 1] := by
  have h := (EntitlementBody.oids_legacyRows_perm b).mem_iff.1 h
  rw [List.mem_append, List.mem_append, List.mem_append, or_assoc] at h
  rcases h with h | h | h | h
  · obtain ⟨x, hx, hoid⟩ := List.mem_flatMap.1 h
    exact .inl ⟨x, hx, suffix_of_mem_productRows hoid⟩
  · obtain ⟨c, hc, hoid⟩ := List.mem_flatMap.1 h
    obtain ⟨id, typeArc, field, hid, -, hsuffix⟩ := suffix_of_mem_contentRows hoid
    exact .inr (.inl ⟨c, hc, id, typeArc, field, hid, hsuffix⟩)
  · exact .inr (.inr (.inl (suffix_of_mem_orderRows h)))
  · rw [List.mem_singleton.1 h]
    exact .inr (.inr (.inr rfl))

theorem exists_product_of_mem_legacyRows {oid : Oid} (h : oid ∈ (legacyRows b).map Prod.fst)
    {rest : List Nat} (hsuffix : oid.suffix = 1 :: id :: rest) :
    ∃ p ∈ b.products, numericId? p.id = some id := by
  have hcases := suffix_of_mem_legacyRows h
  rw [hsuffix] at hcases
  obtain ⟨x, hx, field, heq⟩ | ⟨c, -, id', typeArc, field, -, heq⟩ | ⟨field, heq⟩ | heq := hcases
  · cases heq
    obtain ⟨hp, hid⟩ := mem_encodableProducts_iff.1 hx
    exact ⟨x.2, hp, hid⟩
  all_goals cases heq

theorem exists_content_of_mem_legacyRows {oid : Oid} (h : oid ∈ (legacyRows b).map Prod.fst)
    {rest : List Nat} (hsuffix : oid.suffix = 2 :: id :: rest) :
    ∃ p ∈ b.products, (numericId? p.id).isSome ∧ ∃ c ∈ p.contents, numericId? c.id = some id := by
  have hcases := suffix_of_mem_legacyRows h
  rw [hsuffix] at hcases
  obtain ⟨x, -, field, heq⟩ | ⟨c, hc, id', typeArc, field, hid, heq⟩ | ⟨field, heq⟩ | heq := hcases
  · cases heq
  · cases heq
    obtain ⟨x, hx, hc⟩ := List.mem_flatMap.1 hc
    obtain ⟨hp, hxid⟩ := mem_encodableProducts_iff.1 hx
    exact ⟨x.2, hp, Option.isSome_of_eq_some hxid, c, hc, hid⟩
  all_goals cases heq

end Rows

/-- The content types that an identifier can name, with their arcs. -/
def namedTypes : List (String × Nat) :=
  [("yum", 1), ("file", 2), ("kickstart", 3)]

theorem contentTypeArc?_of_mem {type : String} {typeArc : Nat} (h : (type, typeArc) ∈ namedTypes) :
    contentTypeArc? type = some typeArc := by
  simp only [namedTypes, List.mem_cons, Prod.mk.injEq, List.not_mem_nil, or_false] at h
  rcases h with ⟨rfl, rfl⟩ | ⟨rfl, rfl⟩ | ⟨rfl, rfl⟩ <;> rfl

/-- **What is found in a legacy certificate.** Suppose that the numbers of a body tell its products
and its contents of one type apart. Then no two extensions have the same identifier. Every product
whose number fits 64 bits is found with its name, and below it every such content of a type that an
identifier can name, with all its attributes. No other products and contents are there. -/
theorem legacyExtensions_faithful {b : EntitlementBody} {limit : Nat} {extensions : List Extension}
    (h : legacyExtensions b limit = .ok extensions) (hb : b.HasDistinctNumbers) :
    (extensions.map (·.oid)).Nodup ∧
      (∀ p ∈ b.products, Text.IsDecimal p.id → Text.decimalValue p.id < Text.word64Bound →
        valueAt extensions (Oid.product (Text.decimalValue p.id) ProductField.name) =
            some (.text p.name) ∧
          ∀ c ∈ p.contents, Text.IsDecimal c.id → Text.decimalValue c.id < Text.word64Bound →
            ∀ typeArc, (c.type, typeArc) ∈ namedTypes →
              c.IsAt extensions (Oid.content (Text.decimalValue c.id) typeArc)) ∧
      ∀ x ∈ extensions,
        (∀ n rest, x.oid = Oid.entitlement (1 :: n :: rest) →
          ∃ p ∈ b.products, numericId? p.id = some n) ∧
        ∀ n rest, x.oid = Oid.entitlement (2 :: n :: rest) →
          ∃ p ∈ b.products, (numericId? p.id).isSome ∧
            ∃ c ∈ p.contents, numericId? c.id = some n := by
  have hrows := ofRows_legacyRows h
  have hnodup := hb.oids_legacyRows_nodup
  have hfound : ∀ row ∈ legacyRows b, valueAt extensions row.1 = row.2.map .text := by
    intro row hrow
    rw [← hrows]
    exact Extension.valueAt_ofRows hnodup hrow
  refine ⟨?_, ?_, ?_⟩
  · rw [← hrows]
    exact (Extension.oids_ofRows_sublist _).nodup hnodup
  · intro p hp hdecimal hbound
    have hid : numericId? p.id = some (Text.decimalValue p.id) := by
      rw [numericId?_of_isDecimal hdecimal, if_pos hbound]
    have hp := mem_encodableProducts_iff.2 ⟨hp, hid⟩
    refine ⟨hfound _ (mem_legacyRows_of_product hp List.mem_cons_self), ?_⟩
    intro c hc hdecimal hbound typeArc htype
    have hbase : contentOid? c = some (Oid.content (Text.decimalValue c.id) typeArc) := by
      refine contentOid?_eq_some_iff.2 ⟨_, typeArc, ?_, contentTypeArc?_of_mem htype, rfl⟩
      rw [numericId?_of_isDecimal hdecimal, if_pos hbound]
    exact ContentModel.isAt_of_rows fun row hrow =>
      hfound row (mem_legacyRows_of_content hp hc hbase hrow)
  · intro x hx
    have hoid : x.oid ∈ (legacyRows b).map Prod.fst := by
      rw [← hrows] at hx
      exact (Extension.oids_ofRows_sublist _).subset (List.mem_map_of_mem hx)
    refine ⟨fun n rest hx => ?_, fun n rest hx => ?_⟩
    · exact exists_product_of_mem_legacyRows hoid (congrArg Oid.suffix hx)
    · exact exists_content_of_mem_legacyRows hoid (congrArg Oid.suffix hx)

/-! ### Numbers that tell products apart, and numbers that do not -/

namespace NumberedProducts

/-- A content. -/
def content : Content :=
  { (default : Content) with id := "1000", type := "yum", name := "repo", url := "/content/os" }

/-- A product, with or without the content. -/
def product (id : String) (contents : List ProductContent) : Product :=
  { (default : Product) with id, name := "Bundle OS", contents }

/-- Everything is shown. -/
def view : ContentView where
  consumer := none
  promoted := ⟨.ofText none, []⟩
  environmentFiltering := false
  simpleAccess := false
  entitledProductIds := []

/-- A body of products. -/
def body (products : List Product) : EntitlementBody :=
  .contentOnly "consumer-1" (view.createProducts (product "MKT-1" []) products none)

/-- The extensions of a body of products. -/
def extensions (products : List Product) : List Extension :=
  match legacyExtensions (body products) 185 with
  | .ok extensions => extensions
  | .error _ => []

/-- Two products, one of them with the content. -/
def bundle : List Product :=
  [product "100" [⟨content, true⟩], product "200" []]

/-- A product with the content whose number does not fit 64 bits, and two products that stand for
the same number. -/
def widePadded : List Product :=
  [product "18446744073709551616" [⟨content, true⟩], product "7" [], product "07" []]

end NumberedProducts

open NumberedProducts

/-- The products of a bundle are found with their names. -/
theorem legacyExtensions_faithful_bundle :
    legacyExtensions (body bundle) 185 = .ok (extensions bundle) ∧
      (body bundle).HasDistinctNumbers ∧ ((extensions bundle).map (·.oid)).Nodup ∧
      ∀ p ∈ (body bundle).products,
        valueAt (extensions bundle) (Oid.product (Text.decimalValue p.id) ProductField.name) =
          some (.text p.name) := by
  have hok : legacyExtensions (body bundle) 185 = .ok (extensions bundle) := rfl
  have hnumbers : (body bundle).HasDistinctNumbers := ⟨by decide, by decide⟩
  obtain ⟨hnodup, hfound, -⟩ := legacyExtensions_faithful hok hnumbers
  have hids : ∀ p ∈ (body bundle).products, Text.IsDecimal p.id ∧
      Text.decimalValue p.id < Text.word64Bound := by
    unfold Text.IsDecimal
    decide
  exact ⟨hok, hnumbers, hnodup, fun p hp => (hfound p hp (hids p hp).1 (hids p hp).2).1⟩

/-- A product whose number does not fit 64 bits is not found, nor is its content, and two products
that stand for the same number have the same identifiers, although all ids are different rows of
digits. -/
theorem wide_and_padded_ids_lost :
    legacyExtensions (body widePadded) 185 = .ok (extensions widePadded) ∧
      (body widePadded).products.map (·.id) = ["18446744073709551616", "7", "07"] ∧
      (body widePadded).products.flatMap (fun p => p.contents.map (·.id)) = ["1000"] ∧
      valueAt (extensions widePadded) (Oid.product 18446744073709551616 ProductField.name) =
        none ∧
      valueAt (extensions widePadded) (Oid.content 1000 1) = none ∧
      ¬ ((extensions widePadded).map (·.oid)).Nodup := by
  exact ⟨rfl, by decide, by decide, by decide, by decide, by decide⟩

end EntitlementAuthority
