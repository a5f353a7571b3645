import EntitlementAuthority.Body.Codec
import EntitlementAuthority.Proofs.Json.Records

/-!
# Entitlement bodies, written and read back

* `EntitlementBody.Fits` — all numbers of a body have 64 bits.
* `EntitlementBody.recovers` — such a body is read back from its JSON value, whatever it leaves out.
* `EntitlementBody.read_bytes` — and from its text.
* `EntitlementBody.bytes_injective` — so different bodies have different texts.
-/

namespace EntitlementAuthority

open Json

/-! ### Fields -/

theorem recoversField_text (s : String) : RecoversField (required? text?) (jsonText s) s :=
  .required (recovers_text s)

theorem recoversField_maybeText (s : Option String) :
    RecoversField (maybe? text?) (jsonText? s) s :=
  .maybe fun s _ => recovers_text s

theorem recoversField_maybeInt {n : Option Int} (h : ∀ m ∈ n, IsInt64 m) :
    RecoversField (maybe? int64?) (jsonInt? n) n :=
  .maybe fun m hm => recovers_int64 (h m hm)

theorem recoversField_maybeBool (b : Option Bool) :
    RecoversField (maybe? bool?) (jsonBool? b) b :=
  .maybe fun b _ => recovers_bool b

theorem recovers_texts (texts : List String) : Recovers texts? (jsonTexts texts) texts :=
  recovers_list fun s _ => recovers_text s

theorem recoversField_textsUnlessEmpty (texts : List String) :
    RecoversField (orElse? [] texts?) (jsonTextsUnlessEmpty texts) texts := by
  cases texts with
  | nil => exact ⟨nofun, rfl⟩
  | cons s texts => exact .orElse (recovers_texts (s :: texts))

theorem recoversField_maybeTexts (texts : Option (List String)) :
    RecoversField (maybe? texts?) (texts.map jsonTexts) texts :=
  .maybe fun texts _ => recovers_texts texts

/-! ### Contents and products -/

/-- The number of a content has 64 bits. -/
def ContentModel.Fits (c : ContentModel) : Prop :=
  ∀ n ∈ c.metadataExpire, IsInt64 n

/-- The numbers of a product have 64 bits. -/
def ProductModel.Fits (p : ProductModel) : Prop :=
  ∀ c ∈ p.contents, c.Fits

instance (c : ContentModel) : Decidable c.Fits :=
  inferInstanceAs (Decidable (∀ n ∈ c.metadataExpire, IsInt64 n))

instance (p : ProductModel) : Decidable p.Fits :=
  inferInstanceAs (Decidable (∀ c ∈ p.contents, c.Fits))

theorem ContentModel.recovers {c : ContentModel} (h : c.Fits) :
    Recovers ContentModel.ofJson? c.toJson c := by
  refine ⟨.ofFields ?_, Json.noConfusion, ?_⟩
  · simp only [List.forall_mem_cons]
    exact ⟨(recoversField_text _).written, (recoversField_text _).written,
      (recoversField_text _).written, (recoversField_text _).written,
      (recoversField_text _).written, (recoversField_text _).written,
      (recoversField_maybeText _).written, (recoversField_maybeBool _).written,
      (recoversField_maybeInt h).written, (recoversField_textsUnlessEmpty _).written,
      (recoversField_textsUnlessEmpty _).written, List.forall_mem_nil _⟩
  · rw [ofJson?, toJson, fields?_ofFields]
    · rw [Option.bind_eq_bind, Option.bind_some]
      simp only [List.map_cons, List.map_nil, ↓(recoversField_text _).bind,
        ↓(recoversField_maybeText _).bind, ↓(recoversField_maybeBool _).bind,
        ↓(recoversField_maybeInt h).bind, ↓(recoversField_textsUnlessEmpty _).bind]
    · rfl
    · decide

theorem ProductModel.recovers {p : ProductModel} (h : p.Fits) :
    Recovers ProductModel.ofJson? p.toJson p := by
  have hcontents : RecoversField (orElse? [] (listOf? ContentModel.ofJson?))
      (some (.array (p.contents.map ContentModel.toJson))) p.contents :=
    .orElse (recovers_list fun c hc => ContentModel.recovers (h c hc))
  refine ⟨.ofFields ?_, Json.noConfusion, ?_⟩
  · simp only [List.forall_mem_cons]
    exact ⟨(recoversField_text _).written, (recoversField_text _).written,
      (recoversField_maybeText _).written, (recoversField_maybeText _).written,
      (recoversField_maybeText _).written, (recoversField_maybeText _).written,
      (recoversField_textsUnlessEmpty _).written, hcontents.written, List.forall_mem_nil _⟩
  · rw [ofJson?, toJson, fields?_ofFields]
    · rw [Option.bind_eq_bind, Option.bind_some]
      simp only [List.map_cons, List.map_nil, ↓(recoversField_text _).bind,
        ↓(recoversField_maybeText _).bind, ↓(recoversField_textsUnlessEmpty _).bind,
        ↓hcontents.bind]
    · rfl
    · decide

/-! ### Subscriptions, orders and pools -/

theorem ServiceModel.recovers (s : ServiceModel) : Recovers ServiceModel.ofJson? s.toJson s := by
  refine ⟨.ofFields ?_, Json.noConfusion, ?_⟩
  · simp only [List.forall_mem_cons]
    exact ⟨(recoversField_maybeText _).written, (recoversField_maybeText _).written,
      List.forall_mem_nil _⟩
  · rw [ofJson?, toJson, fields?_ofFields]
    · rw [Option.bind_eq_bind, Option.bind_some]
      simp only [List.map_cons, List.map_nil, ↓(recoversField_maybeText _).bind]
    · rfl
    · decide

/-- The numbers of a subscription have 64 bits. -/
structure SubscriptionModel.Fits (s : SubscriptionModel) : Prop where
  warning : ∀ n ∈ s.warning, IsInt64 n
  sockets : ∀ n ∈ s.sockets, IsInt64 n
  ram : ∀ n ∈ s.ram, IsInt64 n
  cores : ∀ n ∈ s.cores, IsInt64 n

theorem SubscriptionModel.recovers {s : SubscriptionModel} (h : s.Fits) :
    Recovers SubscriptionModel.ofJson? s.toJson s := by
  have hservice : RecoversField (maybe? ServiceModel.ofJson?) (s.service.map ServiceModel.toJson)
      s.service := .maybe fun service _ => service.recovers
  refine ⟨.ofFields ?_, Json.noConfusion, ?_⟩
  · simp only [List.forall_mem_cons]
    exact ⟨(recoversField_text _).written, (recoversField_text _).written,
      (recoversField_maybeInt h.warning).written, (recoversField_maybeInt h.sockets).written,
      (recoversField_maybeInt h.ram).written, (recoversField_maybeInt h.cores).written,
      (recoversField_maybeBool _).written, (recoversField_maybeText _).written,
      (recoversField_maybeBool _).written, hservice.written, (recoversField_maybeText _).written,
      (recoversField_maybeTexts _).written, (recoversField_maybeTexts _).written,
      List.forall_mem_nil _⟩
  · rw [ofJson?, toJson, fields?_ofFields]
    · rw [Option.bind_eq_bind, Option.bind_some]
      simp only [List.map_cons, List.map_nil, ↓(recoversField_text _).bind,
        ↓(recoversField_maybeText _).bind, ↓(recoversField_maybeBool _).bind,
        ↓(recoversField_maybeTexts _).bind, ↓(recoversField_maybeInt h.warning).bind,
        ↓(recoversField_maybeInt h.sockets).bind, ↓(recoversField_maybeInt h.ram).bind,
        ↓(recoversField_maybeInt h.cores).bind, ↓hservice.bind]
    · rfl
    · decide

/-- The number of an order has 64 bits. -/
def OrderModel.Fits (o : OrderModel) : Prop :=
  IsInt64 o.quantity

theorem OrderModel.recovers {o : OrderModel} (h : o.Fits) :
    Recovers OrderModel.ofJson? o.toJson o := by
  have hquantity : RecoversField (required? int64?) (some (ofInt o.quantity)) o.quantity :=
    .required (recovers_int64 h)
  refine ⟨.ofFields ?_, Json.noConfusion, ?_⟩
  · simp only [List.forall_mem_cons]
    exact ⟨(recoversField_maybeText _).written, hquantity.written, (recoversField_text _).written,
      (recoversField_text _).written, (recoversField_maybeText _).written,
      (recoversField_maybeText _).written, List.forall_mem_nil _⟩
  · rw [ofJson?, toJson, fields?_ofFields]
    · rw [Option.bind_eq_bind, Option.bind_some]
      simp only [List.map_cons, List.map_nil, ↓(recoversField_text _).bind,
        ↓(recoversField_maybeText _).bind, ↓hquantity.bind]
    · rfl
    · decide

theorem recovers_pool (id : String) : Recovers poolOfJson? (poolToJson id) id := by
  refine ⟨.ofFields ?_, Json.noConfusion, ?_⟩
  · simp only [List.forall_mem_cons]
    exact ⟨(recoversField_text _).written, List.forall_mem_nil _⟩
  · rw [poolOfJson?, poolToJson, fields?_ofFields]
    · rw [Option.bind_eq_bind, Option.bind_some]
      exact (recoversField_text id).reads
    · rfl
    · decide

/-! ### Bodies -/

namespace EntitlementBody

variable {b b' : EntitlementBody}

/-- The numbers of a body have 64 bits. -/
structure Fits (b : EntitlementBody) : Prop where
  quantity : ∀ n ∈ b.quantity, IsInt64 n
  subscription : ∀ s ∈ b.subscription, s.Fits
  order : ∀ o ∈ b.order, o.Fits
  products : ∀ p ∈ b.products, p.Fits

theorem Fits.contentOnly {consumer : String} {products : List ProductModel}
    (h : ∀ p ∈ products, p.Fits) : (EntitlementBody.contentOnly consumer products).Fits where
  quantity n hn := absurd hn (Option.not_mem_none n)
  subscription s hs := absurd hs (Option.not_mem_none s)
  order o ho := absurd ho (Option.not_mem_none o)
  products := h

theorem recovers (h : b.Fits) : Recovers ofJson? b.toJson b := by
  have hquantity := recoversField_maybeInt h.quantity
  have hsubscription : RecoversField (maybe? SubscriptionModel.ofJson?)
      (b.subscription.map SubscriptionModel.toJson) b.subscription :=
    .maybe fun s hs => SubscriptionModel.recovers (h.subscription s hs)
  have horder : RecoversField (maybe? OrderModel.ofJson?) (b.order.map OrderModel.toJson) b.order :=
    .maybe fun o ho => OrderModel.recovers (h.order o ho)
  have hpool : RecoversField (maybe? poolOfJson?) (b.pool.map poolToJson) b.pool :=
    .maybe fun id _ => recovers_pool id
  have hproducts : RecoversField (orElse? [] (listOf? ProductModel.ofJson?))
      (some (.array (b.products.map ProductModel.toJson))) b.products :=
    .orElse (recovers_list fun p hp => ProductModel.recovers (h.products p hp))
  refine ⟨.ofFields ?_, Json.noConfusion, ?_⟩
  · simp only [List.forall_mem_cons]
    exact ⟨(recoversField_text _).written, hquantity.written, hsubscription.written,
      horder.written, hpool.written, hproducts.written, List.forall_mem_nil _⟩
  · rw [ofJson?, toJson, fields?_ofFields]
    · rw [Option.bind_eq_bind, Option.bind_some]
      simp only [List.map_cons, List.map_nil, ↓(recoversField_text _).bind, ↓hquantity.bind,
        ↓hsubscription.bind, ↓horder.bind, ↓hpool.bind, ↓hproducts.bind]
    · rfl
    · decide

/-- **A body is read back from its text.** -/
theorem read_bytes (h : b.Fits) : read b.bytes = .ok b := by
  obtain ⟨hwritten, -, hreads⟩ := recovers h
  rw [read, bytes, hwritten.read?_render]
  dsimp only
  rw [hreads]

/-- Bodies with the same text are the same. -/
theorem bytes_injective (h : b.Fits) (h' : b'.Fits) (heq : b.bytes = b'.bytes) : b = b' := by
  have hread := read_bytes h
  rw [heq, read_bytes h'] at hread
  cases hread
  rfl

end EntitlementBody

end EntitlementAuthority
