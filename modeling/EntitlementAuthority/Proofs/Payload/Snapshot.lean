import EntitlementAuthority.Proofs.Payload.Cache
import EntitlementAuthority.Proofs.Payload.Framing
import EntitlementAuthority.Proofs.Payload.Sharing
import EntitlementAuthority.Proofs.Promotion.Change

/-!
# Payloads of outdated environments

A request takes the environments of its consumer and goes on to the payload cache with them. Other
requests may promote content in between, and take promotions back. A row is stamped when its payload
is begun, so whatever changed between the two is older than the row.

* `Authority.IsOwed` — a payload has the body that would be built now, and is signed.
* `Authority.IsSound` — a row is stale or holds what would be built now.
* `Authority.contentPayload_eq` — the row that a request answers with and leaves, whatever it found.
* `Authority.isSound_iff_of_overtaken` — when the row of an overtaken request is sound.
-/

namespace EntitlementAuthority

/-! ### Whose content payload it is -/

/-- Who has access to content is on record. -/
theorem find_eq_some {d : Directory} {id : String} {x : ContentAccess}
    (h : ContentAccess.find d id = .ok (some x)) :
    d.consumers.get? id = some x.consumer ∧ d.owners.get? x.consumer.ownerId = some x.owner ∧
      x.environments = d.environmentsOf x.consumer := by
  unfold ContentAccess.find at h
  obtain ⟨consumer, hconsumer, h⟩ := Outcome.bind_eq_ok.1 h
  obtain ⟨owner, howner, h⟩ := Outcome.bind_eq_ok.1 h
  split at h
  · cases h
    exact ⟨Directory.find_eq_ok.1 hconsumer, Directory.find_eq_ok.1 howner, rfl⟩
  · cases h

/-! ### The row that a request leaves -/

namespace Authority

variable {a : Authority} {x : ContentAccess} {now : Instant}

/-- The row that is kept for a consumer. -/
def keptRow? (a : Authority) (x : ContentAccess) : Option PayloadRow :=
  a.payloads.store.get? (x.owner.id, x.payloadKey a.config)

/-- The row that a request makes for a consumer. -/
def madeRow (a : Authority) (x : ContentAccess) (now : Instant) : PayloadRow where
  ownerId := x.owner.id
  key := x.payloadKey a.config
  timestamp := now
  payload := Payload.ofBody a.ca.signer (x.payloadBody a.config a.directory)

/-- The row that counts after a request: the one that is kept, unless it is stale for what the
request knows. -/
def rowAfter (a : Authority) (x : ContentAccess) (now : Instant) : PayloadRow :=
  ((a.keptRow? x).filter fun row => !row.isStale x.owner x.environments).getD (a.madeRow x now)

/-- What a request leaves that has put in the row it made. -/
theorem finish_madeRow {wasStale : Bool} (h : ∃ counts,
    PayloadCache.finish wasStale (a.madeRow x now) a.payloads = (.ok (a.madeRow x now),
      { store := a.payloads.store.insert (x.owner.id, x.payloadKey a.config) (a.madeRow x now),
        counts })) :
    ∃ signatures payloads, (do
      let payload ← buildContentPayload x
      Request.within Authority.payloads (fun payloads a => { a with payloads })
        (PayloadCache.finish wasStale
          { ownerId := x.owner.id, key := x.payloadKey a.config, timestamp := now, payload })
      : Request Authority PayloadRow) a = (.ok (a.madeRow x now), { a with signatures, payloads }) ∧
      payloads.store =
        a.payloads.store.insert (x.owner.id, x.payloadKey a.config) (a.madeRow x now) := by
  have hbuild : buildContentPayload x a = (.ok (a.madeRow x now).payload,
      { a with signatures := a.signatures + 1 }) := rfl
  obtain ⟨counts, hfinish⟩ := h
  let store := a.payloads.store.insert (x.owner.id, x.payloadKey a.config) (a.madeRow x now)
  refine ⟨a.signatures + 1, { store, counts }, ?_, rfl⟩
  rw [Request.bind_ok hbuild]
  exact Request.within_ok hfinish

/-- A request answers with the row that counts and leaves it behind; no other row changes, and
nothing else that matters. -/
theorem contentPayload_eq (x : ContentAccess) (now : Instant) (a : Authority) :
    ∃ signatures payloads,
      contentPayload x now a = (.ok (a.rowAfter x now), { a with signatures, payloads }) ∧
        ∀ k, payloads.store.get? k = if (x.owner.id, x.payloadKey a.config) = k
          then some (a.rowAfter x now) else a.payloads.store.get? k := by
  unfold contentPayload PayloadCache.getOrCreate
  rw [Request.bind_ok (Request.get_apply _ a)]
  unfold rowAfter
  -- nothing was kept, or a stale row, or one that is still good
  cases hkept : a.keptRow? x with
  | none =>
    rw [Request.bind_ok (Request.within_ok (PayloadCache.consult_of_none hkept))]
    obtain ⟨signatures, payloads, hrow, hstore⟩ :=
      finish_madeRow (PayloadCache.finish_of_none hkept)
    exact ⟨signatures, payloads, hrow, fun k => by rw [hstore, Table.get?_insert]; rfl⟩
  | some row =>
    cases hstale : row.isStale x.owner x.environments with
    | true =>
      rw [Request.bind_ok (Request.within_ok (PayloadCache.consult_of_stale hkept hstale)),
        Option.filter_some, hstale]
      obtain ⟨signatures, payloads, hrow, hstore⟩ :=
        finish_madeRow (PayloadCache.finish_of_stale (a.madeRow x now) a.payloads)
      exact ⟨signatures, payloads, hrow, fun k => by rw [hstore, Table.get?_insert]; rfl⟩
    | false =>
      obtain ⟨counts, hconsult⟩ := PayloadCache.consult_of_fresh hkept hstale
      rw [Request.bind_ok (Request.within_ok hconsult), Option.filter_some, hstale]
      refine ⟨_, _, rfl, fun k => ?_⟩
      split
      · rename_i hk
        rw [← hk]
        exact hkept
      · rfl

/-- A request leaves the row that counts, and changes nothing else that matters. -/
theorem contentPayload_result (x : ContentAccess) (now : Instant) (a : Authority) :
    ∃ signatures payloads, (contentPayload x now a).2 = { a with signatures, payloads } ∧
      payloads.store.get? (x.owner.id, x.payloadKey a.config) = some (a.rowAfter x now) := by
  obtain ⟨signatures, payloads, hanswer, hget⟩ := contentPayload_eq x now a
  refine ⟨signatures, payloads, congrArg Prod.snd hanswer, ?_⟩
  rw [hget, if_pos rfl]

/-! ### Sound rows -/

/-- The text of the body that would be built for a consumer now. -/
def owedJson (a : Authority) (x : ContentAccess) : Bytes :=
  (owedPayload a.config a.directory x.owner x.consumer).bytes

/-- A payload has the body that would be built for a consumer now, signed by the authority. -/
def IsOwed (a : Authority) (x : ContentAccess) (payload : String) : Prop :=
  SignedPayload.Carries a.ca.signer (a.owedJson x) payload

/-- A row that is not stale holds what would be built now. -/
def IsSound (a : Authority) (x : ContentAccess) (row : PayloadRow) : Prop :=
  row.isStale x.owner (a.directory.environmentsOf x.consumer) = false → a.IsOwed x row.payload

/-- The authority after changes of promotions. -/
def promoting (cs : List PromotionChange) (a : Authority) : Authority :=
  { a with directory := PromotionChange.run cs a.directory }

/-- A request that goes on at `now` with the environments that it has taken before. -/
def overtaken (x : ContentAccess) (before : List PromotionChange) (now : Instant)
    (after : List PromotionChange) (a : Authority) : Authority :=
  (contentPayload x now (a.promoting before)).2.promoting after

end Authority

theorem PayloadRow.isStale_eq_false {row : PayloadRow} {owner : Owner}
    {environments : List Environment} :
    row.isStale owner environments = false ↔ ¬ row.timestamp ≤ owner.contentUpdated ∧
      ∀ e ∈ environments, ¬ row.timestamp < e.contentUpdated := by
  simp only [isStale, Bool.or_eq_false_iff, decide_eq_false_iff_not, List.any_eq_false,
    decide_eq_true_eq]

theorem ContentAccess.payloadBody_congr {d d' : Directory} (h : d'.pools = d.pools)
    (config : Config) (x : ContentAccess) : x.payloadBody config d' = x.payloadBody config d := by
  simp only [payloadBody, everything, Directory.activeContent, h]

namespace Authority

variable {a b d : Authority} {x y : ContentAccess} {now t : Instant} {row : PayloadRow}

/-- Only the environments decide what is owed, as long as nothing else changes. -/
theorem owedJson_congr (hlater : PromotionChange.LaterThan t a.directory d.directory)
    (hconfig : d.config = a.config)
    (h : d.directory.environmentsOf x.consumer = a.directory.environmentsOf x.consumer) :
    d.owedJson x = a.owedJson x := by
  unfold owedJson owedPayload ContentAccess.ofConsumer
  rw [hconfig, h, ContentAccess.payloadBody_congr hlater.pools_eq]

theorem isOwed_congr {payload : String} (hca : d.ca = a.ca) (h : d.owedJson x = a.owedJson x) :
    d.IsOwed x payload ↔ a.IsOwed x payload := by
  unfold IsOwed
  rw [hca, h]

/-- What is owed is what a payload is built for. -/
theorem isOwed_ofBody_iff {body : EntitlementBody} :
    a.IsOwed x (Payload.ofBody a.ca.signer body) ↔ body.bytes = a.owedJson x :=
  SignedPayload.carries_frame_iff a.ca.signer_sound

/-- **A sound row stays sound**, if all changes are later than the row. -/
theorem IsSound.later (h : a.IsSound x row)
    (hlater : PromotionChange.LaterThan row.timestamp a.directory d.directory)
    (hfixed : d.config = a.config ∧ d.ca = a.ca) : d.IsSound x row := by
  intro hfresh
  have henvironments := hlater.environmentsOf_eq (PayloadRow.isStale_eq_false.1 hfresh).2
  rw [isOwed_congr hfixed.2 (owedJson_congr hlater hfixed.1 henvironments)]
  rw [henvironments] at hfresh
  exact h hfresh

/-- A row that is made from environments that may be outdated is sound exactly if something else
makes it stale, or the environments of the moment when it is made would have given the same. -/
theorem isSound_madeRow_iff
    (hstamps : ∀ e ∈ b.directory.environmentsOf x.consumer, e.contentUpdated < now)
    (hlater : PromotionChange.LaterThan now b.directory d.directory)
    (hfixed : d.config = b.config ∧ d.ca = b.ca) :
    d.IsSound x (b.madeRow x now) ↔ now ≤ x.owner.contentUpdated ∨
      d.directory.environmentsOf x.consumer ≠ b.directory.environmentsOf x.consumer ∨
      b.IsOwed x (b.madeRow x now).payload := by
  have hfresh : (b.madeRow x now).isStale x.owner (d.directory.environmentsOf x.consumer) = false ↔
      ¬ now ≤ x.owner.contentUpdated ∧
        d.directory.environmentsOf x.consumer = b.directory.environmentsOf x.consumer := by
    rw [PayloadRow.isStale_eq_false]
    -- a stamp as late as the row can only be left by what came after it
    refine and_congr_right fun _ => ⟨hlater.environmentsOf_eq, fun hsame e he => ?_⟩
    rw [hsame] at he
    exact Instant.not_lt.2 (Instant.le_of_lt (hstamps e he))
  unfold IsSound
  rw [hfresh]
  constructor
  · intro h
    by_cases howner : now ≤ x.owner.contentUpdated
    · exact .inl howner
    by_cases hsame : d.directory.environmentsOf x.consumer = b.directory.environmentsOf x.consumer
    · exact .inr (.inr ((isOwed_congr hfixed.2 (owedJson_congr hlater hfixed.1 hsame)).1
        (h ⟨howner, hsame⟩)))
    · exact .inr (.inl hsame)
  · rintro (howner | hchanged | hmade) ⟨hnot, hsame⟩
    · exact absurd howner hnot
    · exact absurd hsame hchanged
    · exact (isOwed_congr hfixed.2 (owedJson_congr hlater hfixed.1 hsame)).2 hmade

/-! ### Requests that are overtaken -/

/-- What happened since the environments were taken. -/
theorem overtaken_result (x : ContentAccess) (before : List PromotionChange) (now : Instant)
    (after : List PromotionChange) (a : Authority) :
    (a.overtaken x before now after).directory =
        PromotionChange.run after (a.promoting before).directory ∧
      ((a.overtaken x before now after).config = a.config ∧
        (a.overtaken x before now after).ca = a.ca) ∧
      (a.overtaken x before now after).keptRow? x = some ((a.promoting before).rowAfter x now) := by
  obtain ⟨signatures, payloads, hresult, hrow⟩ := contentPayload_result x now (a.promoting before)
  unfold overtaken
  rw [hresult]
  exact ⟨rfl, ⟨rfl, rfl⟩, hrow⟩

/-- The row that a request makes holds what was owed when the environments were taken. -/
theorem isOwed_madeRow_iff (hx : x.environments = a.directory.environmentsOf x.consumer)
    (hlater : PromotionChange.LaterThan t a.directory b.directory) (hconfig : b.config = a.config) :
    b.IsOwed y (b.madeRow x now).payload ↔ a.owedJson x = b.owedJson y := by
  have hjson : (x.payloadBody b.config b.directory).bytes = a.owedJson x := by
    unfold owedJson owedPayload ContentAccess.ofConsumer
    rw [← hx, hconfig, ContentAccess.payloadBody_congr hlater.pools_eq]
  rw [← hjson]
  exact isOwed_ofBody_iff

/-- The environments are taken at `start`, and the request goes on at `now`; the clock never stands
still. -/
structure InOrder (start : Instant) (before : List PromotionChange) (now : Instant)
    (after : List PromotionChange) : Prop where
  started : start < now
  before : ∀ c ∈ before, start < c.moment ∧ c.moment < now
  after : ∀ c ∈ after, now < c.moment

namespace InOrder

variable {start : Instant} {before after : List PromotionChange}

/-- What changed before the row was stamped is later than the environments. -/
theorem laterThan_promoting (h : InOrder start before now after) (a : Authority) :
    PromotionChange.LaterThan start a.directory (a.promoting before).directory :=
  PromotionChange.laterThan_run (fun c hc => (h.before c hc).1) a.directory

/-- What changed afterwards is later than the row. -/
theorem laterThan_overtaken (h : InOrder start before now after) (x : ContentAccess)
    (a : Authority) :
    PromotionChange.LaterThan now (a.promoting before).directory
      (a.overtaken x before now after).directory := by
  rw [(overtaken_result x before now after a).1]
  exact PromotionChange.laterThan_run h.after _

/-- Everything that changed is later than a row that was kept when the environments were taken. -/
theorem laterThan_kept (h : InOrder start before now after) (x : ContentAccess) (a : Authority)
    (ht : t ≤ start) :
    PromotionChange.LaterThan t a.directory (a.overtaken x before now after).directory := by
  rw [(overtaken_result x before now after a).1]
  refine .trans (PromotionChange.laterThan_run (fun c hc => ?_) a.directory)
    (PromotionChange.laterThan_run (fun c hc => ?_) _)
  · exact Instant.lt_of_le_of_lt ht (h.before c hc).1
  · exact Instant.lt_of_le_of_lt ht (Instant.lt_trans h.started (h.after c hc))

/-- No environment has a stamp as late as the row. -/
theorem stamps (h : InOrder start before now after) {consumer : Consumer}
    (hstamps : ∀ e ∈ a.directory.environmentsOf consumer, e.contentUpdated ≤ start) :
    ∀ e ∈ (a.promoting before).directory.environmentsOf consumer, e.contentUpdated < now :=
  PromotionChange.stamps_run (fun c hc => (h.before c hc).2) fun e he =>
    Instant.lt_of_le_of_lt (hstamps e he) h.started

end InOrder

/-- **When the row of an overtaken request is sound.** It is if the request has found it, and if it
becomes stale by a change of the owner or of an environment since it was stamped. Otherwise it is
only if what was promoted between taking the environments and stamping the row made no
difference. -/
theorem isSound_iff_of_overtaken {start : Instant} {before after : List PromotionChange}
    (hx : x.environments = a.directory.environmentsOf x.consumer)
    (horder : InOrder start before now after)
    (hstamps : ∀ e ∈ x.environments, e.contentUpdated ≤ start)
    (hkept : ∀ row, a.keptRow? x = some row → row.timestamp ≤ start ∧ a.IsSound x row) :
    ∃ row, (a.overtaken x before now after).keptRow? x = some row ∧
      ((a.overtaken x before now after).IsSound x row ↔
        a.keptRow? x = some row ∨ now ≤ x.owner.contentUpdated ∨
        (a.overtaken x before now after).directory.environmentsOf x.consumer ≠
          (a.promoting before).directory.environmentsOf x.consumer ∨
        (a.promoting before).owedJson x = a.owedJson x) := by
  obtain ⟨-, hfixed, hrow⟩ := overtaken_result x before now after a
  refine ⟨_, hrow, ?_⟩
  rw [hx] at hstamps
  -- a row that is made is none that was there
  have hmade : (a.overtaken x before now after).IsSound x ((a.promoting before).madeRow x now) ↔
      a.keptRow? x = some ((a.promoting before).madeRow x now) ∨ now ≤ x.owner.contentUpdated ∨
        (a.overtaken x before now after).directory.environmentsOf x.consumer ≠
          (a.promoting before).directory.environmentsOf x.consumer ∨
        (a.promoting before).owedJson x = a.owedJson x := by
    have hnew : a.keptRow? x ≠ some ((a.promoting before).madeRow x now) := fun h =>
      Instant.not_lt.2 (hkept _ h).1 horder.started
    rw [isSound_madeRow_iff (horder.stamps hstamps) (horder.laterThan_overtaken x a) hfixed,
      isOwed_madeRow_iff hx (horder.laterThan_promoting a) rfl, or_iff_right hnew,
      eq_comm (a := a.owedJson x)]
  have hsame : (a.promoting before).keptRow? x = a.keptRow? x := rfl
  unfold rowAfter
  rw [hsame]
  cases hfound : a.keptRow? x with
  | none =>
    rw [hfound] at hmade
    exact hmade
  | some row =>
    rw [hfound] at hmade
    rw [Option.filter_some]
    cases row.isStale x.owner x.environments with
    | true => exact hmade
    | false =>
      obtain ⟨htimestamp, hsound⟩ := hkept row hfound
      exact iff_of_true (hsound.later (horder.laterThan_kept x a htimestamp) hfixed) (.inl rfl)

end Authority

/-! ### A promotion that is taken back in between -/

namespace Withdrawn

/-- An environment that switches a content off. -/
def dev : Environment where
  id := "dev"
  ownerId := "sample-owner"
  name := "dev"
  promotions := Table.ofList [("1000", ⟨some false⟩)]
  contentUpdated := ⟨0, 0⟩

/-- A consumer in it. -/
def consumer : Consumer :=
  { Sample.consumer "uuid" false ⟨0, 0⟩ with environmentIds := ["dev"] }

/-- The owner has the content. -/
def changes : List DirectoryChange :=
  [.addOwner SharedKey.owner, .addEnvironment dev, .addConsumer consumer,
    .addPool (poolWith SharedKey.owner.id [Sample.content 0])]

/-- The records of the owner. -/
def directory : Directory :=
  changes.foldl (fun d c => c.apply d) Directory.empty

/-- What a request for the payload of the consumer takes. -/
def access : ContentAccess :=
  .ofConsumer directory SharedKey.owner consumer

/-- The promotion is taken back. -/
def withdrawal : PromotionChange :=
  ⟨"dev", "1000", none, ⟨2, 0⟩⟩

/-- The records after that. -/
def withdrawnDirectory : Directory :=
  PromotionChange.run [withdrawal] directory

/-- The promotion is made again. -/
def renewal : PromotionChange :=
  ⟨"dev", "1000", some ⟨some false⟩, ⟨4, 0⟩⟩

/-- What the consumer is owed. -/
def owed (d : Directory) : EntitlementBody :=
  owedPayload {} d SharedKey.owner consumer

theorem fits_owed : (owed directory).Fits ∧ (owed withdrawnDirectory).Fits :=
  ⟨.contentOnly (by decide), .contentOnly (by decide)⟩

/-- The content is switched off before, and not after. -/
theorem owed_withdrawn_ne : owed directory ≠ owed withdrawnDirectory := by
  decide

variable {a : Authority}

/-- An authority with those records that has not built any payload. -/
structure Untouched (a : Authority) : Prop where
  reachable : a.Reachable
  config_eq : a.config = {}
  directory_eq : a.directory = directory
  kept_eq : a.keptRow? access = none

theorem exists_untouched : ∃ a, Untouched a := by
  obtain ⟨start, hstart, hconfig, hempty, -⟩ := Authority.exists_start
  refine ⟨_, (Authority.Reachable.of_create hstart).changes changes, hconfig, ?_, ?_⟩
  · rw [hempty]
    rfl
  · unfold Authority.keptRow?
    dsimp only
    rw [(Authority.IsNew.of_create hstart).payloads]
    rfl

namespace Untouched

theorem environments_eq (h : Untouched a) :
    access.environments = a.directory.environmentsOf access.consumer := by
  rw [h.directory_eq]
  rfl

theorem withdrawn_eq (h : Untouched a) :
    (a.promoting [withdrawal]).directory = withdrawnDirectory :=
  congrArg (PromotionChange.run [withdrawal]) h.directory_eq

/-- A request makes a row. -/
theorem rowAfter_eq (h : Untouched a) (now : Instant) :
    (a.promoting [withdrawal]).rowAfter access now =
      (a.promoting [withdrawal]).madeRow access now := by
  have hnone : (a.promoting [withdrawal]).keptRow? access = none := h.kept_eq
  unfold Authority.rowAfter
  rw [hnone]
  rfl

end Untouched

theorem owedJson_access (h : a.config = {}) : a.owedJson access = (owed a.directory).bytes := by
  unfold Authority.owedJson
  rw [h]
  rfl

/-- The content is promoted again after the row has been stamped, so the row is known to be
outdated. -/
theorem isSound_of_renewed : ∃ (a : Authority) (row : PayloadRow), a.Reachable ∧
    (a.overtaken access [withdrawal] ⟨3, 0⟩ [renewal]).keptRow? access = some row ∧
    (a.overtaken access [withdrawal] ⟨3, 0⟩ [renewal]).IsSound access row := by
  obtain ⟨a, ha⟩ := exists_untouched
  have horder : Authority.InOrder ⟨1, 0⟩ [withdrawal] ⟨3, 0⟩ [renewal] :=
    ⟨by decide, by decide, by decide⟩
  have hstamps : ∀ e ∈ access.environments, e.contentUpdated ≤ ⟨1, 0⟩ := by decide
  have hkept : ∀ row, a.keptRow? access = some row →
      row.timestamp ≤ ⟨1, 0⟩ ∧ a.IsSound access row := by
    rw [ha.kept_eq]
    exact nofun
  obtain ⟨row, hrow, hsound⟩ :=
    Authority.isSound_iff_of_overtaken ha.environments_eq horder hstamps hkept
  refine ⟨a, row, ha.reachable, hrow, hsound.2 (.inr (.inr (.inl ?_)))⟩
  rw [(Authority.overtaken_result access [withdrawal] ⟨3, 0⟩ [renewal] a).1, ha.withdrawn_eq]
  exact fun h => absurd (congrArg (List.map Environment.contentUpdated) h) (by decide)

/-- A payload that is built from the environments of before the withdrawal is stamped after it. It
is not what the consumer is owed, but it is not stale. -/
theorem outdated_row_is_fresh : ∃ (a : Authority) (row : PayloadRow),
    a.Reachable ∧ a.keptRow? access = none ∧
    ContentAccess.find a.directory "sample-consumer" = .ok (some access) ∧
    Authority.InOrder ⟨1, 0⟩ [withdrawal] ⟨3, 0⟩ [] ∧
    (a.overtaken access [withdrawal] ⟨3, 0⟩ []).keptRow? access = some row ∧
    row.isStale access.owner ((a.overtaken access [withdrawal] ⟨3, 0⟩ []).directory.environmentsOf
      access.consumer) = false ∧
    ¬ (a.overtaken access [withdrawal] ⟨3, 0⟩ []).IsOwed access row.payload := by
  obtain ⟨a, ha⟩ := exists_untouched
  obtain ⟨hdirectory, ⟨hconfig, hca⟩, hrow⟩ :=
    Authority.overtaken_result access [withdrawal] ⟨3, 0⟩ [] a
  rw [ha.withdrawn_eq] at hdirectory
  rw [ha.rowAfter_eq] at hrow
  have hfind : ContentAccess.find a.directory "sample-consumer" = .ok (some access) := by
    rw [ha.directory_eq]
    rfl
  have horder : Authority.InOrder ⟨1, 0⟩ [withdrawal] ⟨3, 0⟩ [] :=
    ⟨by decide, by decide, by decide⟩
  refine ⟨a, _, ha.reachable, ha.kept_eq, hfind, horder, hrow, ?_, ?_⟩
  · rw [hdirectory, PayloadRow.isStale_eq_false]
    constructor
    · exact (by decide : ¬ (⟨3, 0⟩ : Instant) ≤ ⟨0, 0⟩)
    · show ∀ e ∈ withdrawnDirectory.environmentsOf consumer, ¬ (⟨3, 0⟩ : Instant) < e.contentUpdated
      decide
  · have howed : (a.overtaken access [withdrawal] ⟨3, 0⟩ []).owedJson access =
        (a.promoting [withdrawal]).owedJson access := by
      unfold Authority.owedJson
      rw [hconfig, hdirectory, ← ha.withdrawn_eq]
      rfl
    rw [Authority.isOwed_congr (a := a.promoting [withdrawal]) hca howed,
      Authority.isOwed_madeRow_iff ha.environments_eq (horder.laterThan_promoting a) rfl,
      owedJson_access ha.config_eq, owedJson_access (a := a.promoting [withdrawal]) ha.config_eq,
      ha.directory_eq, ha.withdrawn_eq]
    exact fun hsame =>
      owed_withdrawn_ne (EntitlementBody.bytes_injective fits_owed.1 fits_owed.2 hsame)

end Withdrawn

end EntitlementAuthority
