import EntitlementAuthority.Proofs.Payload.AccessRun

/-!
# Payloads over runs

Rows outlive the environments that they were built from, so each row has to be found outdated by
stamps alone whenever it is looked at again.

* `Disciplined` — owners and environments are stamped when they change, and consumers that share a
  row are alike.
* `Authority.Coherent` — every row that is kept is stale or holds what is owed.
* `Authority.Coherent.change`, `Authority.Coherent.request` — every event keeps it so.
* `answer_of_run` — every payload of a run is the one that is owed, if no stamp of an owner is
  turned back.
-/

namespace EntitlementAuthority

/-! ### What a payload depends on -/

section Owed

variable {config : Config} {d d' : Directory} {o o' : Owner} {c c' : Consumer}

/-- What is owed depends on the environments of the consumer, and on the prefix and the content of
the owner. -/
theorem owedPayload_congr (hid : o'.id = o.id) (hbase : o'.contentPrefix = o.contentPrefix)
    (hcontent : d'.activeContent o.id = d.activeContent o.id)
    (henvironments : d'.environmentsOf c = d.environmentsOf c) :
    owedPayload config d' o' c = owedPayload config d o c := by
  simp only [owedPayload, ContentAccess.ofConsumer, ContentAccess.payloadBody,
    ContentAccess.everything, ContentAccess.view, Config.template, PathTemplate.ofOwner, hid,
    hbase, hcontent, henvironments]

/-- Of the consumer, the architecture of the machine and the environments count. -/
theorem owedPayload_congr_consumer (harch : c'.arch = c.arch)
    (henvironments : c'.environmentIds = c.environmentIds) :
    owedPayload config d o c' = owedPayload config d o c := by
  rw [owedPayload_eq_iff_of_environmentIds_eq henvironments]
  intro pc _
  unfold Consumer.fits
  rw [harch]

end Owed

namespace Directory

/-- Owners stand under their ids. -/
def OwnersKeyed (d : Directory) : Prop :=
  ∀ id o, d.owners.get? id = some o → o.id = id

/-- The environments exist. -/
def HasEnvironments (d : Directory) (ids : List String) : Prop :=
  ∀ id ∈ ids, ∃ e, d.environments.get? id = some e

/-- An owner whose prefix or content changes is stamped. -/
def StampsOwners (now : Instant) (d d' : Directory) : Prop :=
  ∀ id o o', d.owners.get? id = some o → d'.owners.get? id = some o' →
    (o'.contentPrefix = o.contentPrefix ∧ d'.activeContent id = d.activeContent id) ∨
      o'.contentUpdated = now

/-- The stamp of an owner is not turned back, except to the present. -/
def StampsForward (now : Instant) (d d' : Directory) : Prop :=
  ∀ id o o', d.owners.get? id = some o → d'.owners.get? id = some o' →
    o.contentUpdated ≤ o'.contentUpdated ∨ o'.contentUpdated = now

/-- A change of the records that stamps whatever it changes. -/
structure WellChanged (d : Directory) (now : Instant) (d' : Directory) : Prop where
  keyed : d.OwnersKeyed
  keyed' : d'.OwnersKeyed
  owners : d.StampsOwners now d'
  forward : d.StampsForward now d'
  staying : ∀ id o, d.owners.get? id = some o → ∃ o', d'.owners.get? id = some o'
  environments : ∀ id, d'.environments.get? id = d.environments.get? id ∨
    d'.environments.get? id = none ∨
    ∃ e, d'.environments.get? id = some e ∧ e.contentUpdated = now

namespace WellChanged

variable {d d' : Directory} {now : Instant} {id : String}

/-- What is not stamped with the present has not changed. -/
theorem owner_unstamped (h : d.WellChanged now d') {o o' : Owner}
    (ho : d.owners.get? id = some o) (ho' : d'.owners.get? id = some o')
    (hnow : o'.contentUpdated ≠ now) : o'.contentPrefix = o.contentPrefix ∧
      d'.activeContent id = d.activeContent id ∧ o.contentUpdated ≤ o'.contentUpdated := by
  obtain ⟨hbase, hcontent⟩ := (h.owners id o o' ho ho').resolve_right hnow
  exact ⟨hbase, hcontent, (h.forward id o o' ho ho').resolve_right hnow⟩

theorem environment_unstamped (h : d.WellChanged now d') {e' : Environment}
    (he' : d'.environments.get? id = some e') (hnow : e'.contentUpdated ≠ now) :
    d'.environments.get? id = d.environments.get? id := by
  rcases h.environments id with heq | hnone | ⟨e, he, hstamp⟩
  · exact heq
  · rw [hnone] at he'
    cases he'
  · obtain rfl := Option.some.inj (he.symm.trans he')
    exact absurd hstamp hnow

end WellChanged

end Directory

/-! ### Rows that are coherent -/

namespace Authority

variable {a b : Authority} {x y : ContentAccess} {row : PayloadRow} {now : Instant}

/-- A row that is kept for a consumer whose environments exist is stale, or holds what the consumer
is owed by its owner as it is now. -/
def HoldsOwed (a : Authority) (x : ContentAccess) (row : PayloadRow) : Prop :=
  ∀ o, a.directory.owners.get? x.owner.id = some o →
    a.directory.HasEnvironments x.consumer.environmentIds →
    a.IsSound { x with owner := o } row

/-- Every row that is kept for one of those who ask is of an owner that exists, and it is stale or
holds what is owed. -/
def Coherent (asked : ContentAccess → Prop) (a : Authority) : Prop :=
  ∀ x, asked x → ∀ row, a.keptRow? x = some row →
    (∃ o, a.directory.owners.get? x.owner.id = some o) ∧ a.HoldsOwed x row

/-- A change keeps a row sound, or makes it stale. -/
theorem HoldsOwed.change (h : a.HoldsOwed x row)
    (howner : ∃ o, a.directory.owners.get? x.owner.id = some o) (hpast : row.timestamp < now)
    (hchange : a.directory.WellChanged now d) : HoldsOwed { a with directory := d } x row := by
  intro o' ho' hexist hfresh
  obtain ⟨hnew, hunchanged⟩ := PayloadRow.isStale_eq_false.1 hfresh
  obtain ⟨o, ho⟩ := howner
  -- a stamp of now would make the row stale, so nothing that it was built from has changed
  obtain ⟨hbase, hcontent, hforward⟩ := hchange.owner_unstamped ho ho' fun hnow =>
    hnew (hnow ▸ Instant.le_of_lt hpast)
  have hsame : ∀ id ∈ x.consumer.environmentIds,
      d.environments.get? id = a.directory.environments.get? id := by
    intro id hid
    obtain ⟨e', he'⟩ := hexist id hid
    exact hchange.environment_unstamped he' fun hnow =>
      hunchanged e' (List.mem_filterMap.2 ⟨id, hid, he'⟩) (hnow ▸ hpast)
  have hall : d.environmentsOf x.consumer = a.directory.environmentsOf x.consumer :=
    List.filterMap_congr hsame
  have hexist' : a.directory.HasEnvironments x.consumer.environmentIds := by
    intro id hid
    rw [← hsame id hid]
    exact hexist id hid
  have hfresh' : row.isStale o (a.directory.environmentsOf x.consumer) = false := by
    rw [PayloadRow.isStale_eq_false, ← hall]
    exact ⟨fun hle => hnew (Instant.le_trans hle hforward), hunchanged⟩
  have hid : o'.id = o.id := (hchange.keyed' _ _ ho').trans (hchange.keyed _ _ ho).symm
  have hcontent : d.activeContent o.id = a.directory.activeContent o.id := by
    rw [hchange.keyed _ _ ho]
    exact hcontent
  have howed := h o ho hexist' hfresh'
  unfold IsOwed owedJson at howed ⊢
  dsimp only at howed ⊢
  rw [owedPayload_congr hid hbase hcontent hall]
  exact howed

variable {asked : ContentAccess → Prop}

/-- **A change of the records keeps every row coherent**, if it stamps what it changes. -/
theorem Coherent.change (h : a.Coherent asked)
    (hpast : ∀ k row, a.payloads.store.get? k = some row → row.timestamp < now)
    (hchange : a.directory.WellChanged now d) : Coherent asked { a with directory := d } := by
  intro x hx row hrow
  have hrow : a.keptRow? x = some row := hrow
  obtain ⟨⟨o, ho⟩, hholds⟩ := h x hx row hrow
  exact ⟨hchange.staying _ o ho, hholds.change ⟨o, ho⟩ (hpast _ row hrow) hchange⟩

theorem Coherent.of_sameRows (h : a.Coherent asked) (hsame : a.SameRows b) : b.Coherent asked := by
  intro x hx row hrow
  rw [keptRow?, hsame.config, hsame.payloads] at hrow
  unfold HoldsOwed IsSound IsOwed owedJson
  rw [hsame.directory, hsame.config, hsame.ca]
  exact h x hx row hrow

theorem owner_of_find {id : String} (hkeyed : a.directory.OwnersKeyed)
    (h : ContentAccess.find a.directory id = .ok (some x)) :
    a.directory.owners.get? x.owner.id = some x.owner := by
  obtain ⟨-, howner, -⟩ := find_eq_some h
  rw [hkeyed _ _ howner]
  exact howner

theorem rowAfter_of_none (h : a.keptRow? x = none) : a.rowAfter x now = a.madeRow x now := by
  unfold rowAfter
  rw [h]
  rfl

theorem rowAfter_of_fresh (h : a.keptRow? x = some row)
    (hfresh : row.isStale x.owner x.environments = false) : a.rowAfter x now = row := by
  unfold rowAfter
  rw [h, Option.filter_some, hfresh]
  rfl

theorem rowAfter_of_stale (h : a.keptRow? x = some row)
    (hstale : row.isStale x.owner x.environments = true) :
    a.rowAfter x now = a.madeRow x now := by
  unfold rowAfter
  rw [h, Option.filter_some, hstale]
  rfl

/-- The row that counts holds what the consumer is owed. -/
theorem Coherent.rowAfter_payload {id : String} (h : a.Coherent asked) (hx : asked x)
    (hkeyed : a.directory.OwnersKeyed)
    (hfind : ContentAccess.find a.directory id = .ok (some x))
    (hexist : a.directory.HasEnvironments x.consumer.environmentIds) :
    a.IsOwed x (a.rowAfter x now).payload := by
  obtain ⟨-, -, henvironments⟩ := find_eq_some hfind
  have hmade : a.IsOwed x (a.madeRow x now).payload :=
    (isOwed_madeRow_iff henvironments (.refl now a.directory) rfl).2 rfl
  cases hkept : a.keptRow? x with
  | none =>
    rw [rowAfter_of_none hkept]
    exact hmade
  | some row =>
    cases hstale : row.isStale x.owner x.environments with
    | true =>
      rw [rowAfter_of_stale hkept hstale]
      exact hmade
    | false =>
      rw [rowAfter_of_fresh hkept hstale]
      rw [henvironments] at hstale
      exact (h x hx row hkept).2 x.owner (owner_of_find hkeyed hfind) hexist hstale

/-- **A request keeps every row coherent**, if those with the same row are alike. -/
theorem Coherent.request {id : String} (h : a.Coherent asked) (hx : asked x)
    (hkeyed : a.directory.OwnersKeyed)
    (hfind : ContentAccess.find a.directory id = .ok (some x))
    (hexist : a.directory.HasEnvironments x.consumer.environmentIds)
    (halike : ∀ y, asked y → x.owner.id = y.owner.id →
      x.payloadKey a.config = y.payloadKey a.config →
      x.consumer.arch = y.consumer.arch ∧ x.consumer.environmentIds = y.consumer.environmentIds)
    (hrow : a.LeavesRow x (a.rowAfter x now) b) : b.Coherent asked := by
  have howner := owner_of_find hkeyed hfind
  intro y hy row hkept
  unfold HoldsOwed IsSound IsOwed owedJson
  rw [keptRow?, hrow.config, hrow.rows] at hkept
  rw [hrow.directory, hrow.config, hrow.ca]
  split at hkept
  · rename_i hsame
    obtain ⟨hid, hkey⟩ := Prod.mk.inj hsame
    obtain ⟨harch, henvironments⟩ := halike y hy hid hkey
    obtain rfl := Option.some.inj hkept
    rw [← hid]
    refine ⟨⟨x.owner, howner⟩, fun o ho _ _ => ?_⟩
    obtain rfl := Option.some.inj (ho.symm.trans howner)
    dsimp only
    rw [← owedPayload_congr_consumer harch henvironments]
    exact h.rowAfter_payload hx hkeyed hfind hexist
  · exact h y hy row hkept

end Authority

/-! ### Disciplined runs -/

/-- Somebody asks on the run. -/
def AskedIn (start : Authority) (run : List (Instant × AccessEvent)) (x : ContentAccess) : Prop :=
  ∃ m ∈ accessTrace start run, m.Asks x

/-- A run from a state without payloads, on which the clock never stands still. Owners stand under
their ids and are stamped when their prefix or content changes, environments are stamped whenever
they change, those who ask are in environments that exist, and those with the same row are alike. -/
structure Disciplined (start : Authority) (run : List (Instant × AccessEvent)) : Prop where
  new : start.payloads.store = Table.empty
  clock : (run.map Prod.fst).Pairwise (· < ·)
  keyed : ∀ m ∈ accessTrace start run,
    m.before.directory.OwnersKeyed ∧ m.after.directory.OwnersKeyed
  owners : ∀ m ∈ accessTrace start run, ∀ cs, m.event = .change cs →
    m.before.directory.StampsOwners m.now m.after.directory
  environments : ∀ m ∈ accessTrace start run, ∀ cs, m.event = .change cs →
    ∀ c ∈ cs, c.StampsEnvironments m.now
  existing : ∀ m ∈ accessTrace start run, ∀ x, m.Asks x →
    m.before.directory.HasEnvironments x.consumer.environmentIds
  alike : ∀ m ∈ accessTrace start run, ∀ m' ∈ accessTrace start run, ∀ x y, m.Asks x → m'.Asks y →
    x.owner.id = y.owner.id → x.payloadKey start.config = y.payloadKey start.config →
    x.consumer.arch = y.consumer.arch ∧ x.consumer.environmentIds = y.consumer.environmentIds

/-- No change of a run turns the stamp of an owner back. -/
def TurnsNoStampBack (start : Authority) (run : List (Instant × AccessEvent)) : Prop :=
  ∀ m ∈ accessTrace start run, ∀ cs, m.event = .change cs →
    m.before.directory.StampsForward m.now m.after.directory

section Runs

variable {start a : Authority} {run : List (Instant × AccessEvent)} {m : AccessMoment}

/-- The row that counts has been there, or it is from now. -/
theorem Authority.rowAfter_kept_or_made (a : Authority) (x : ContentAccess) (now : Instant) :
    a.keptRow? x = some (a.rowAfter x now) ∨ (a.rowAfter x now).timestamp = now := by
  unfold rowAfter
  cases hrow : (a.keptRow? x).filter fun row => !row.isStale x.owner x.environments with
  | none => exact .inr rfl
  | some row => exact .inl (Option.filter_eq_some_iff.1 hrow).1

/-- A row that an event leaves has been there, or it is from now. -/
theorem AccessEvent.row_apply (event : AccessEvent) (now : Instant) {k : String × String}
    {row : PayloadRow} (h : (event.apply now a).payloads.store.get? k = some row) :
    a.payloads.store.get? k = some row ∨ row.timestamp = now := by
  cases event with
  | change cs => exact .inl h
  | request r =>
    have hresult := r.answer_result now a
    unfold AccessEvent.apply at h
    dsimp only at h
    generalize r.answer now a = answer at hresult h
    cases hresult with
    | none o b hsame =>
      rw [hsame.payloads] at h
      exact .inl h
    | row x b hfind hleaves =>
      rw [hleaves.rows] at h
      split at h
      · rename_i hk
        obtain rfl := Option.some.inj h
        rw [← hk]
        exact a.rowAfter_kept_or_made x now
      · exact .inl h

/-- Rows are from the past. -/
theorem timestamp_lt (hclock : (run.map Prod.fst).Pairwise (· < ·))
    (hstart : ∀ k row, a.payloads.store.get? k = some row → ∀ e ∈ run, row.timestamp < e.1) :
    ∀ m ∈ accessTrace a run, ∀ k row,
      m.before.payloads.store.get? k = some row → row.timestamp < m.now := by
  induction run generalizing a with
  | nil => exact List.forall_mem_nil _
  | cons e run ih =>
    obtain ⟨now, event⟩ := e
    rw [List.map_cons, List.pairwise_cons] at hclock
    rw [accessTrace, List.forall_mem_cons]
    refine ⟨fun k row hrow => hstart k row hrow _ List.mem_cons_self, ih hclock.2 ?_⟩
    intro k row hrow e he
    rcases event.row_apply now hrow with hold | hnow
    · exact hstart k row hold e (List.mem_cons_of_mem _ he)
    · rw [hnow]
      exact hclock.1 e.1 (List.mem_map_of_mem he)

/-- What holds at every moment of a disciplined run. -/
def KeepsWhatIsOwed (start : Authority) (run : List (Instant × AccessEvent)) (a : Authority) :
    Prop :=
  a.config = start.config ∧ a.Coherent (AskedIn start run)

/-- Changes of a disciplined run stamp whatever they change, if no stamp is turned back. -/
theorem Disciplined.wellChanged {cs : List DirectoryChange} (h : Disciplined start run)
    (hforward : TurnsNoStampBack start run) (hm : m ∈ accessTrace start run)
    (hevent : m.event = .change cs) :
    m.after = { m.before with directory := m.after.directory } ∧
      m.before.directory.WellChanged m.now m.after.directory := by
  have hafter : m.after =
      { m.before with directory := cs.foldl (fun d c => c.apply d) m.before.directory } := by
    unfold AccessMoment.after
    rw [hevent]
    rfl
  refine ⟨by rw [hafter], (h.keyed m hm).1, (h.keyed m hm).2, h.owners m hm cs hevent,
    hforward m hm cs hevent, ?_, ?_⟩
  · intro id o ho
    rw [hafter]
    exact DirectoryChange.owner_changes cs ho
  · rw [hafter]
    exact DirectoryChange.environment_changes (h.environments m hm cs hevent)

/-- A request of a disciplined run keeps every row coherent. -/
theorem Disciplined.request {r : PayloadRequest} (h : Disciplined start run)
    (hm : m ∈ accessTrace start run) (hr : m.event = .request r)
    (hkeeps : KeepsWhatIsOwed start run m.before) : KeepsWhatIsOwed start run m.after := by
  obtain ⟨hconfig, hcoherent⟩ := hkeeps
  have hafter : m.after = (r.answer m.now m.before).2 := by
    unfold AccessMoment.after
    rw [hr]
    rfl
  have hresult := r.answer_result m.now m.before
  rw [hafter]
  generalize r.answer m.now m.before = answer at hresult
  cases hresult with
  | none o b hsame hnone => exact ⟨hsame.config.trans hconfig, hcoherent.of_sameRows hsame⟩
  | row x b hfind hleaves =>
    have hx : m.Asks x := ⟨r, hr, hfind⟩
    refine ⟨hleaves.config.trans hconfig, hcoherent.request ⟨m, hm, hx⟩ (h.keyed m hm).1 hfind
      (h.existing m hm x hx) ?_ hleaves⟩
    rintro y ⟨m', hm', hy⟩ howner hkey
    rw [hconfig] at hkey
    exact h.alike m hm m' hm' x y hx hy howner hkey

/-- **Every event of a disciplined run keeps every row coherent**, if no stamp is turned back. -/
theorem Disciplined.keepsWhatIsOwed (h : Disciplined start run)
    (hforward : TurnsNoStampBack start run) :
    ∀ m ∈ accessTrace start run, KeepsWhatIsOwed start run m.before := by
  have hnone : ∀ k, start.payloads.store.get? k = none := by
    intro k
    rw [h.new]
    rfl
  have hpast : ∀ m ∈ accessTrace start run, ∀ k row,
      m.before.payloads.store.get? k = some row → row.timestamp < m.now := by
    refine timestamp_lt h.clock ?_
    intro k row hrow
    rw [hnone k] at hrow
    cases hrow
  refine forall_accessTrace ⟨rfl, ?_⟩ ?_
  · intro x _ row hrow
    rw [Authority.keptRow?, hnone] at hrow
    cases hrow
  · intro m hm hkeeps
    cases hevent : m.event with
    | request r => exact h.request hm hevent hkeeps
    | change cs =>
      obtain ⟨hafter, hchange⟩ := h.wellChanged hforward hm hevent
      rw [hafter]
      exact ⟨hkeeps.1, hkeeps.2.change (hpast m hm) hchange⟩

/-- **Every payload of a disciplined run has the body that is owed at the moment**, whether it is
found, renewed or made, and afterwards the row of the consumer holds it — if no change turns the
stamp of an owner back. -/
theorem answer_of_run {r : PayloadRequest} {text : String} {b : Authority}
    (h : Disciplined start run) (hforward : TurnsNoStampBack start run)
    (hm : m ∈ accessTrace start run) (hr : m.event = .request r)
    (hanswer : r.answer m.now m.before = (.ok (some text), b)) :
    ∃ x, ContentAccess.find m.before.directory r.consumerId = .ok (some x) ∧
      m.before.IsOwed x text ∧ ∃ row, b.keptRow? x = some row ∧ row.payload = text := by
  obtain ⟨-, hcoherent⟩ := h.keepsWhatIsOwed hforward m hm
  have hresult := r.answer_result m.now m.before
  rw [hanswer] at hresult
  cases hresult with
  | none _ _ _ hnone => exact absurd rfl (hnone text)
  | row x _ hfind hleaves =>
    have hx : m.Asks x := ⟨r, hr, hfind⟩
    exact ⟨x, hfind, hcoherent.rowAfter_payload ⟨m, hm, hx⟩ (h.keyed m hm).1 hfind
      (h.existing m hm x hx), _, hleaves.keptRow?_self, rfl⟩

end Runs

/-! ### An owner that is stamped, and whose stamp is turned back -/

namespace Withdrawn

/-- The consumer asks for its payload. -/
def asking : AccessEvent :=
  .request (.payload "sample-consumer")

/-- The owner gets a prefix, and is stamped. -/
def prefixing : DirectoryChange :=
  .updateOwner "sample-owner" fun o =>
    { o with contentPrefix := some "/new", contentUpdated := ⟨2, 0⟩ }

/-- The stamp of the owner is turned back. -/
def turningBack : DirectoryChange :=
  .updateOwner "sample-owner" fun o => { o with contentUpdated := ⟨0, 0⟩ }

/-- The owner after both. -/
def turnedBackOwner : Owner :=
  { SharedKey.owner with contentPrefix := some "/new" }

/-- The records after both. -/
def turnedBackDirectory : Directory :=
  turningBack.apply (prefixing.apply directory)

/-- What the consumer has access to after both. -/
def turnedBackAccess : ContentAccess :=
  .ofConsumer turnedBackDirectory turnedBackOwner consumer

/-- The one owner of some records, in which the consumer and its environment are as they were. -/
structure HasOwner (d : Directory) (o : Owner) : Prop where
  id_eq : o.id = "sample-owner"
  owners : d.owners = Table.ofList [("sample-owner", o)]
  consumers : d.consumers = directory.consumers
  pools : d.pools = directory.pools
  dev : ∃ e, d.environments.get? "dev" = some e

namespace HasOwner

variable {d d' : Directory} {o o' : Owner} {now : Instant}

theorem get?_owners (h : HasOwner d o) {id : String} {v : Owner} (hv : d.owners.get? id = some v) :
    id = "sample-owner" ∧ v = o := by
  have hget : (Table.ofList [("sample-owner", o)]).get? id =
      if "sample-owner" = id then some o else none := rfl
  rw [h.owners, hget] at hv
  split at hv
  · rename_i hid
    exact ⟨hid.symm, (Option.some.inj hv).symm⟩
  · cases hv

theorem keyed (h : HasOwner d o) : d.OwnersKeyed := by
  intro id v hv
  obtain ⟨rfl, rfl⟩ := h.get?_owners hv
  exact h.id_eq

theorem stamps (h : HasOwner d o) (h' : HasOwner d' o')
    (hstamp : o'.contentPrefix = o.contentPrefix ∨ o'.contentUpdated = now) :
    d.StampsOwners now d' := by
  intro id v v' hv hv'
  obtain ⟨-, rfl⟩ := h.get?_owners hv
  obtain ⟨-, rfl⟩ := h'.get?_owners hv'
  refine hstamp.imp_left fun hsame => ⟨hsame, ?_⟩
  unfold Directory.activeContent
  rw [h.pools, h'.pools]

theorem forward (h : HasOwner d o) (h' : HasOwner d' o')
    (hstamp : o.contentUpdated ≤ o'.contentUpdated) : d.StampsForward now d' := by
  intro id v v' hv hv'
  obtain ⟨-, rfl⟩ := h.get?_owners hv
  obtain ⟨-, rfl⟩ := h'.get?_owners hv'
  exact .inl hstamp

/-- Whoever asks is the one consumer. -/
theorem consumer_eq (h : HasOwner d o) {id : String} {x : ContentAccess}
    (hfind : ContentAccess.find d id = .ok (some x)) : x.consumer = consumer := by
  obtain ⟨hconsumer, -, -⟩ := find_eq_some hfind
  have hget : directory.consumers.get? id =
      if "sample-consumer" = id then some consumer else none := rfl
  rw [h.consumers, hget] at hconsumer
  split at hconsumer
  · exact (Option.some.inj hconsumer).symm
  · cases hconsumer

theorem start : HasOwner directory SharedKey.owner :=
  ⟨rfl, rfl, rfl, rfl, _, rfl⟩

theorem withdrawn : HasOwner withdrawnDirectory SharedKey.owner :=
  ⟨rfl, rfl, rfl, rfl, _, rfl⟩

theorem prefixed : HasOwner (prefixing.apply directory)
    { turnedBackOwner with contentUpdated := ⟨2, 0⟩ } :=
  ⟨rfl, rfl, rfl, rfl, _, rfl⟩

theorem turnedBack : HasOwner turnedBackDirectory turnedBackOwner :=
  ⟨rfl, rfl, rfl, rfl, _, rfl⟩

end HasOwner

/-- A moment of a run on such records, at which an owner with another prefix is stamped. -/
def IsPlain (m : AccessMoment) : Prop :=
  ∃ o o', HasOwner m.before.directory o ∧ HasOwner m.after.directory o' ∧
    ∀ cs, m.event = .change cs →
      (o'.contentPrefix = o.contentPrefix ∨ o'.contentUpdated = m.now) ∧
        ∀ c ∈ cs, c.StampsEnvironments m.now

variable {a : Authority} {d : Directory} {run : List (Instant × AccessEvent)} {o o' : Owner}
  {now : Instant}

theorem asked_directory (now : Instant) (h : a.directory = d) :
    (asking.apply now a).directory = d :=
  (PayloadRequest.answer_directory (.payload "sample-consumer") now a).trans h

theorem changed_directory (now : Instant) (h : a.directory = d) (c : DirectoryChange) :
    ((AccessEvent.change [c]).apply now a).directory = c.apply d :=
  congrArg c.apply h

theorem IsPlain.asking (h : a.directory = d) (howner : HasOwner d o) :
    IsPlain ⟨now, asking, a⟩ := by
  rw [← h] at howner
  refine ⟨o, o, howner, ?_, nofun⟩
  unfold AccessMoment.after
  dsimp only
  rw [asked_directory now rfl]
  exact howner

theorem IsPlain.change {c : DirectoryChange} (h : a.directory = d) (howner : HasOwner d o)
    (howner' : HasOwner (c.apply d) o')
    (hstamp : o'.contentPrefix = o.contentPrefix ∨ o'.contentUpdated = now)
    (henvironments : c.StampsEnvironments now) : IsPlain ⟨now, .change [c], a⟩ := by
  subst h
  refine ⟨o, o', howner, howner', fun cs hcs => ⟨hstamp, ?_⟩⟩
  cases hcs
  rw [List.forall_mem_singleton]
  exact henvironments

theorem disciplined (hnew : a.payloads.store = Table.empty)
    (hclock : (run.map Prod.fst).Pairwise (· < ·)) (h : ∀ m ∈ accessTrace a run, IsPlain m) :
    Disciplined a run where
  new := hnew
  clock := hclock
  keyed := by
    intro m hm
    obtain ⟨o, o', hbefore, hafter, -⟩ := h m hm
    exact ⟨hbefore.keyed, hafter.keyed⟩
  owners := by
    intro m hm cs hcs
    obtain ⟨o, o', hbefore, hafter, hchange⟩ := h m hm
    exact hbefore.stamps hafter (hchange cs hcs).1
  environments := by
    intro m hm cs hcs
    obtain ⟨o, o', -, -, hchange⟩ := h m hm
    exact (hchange cs hcs).2
  existing := by
    rintro m hm x ⟨r, -, hfind⟩
    obtain ⟨o, o', hbefore, -, -⟩ := h m hm
    rw [hbefore.consumer_eq hfind]
    exact List.forall_mem_singleton.2 hbefore.dev
  alike := by
    rintro m hm m' hm' x y ⟨r, -, hx⟩ ⟨r', -, hy⟩ - -
    obtain ⟨o, -, hbefore, -, -⟩ := h m hm
    obtain ⟨o', -, hbefore', -, -⟩ := h m' hm'
    rw [hbefore.consumer_eq hx, hbefore'.consumer_eq hy]
    exact ⟨rfl, rfl⟩

theorem exists_unasked : ∃ a : Authority, a.Reachable ∧ a.config = {} ∧ a.directory = directory ∧
    a.payloads.store = Table.empty := by
  obtain ⟨start, hstart, hconfig, hempty, -⟩ := Authority.exists_start
  refine ⟨_, (Authority.Reachable.of_create hstart).changes changes, hconfig, ?_, ?_⟩
  · rw [hempty]
    rfl
  · dsimp only
    rw [(Authority.IsNew.of_create hstart).payloads]
    rfl

/-- A promotion is withdrawn between two requests. -/
def withdrawalRun : List (Instant × AccessEvent) :=
  [(⟨1, 0⟩, asking), (⟨2, 0⟩, .change [withdrawal.change]), (⟨3, 0⟩, asking)]

/-- Between two requests, the owner gets a prefix and its stamp is turned back. -/
def turningBackRun : List (Instant × AccessEvent) :=
  [(⟨1, 0⟩, asking), (⟨2, 0⟩, .change [prefixing]), (⟨3, 0⟩, .change [turningBack]),
    (⟨4, 0⟩, asking)]

theorem disciplined_withdrawalRun (hdirectory : a.directory = directory)
    (hnew : a.payloads.store = Table.empty) : Disciplined a withdrawalRun := by
  refine disciplined hnew (by decide) ?_
  have hasked := asked_directory ⟨1, 0⟩ hdirectory
  have hwithdrawn := changed_directory ⟨2, 0⟩ hasked withdrawal.change
  rw [withdrawalRun, accessTrace, List.forall_mem_cons, accessTrace, List.forall_mem_cons,
    accessTrace, List.forall_mem_cons, accessTrace]
  exact ⟨.asking hdirectory .start, .change hasked .start .withdrawn (.inl rfl) ⟨_, _, rfl⟩,
    .asking hwithdrawn .withdrawn, List.forall_mem_nil _⟩

theorem disciplined_turningBackRun (hdirectory : a.directory = directory)
    (hnew : a.payloads.store = Table.empty) : Disciplined a turningBackRun := by
  refine disciplined hnew (by decide) ?_
  have hasked := asked_directory ⟨1, 0⟩ hdirectory
  have hchanged := changed_directory ⟨2, 0⟩ hasked prefixing
  have hturned := changed_directory ⟨3, 0⟩ hchanged turningBack
  rw [turningBackRun, accessTrace, List.forall_mem_cons, accessTrace, List.forall_mem_cons,
    accessTrace, List.forall_mem_cons, accessTrace, List.forall_mem_cons, accessTrace]
  exact ⟨.asking hdirectory .start, .change hasked .start .prefixed (.inr rfl) trivial,
    .change hchanged .prefixed .turnedBack (.inl rfl) trivial, .asking hturned .turnedBack,
    List.forall_mem_nil _⟩

theorem forward_withdrawalRun (hdirectory : a.directory = directory) :
    TurnsNoStampBack a withdrawalRun := by
  have hasked := asked_directory ⟨1, 0⟩ hdirectory
  unfold TurnsNoStampBack
  rw [withdrawalRun, accessTrace, List.forall_mem_cons, accessTrace, List.forall_mem_cons,
    accessTrace, List.forall_mem_cons, accessTrace]
  refine ⟨?_, ?_, ?_, List.forall_mem_nil _⟩
  · intro cs h
    cases h
  · intro cs _
    have hafter := changed_directory ⟨2, 0⟩ hasked withdrawal.change
    unfold AccessMoment.after
    dsimp only
    rw [hafter, hasked]
    exact HasOwner.start.forward .withdrawn (Instant.le_refl _)
  · intro cs h
    cases h

/-- A promotion is withdrawn between two requests, and the second one answers with what is owed
then. -/
theorem answer_of_withdrawal : ∃ (start : Authority) (run : List (Instant × AccessEvent))
    (m : AccessMoment) (text : String) (b : Authority),
    Disciplined start run ∧ TurnsNoStampBack start run ∧ m ∈ accessTrace start run ∧
    m.event = .request (.payload "sample-consumer") ∧
    (PayloadRequest.payload "sample-consumer").answer m.now m.before = (.ok (some text), b) ∧
    ∃ x, ContentAccess.find m.before.directory "sample-consumer" = .ok (some x) ∧
      m.before.IsOwed x text ∧ ∃ row, b.keptRow? x = some row ∧ row.payload = text := by
  obtain ⟨a, -, -, hdirectory, hnew⟩ := exists_unasked
  have hasked := asked_directory ⟨1, 0⟩ hdirectory
  have hwithdrawn := changed_directory ⟨2, 0⟩ hasked withdrawal.change
  have hm : ⟨⟨3, 0⟩, asking, _⟩ ∈ accessTrace a withdrawalRun :=
    List.mem_cons_of_mem _ (List.mem_cons_of_mem _ List.mem_cons_self)
  generalize (AccessEvent.change [withdrawal.change]).apply ⟨2, 0⟩ (asking.apply ⟨1, 0⟩ a) = third
    at hwithdrawn hm
  have hfind : ContentAccess.find third.directory "sample-consumer" =
      .ok (some (.ofConsumer withdrawnDirectory SharedKey.owner consumer)) := by
    rw [hwithdrawn]
    rfl
  obtain ⟨b, hanswer, -⟩ := PayloadRequest.contentPayloadFor_of_find hfind ⟨3, 0⟩
  have hdisciplined := disciplined_withdrawalRun hdirectory hnew
  have hforward := forward_withdrawalRun hdirectory
  exact ⟨a, withdrawalRun, _, _, b, hdisciplined, hforward, hm, rfl, hanswer,
    answer_of_run hdisciplined hforward hm rfl hanswer⟩

/-- What the consumer is owed after both changes. -/
def owedTurnedBack : EntitlementBody :=
  owedPayload {} turnedBackDirectory turnedBackOwner consumer

theorem fits_owedTurnedBack : owedTurnedBack.Fits :=
  .contentOnly (by decide)

/-- The path of the content has changed. -/
theorem owed_turnedBack_ne : owed directory ≠ owedTurnedBack := by
  decide +kernel

/-- If no row is kept, the row that counts holds what is owed. -/
theorem rowAfter_of_new (hconfig : a.config = {}) (hdirectory : a.directory = directory)
    (hnew : a.payloads.store = Table.empty) (now : Instant) :
    (a.rowAfter access now).timestamp = now ∧
      (a.rowAfter access now).payload = Payload.ofBody a.ca.signer (owed directory) := by
  have hnone : a.keptRow? access = none := by
    unfold Authority.keptRow?
    rw [hnew]
    rfl
  rw [Authority.rowAfter_of_none hnone]
  unfold Authority.madeRow
  rw [hconfig, hdirectory]
  exact ⟨rfl, rfl⟩

/-- The stamp of an owner is turned back after its prefix has changed, although neither its prefix
nor its content changes with that. The payload of before counts as fresh again. -/
theorem turned_back_stamp_hides_change : ∃ (start : Authority) (run : List (Instant × AccessEvent))
    (m : AccessMoment) (x : ContentAccess) (text : String) (b : Authority),
    start.Reachable ∧ Disciplined start run ∧ m ∈ accessTrace start run ∧
    m.event = .request (.payload "sample-consumer") ∧
    (PayloadRequest.payload "sample-consumer").answer m.now m.before = (.ok (some text), b) ∧
    ContentAccess.find m.before.directory "sample-consumer" = .ok (some x) ∧
    ¬ m.before.IsOwed x text := by
  obtain ⟨a, hreachable, hconfig, hdirectory, hnew⟩ := exists_unasked
  have hfind : ContentAccess.find a.directory "sample-consumer" = .ok (some access) := by
    rw [hdirectory]
    rfl
  obtain ⟨b, hasked, hrow⟩ := PayloadRequest.contentPayloadFor_of_find hfind ⟨1, 0⟩
  obtain ⟨htimestamp, hpayload⟩ := rowAfter_of_new hconfig hdirectory hnew ⟨1, 0⟩
  generalize a.rowAfter access ⟨1, 0⟩ = row at hasked hrow htimestamp hpayload
  let d : Authority := { b with directory := turnedBackDirectory }
  have hm : ⟨⟨4, 0⟩, asking, d⟩ ∈ accessTrace a turningBackRun := by
    have hb : asking.apply ⟨1, 0⟩ a = b := congrArg Prod.snd hasked
    have hd : (AccessEvent.change [turningBack]).apply ⟨3, 0⟩
        ((AccessEvent.change [prefixing]).apply ⟨2, 0⟩ (asking.apply ⟨1, 0⟩ a)) = d := by
      rw [hb]
      show { b with directory := turningBack.apply (prefixing.apply b.directory) } = d
      rw [hrow.directory, hdirectory]
      rfl
    rw [← hd]
    exact List.mem_cons_of_mem _ (List.mem_cons_of_mem _ (List.mem_cons_of_mem _
      List.mem_cons_self))
  have hfind' : ContentAccess.find d.directory "sample-consumer" =
      .ok (some turnedBackAccess) := rfl
  obtain ⟨b', hanswer, -⟩ := PayloadRequest.contentPayloadFor_of_find hfind' ⟨4, 0⟩
  have hkept : d.keptRow? turnedBackAccess = some row := hrow.keptRow?_self
  have hfresh : row.isStale turnedBackOwner turnedBackAccess.environments = false := by
    rw [PayloadRow.isStale_eq_false, htimestamp]
    exact ⟨by decide, by decide⟩
  refine ⟨a, turningBackRun, _, turnedBackAccess, _, b', hreachable,
    disciplined_turningBackRun hdirectory hnew, hm, rfl, hanswer, hfind', ?_⟩
  have howed : d.owedJson turnedBackAccess = owedTurnedBack.bytes := by
    unfold Authority.owedJson
    rw [show d.config = {} from hrow.config.trans hconfig]
    rfl
  have hca : a.ca = d.ca := hrow.ca.symm
  rw [Authority.rowAfter_of_fresh hkept hfresh, hpayload, hca, Authority.isOwed_ofBody_iff, howed]
  exact fun hsame =>
    owed_turnedBack_ne (EntitlementBody.bytes_injective fits_owed.1 fits_owedTurnedBack hsame)

end Withdrawn

end EntitlementAuthority
