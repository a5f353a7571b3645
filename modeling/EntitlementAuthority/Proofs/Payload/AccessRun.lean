import EntitlementAuthority.Proofs.Issuance.RequestEffects
import EntitlementAuthority.Proofs.Payload.Snapshot

/-!
# Runs of requests for payloads

Requests for content payloads and changes of the records take turns.

* `PayloadRequest`, `AccessEvent`, `accessTrace` — runs, and the moments of a run.
* `forall_accessTrace` — what every event preserves holds at every moment.
* `PayloadRequest.answer_result` — what a request for a payload answers with and leaves behind.
* `DirectoryChange.owner_changes`, `DirectoryChange.environment_changes` — what changes do to owners
  and environments.
-/

namespace EntitlementAuthority

/-! ### Runs -/

/-- A request that may answer with a content payload. -/
inductive PayloadRequest where
  | payload (consumerId : String)
  | generate (consumerId : String)
  | regenerate (consumerId : String) (putOff : Bool)

namespace PayloadRequest

/-- The consumer that asks. -/
def consumerId : PayloadRequest → String
  | payload id => id
  | generate id => id
  | regenerate id _ => id

/-- The payload that the request answers with, if any. -/
def answer (now : Instant) : PayloadRequest → Request Authority (Option String)
  | payload id => Authority.contentPayloadFor id now
  | generate id =>
    (fun c => c.bind IssuedCertificate.payload) <$> Authority.generate (.contentAccess id) now
  | regenerate id putOff =>
    (fun c => c.bind IssuedCertificate.payload) <$>
      Authority.regenerate (.contentAccess id) putOff now

end PayloadRequest

/-- Something that happens on a run: changes of the records that belong together, or a request. -/
inductive AccessEvent where
  | change (cs : List DirectoryChange)
  | request (r : PayloadRequest)

/-- The state that an event leaves behind. -/
def AccessEvent.apply (now : Instant) : AccessEvent → Authority → Authority
  | change cs, a => { a with directory := cs.foldl (fun d c => c.apply d) a.directory }
  | request r, a => (r.answer now a).2

/-- A moment of a run: an event with the state that it meets. -/
structure AccessMoment where
  now : Instant
  event : AccessEvent
  before : Authority

/-- The moments of a run. -/
def accessTrace (a : Authority) : List (Instant × AccessEvent) → List AccessMoment
  | [] => []
  | (now, event) :: run => ⟨now, event, a⟩ :: accessTrace (event.apply now a) run

/-- The state that a moment leaves behind. -/
def AccessMoment.after (m : AccessMoment) : Authority :=
  m.event.apply m.now m.before

/-- At this moment, a consumer asks that has access to content. -/
def AccessMoment.Asks (m : AccessMoment) (x : ContentAccess) : Prop :=
  ∃ r, m.event = .request r ∧
    ContentAccess.find m.before.directory r.consumerId = .ok (some x)

variable {a b : Authority} {run : List (Instant × AccessEvent)} {m : AccessMoment}

/-- What every event preserves holds at every moment. -/
theorem forall_accessTrace {P : Authority → Prop} (hstart : P a)
    (hstep : ∀ m ∈ accessTrace a run, P m.before → P m.after) :
    ∀ m ∈ accessTrace a run, P m.before := by
  induction run generalizing a with
  | nil => exact List.forall_mem_nil _
  | cons e run ih =>
    rw [accessTrace, List.forall_mem_cons] at hstep ⊢
    exact ⟨hstart, ih (hstep.1 hstart) hstep.2⟩

/-! ### What requests leave behind -/

namespace Authority

variable {α β : Type} {x : ContentAccess} {now : Instant}

/-- Nothing that payloads are made of is different, and no row. -/
structure SameRows (a b : Authority) : Prop where
  config : b.config = a.config
  ca : b.ca = a.ca
  directory : b.directory = a.directory
  payloads : b.payloads = a.payloads

namespace SameRows

theorem refl (a : Authority) : SameRows a a := ⟨rfl, rfl, rfl, rfl⟩

theorem trans {c : Authority} (hab : SameRows a b) (hbc : SameRows b c) : SameRows a c :=
  ⟨hbc.config.trans hab.config, hbc.ca.trans hab.ca, hbc.directory.trans hab.directory,
    hbc.payloads.trans hab.payloads⟩

theorem bind {r : Request Authority α} {f : α → Request Authority β} (hr : SameRows a (r a).2)
    (hf : ∀ x b, r a = (.ok x, b) → SameRows b (f x b).2) : SameRows a ((r >>= f) a).2 := by
  rcases hs : r a with ⟨o, b⟩
  rw [hs] at hr
  cases o with
  | error e =>
    rw [Request.bind_error hs]
    exact hr
  | ok x =>
    rw [Request.bind_ok hs]
    exact hr.trans (hf x b hs)

theorem rowAfter_eq (h : SameRows a b) (x : ContentAccess) (now : Instant) :
    b.rowAfter x now = a.rowAfter x now := by
  unfold rowAfter keptRow? madeRow
  rw [h.config, h.ca, h.directory, h.payloads]

end SameRows

theorem sign_sameRows (p : Plan) (now : Instant) (a : Authority) :
    SameRows a (sign p now a).2 := by
  have h := sign_result p now a
  generalize sign p now a = r at h
  cases h <;> exact ⟨rfl, rfl, rfl, rfl⟩

theorem supersede_sameRows {fresh : IssuedCertificate} (h : fresh.role.kind ≠ .entitlement)
    (a : Authority) : SameRows a (supersede fresh a).2 := by
  unfold supersede
  refine .bind ⟨rfl, rfl, rfl, rfl⟩ fun previous b _ => ?_
  refine .bind ?_ fun _ c _ => .bind ?_ fun _ d _ => ?_
  · cases previous with
    | none => exact .refl b
    | some previous => exact ⟨rfl, rfl, rfl, rfl⟩
  · unfold markClean
    rw [if_neg h]
    exact .refl c
  · exact .refl d

theorem contentAccessCertificate_sameRows (x : ContentAccess) (forced : Bool) (now : Instant)
    (a : Authority) : SameRows a (contentAccessCertificate x forced now a).2 := by
  unfold contentAccessCertificate
  refine .bind (.refl a) fun kept b _ => ?_
  cases kept with
  | some c => exact .refl b
  | none =>
    refine .bind (.refl b) fun config b' _ => .bind (sign_sameRows _ now b') fun fresh c hsign => ?_
    obtain ⟨key, keys, rfl, -⟩ := sign_eq_ok hsign
    refine supersede_sameRows ?_ c
    intro hkind
    cases hkind

/-- A row counts from now on; all other rows are as they were. -/
structure LeavesRow (a : Authority) (x : ContentAccess) (row : PayloadRow) (b : Authority) :
    Prop where
  config : b.config = a.config
  ca : b.ca = a.ca
  directory : b.directory = a.directory
  rows : ∀ k, b.payloads.store.get? k = if (x.owner.id, x.payloadKey a.config) = k
    then some row else a.payloads.store.get? k

theorem LeavesRow.keptRow?_self {row : PayloadRow} (h : LeavesRow a x row b) :
    b.keptRow? x = some row := by
  rw [keptRow?, h.config, h.rows, if_pos rfl]

/-- A payload is looked for in a state that has the same rows as another. -/
theorem contentPayload_leavesRow (h : SameRows a b) (x : ContentAccess) (now : Instant) :
    ∃ c, contentPayload x now b = (.ok (a.rowAfter x now), c) ∧
      LeavesRow a x (a.rowAfter x now) c := by
  obtain ⟨signatures, payloads, hanswer, hrows⟩ := contentPayload_eq x now b
  rw [h.rowAfter_eq] at hanswer hrows
  refine ⟨_, hanswer, h.config, h.ca, h.directory, fun k => ?_⟩
  rw [h.config, h.payloads] at hrows
  exact hrows k

/-- A certificate for content access is refused or comes with the payload of the row that counts. -/
theorem contentAccess_result (consumerId : String) (forced : Bool) (now : Instant) (a : Authority) :
    (∃ o b, contentAccess consumerId forced now a = (o, b) ∧ SameRows a b ∧
        ∀ c, o ≠ .ok (some c)) ∨
      ∃ x, ∃ c : IssuedCertificate, ∃ b, contentAccess consumerId forced now a =
          (.ok (some { c with payload := some (a.rowAfter x now).payload }), b) ∧
        ContentAccess.find a.directory consumerId = .ok (some x) ∧
        LeavesRow a x (a.rowAfter x now) b := by
  unfold contentAccess
  cases hfind : ContentAccess.find a.directory consumerId with
  | error e =>
    rw [Request.bind_error (by rw [Request.read_apply, hfind])]
    exact .inl ⟨_, a, rfl, .refl a, by simp⟩
  | ok found =>
    rw [Request.bind_ok (by rw [Request.read_apply, hfind])]
    cases found with
    | none => exact .inl ⟨_, a, rfl, .refl a, by simp⟩
    | some x =>
      dsimp only
      have hsame := contentAccessCertificate_sameRows x forced now a
      rcases hcertificate : contentAccessCertificate x forced now a with ⟨o, a₁⟩
      rw [hcertificate] at hsame
      cases o with
      | error e =>
        rw [Request.bind_error hcertificate]
        exact .inl ⟨_, a₁, rfl, hsame, by simp⟩
      | ok c =>
        obtain ⟨b, hrow, hleaves⟩ := contentPayload_leavesRow hsame x now
        rw [Request.bind_ok hcertificate, Request.bind_ok hrow]
        exact .inr ⟨x, c, b, rfl, rfl, hleaves⟩

end Authority

namespace PayloadRequest

variable {now : Instant}

/-- The ways in which a request for a payload can end. -/
inductive AnswerResult (consumerId : String) (now : Instant) (a : Authority) :
    Outcome (Option String) × Authority → Prop
  /-- There is no payload, and none is looked for. -/
  | none (o : Outcome (Option String)) (b : Authority) (hsame : a.SameRows b)
      (hnone : ∀ text, o ≠ .ok (some text)) : AnswerResult consumerId now a (o, b)
  /-- The payload is that of the row that counts. -/
  | row (x : ContentAccess) (b : Authority)
      (hfind : ContentAccess.find a.directory consumerId = .ok (some x))
      (hrow : a.LeavesRow x (a.rowAfter x now) b) :
      AnswerResult consumerId now a (.ok (some (a.rowAfter x now).payload), b)

/-- A payload that is asked for by a consumer with access is that of the row that counts. -/
theorem contentPayloadFor_of_find {a : Authority} {consumerId : String} {x : ContentAccess}
    (hfind : ContentAccess.find a.directory consumerId = .ok (some x)) (now : Instant) :
    ∃ b, Authority.contentPayloadFor consumerId now a =
        (.ok (some (a.rowAfter x now).payload), b) ∧ a.LeavesRow x (a.rowAfter x now) b := by
  unfold Authority.contentPayloadFor
  rw [Request.bind_ok (by rw [Request.read_apply, hfind])]
  obtain ⟨b, hrow, hleaves⟩ := Authority.contentPayload_leavesRow (.refl a) x now
  exact ⟨b, Request.map_ok _ hrow, hleaves⟩

theorem contentPayloadFor_result (consumerId : String) (now : Instant) (a : Authority) :
    AnswerResult consumerId now a (Authority.contentPayloadFor consumerId now a) := by
  cases hfind : ContentAccess.find a.directory consumerId with
  | error e =>
    unfold Authority.contentPayloadFor
    rw [Request.bind_error (by rw [Request.read_apply, hfind])]
    exact .none _ _ (.refl a) nofun
  | ok found =>
    cases found with
    | none =>
      unfold Authority.contentPayloadFor
      rw [Request.bind_ok (by rw [Request.read_apply, hfind])]
      exact .none _ _ (.refl a) nofun
    | some x =>
      obtain ⟨b, hanswer, hleaves⟩ := contentPayloadFor_of_find hfind now
      rw [hanswer]
      exact .row x b hfind hleaves

theorem contentAccess_payload_result (consumerId : String) (forced : Bool) (now : Instant)
    (a : Authority) :
    AnswerResult consumerId now a
      (((fun c : Option IssuedCertificate => c.bind IssuedCertificate.payload) <$>
        Authority.contentAccess consumerId forced now : Request Authority (Option String)) a) := by
  rcases Authority.contentAccess_result consumerId forced now a with
    ⟨o, b, h, hsame, hnone⟩ | ⟨x, c, b, h, hfind, hleaves⟩
  · cases o with
    | error e =>
      rw [Request.map_error _ h]
      exact .none _ b hsame nofun
    | ok c =>
      rw [Request.map_ok _ h]
      cases c with
      | none => exact .none _ b hsame nofun
      | some c => exact absurd rfl (hnone c)
  · rw [Request.map_ok _ h]
    exact .row x b hfind hleaves

/-- **A request answers with the payload of the row that counts**, or with none. -/
theorem answer_result (r : PayloadRequest) (now : Instant) (a : Authority) :
    AnswerResult r.consumerId now a (r.answer now a) := by
  cases r with
  | payload id => exact contentPayloadFor_result id now a
  | generate id => exact contentAccess_payload_result id false now a
  | regenerate id putOff => exact contentAccess_payload_result id true now a

/-- A request leaves the records alone. -/
theorem answer_directory (r : PayloadRequest) (now : Instant) (a : Authority) :
    (r.answer now a).2.directory = a.directory := by
  have hresult := r.answer_result now a
  generalize r.answer now a = answer at hresult
  cases hresult with
  | none o b hsame hnone => exact hsame.directory
  | row x b hfind hleaves => exact hleaves.directory

end PayloadRequest

/-! ### What changes do to owners and environments -/

namespace DirectoryChange

variable {d : Directory} {now : Instant}

theorem get?_insert_of_some {α : Type} {t : Table String α} {id : String} {v : α}
    (h : t.get? id = some v) (id' : String) (v' : α) : ∃ w, (t.insert id' v').get? id = some w := by
  rw [Table.get?_insert]
  split
  · exact ⟨v', rfl⟩
  · exact ⟨v, h⟩

/-- Owners stay, whatever becomes of them. -/
theorem owner_apply (c : DirectoryChange) {id : String} {o : Owner}
    (h : d.owners.get? id = some o) : ∃ o', (c.apply d).owners.get? id = some o' := by
  have same : ∀ d', c.apply d = d' → d'.owners = d.owners →
      ∃ o', (c.apply d).owners.get? id = some o' := by
    rintro d' rfl hsame
    exact ⟨o, hsame ▸ h⟩
  cases c with
  | addOwner o' => exact get?_insert_of_some h o'.id o'
  | addConsumer c => exact same _ rfl rfl
  | addAnonymousConsumer c => exact same _ rfl rfl
  | addEnvironment e => exact same _ rfl rfl
  | addProduct p => exact same _ rfl rfl
  | addPool p => exact same _ rfl rfl
  | addEntitlement e => exact same _ rfl rfl
  | updateOwner id' f =>
    rcases updateOwner_apply id' f d with hd | ⟨o', -, hd⟩
    · exact same _ hd rfl
    · obtain ⟨w, hw⟩ := get?_insert_of_some h id' (f o')
      exact ⟨w, (congrArg (fun d' => d'.owners.get? id) hd).trans hw⟩
  | updateConsumer id' f =>
    rcases updateConsumer_apply id' f d with hd | ⟨c, -, hd⟩
    · exact same _ hd rfl
    · exact same _ hd rfl
  | updateEnvironment id' f =>
    rcases updateEnvironment_apply id' f d with hd | ⟨e, -, hd⟩
    · exact same _ hd rfl
    · exact same _ hd rfl
  | setDirty id' dirty =>
    obtain ⟨entitlements, hd, -⟩ := Directory.setDirty_result id' dirty d
    exact same _ hd rfl
  | deleteEnvironment id' =>
    rcases deleteEnvironment_apply id' d with hd | hd
    · exact same _ hd rfl
    · exact same _ hd rfl

/-- Environments are only made, deleted, and changed by promotions and their withdrawals, all of
which stamps them. -/
def StampsEnvironments (now : Instant) : DirectoryChange → Prop
  | addEnvironment e => e.promotions = Table.empty ∧ e.contentUpdated = now
  | updateEnvironment id f =>
    ∃ contentId promotion, f = PromotionChange.on ⟨id, contentId, promotion, now⟩
  | _ => True

/-- An environment is as it was, or it is gone, or it has just been stamped. -/
theorem environment_apply {c : DirectoryChange} (h : c.StampsEnvironments now) (id : String) :
    (c.apply d).environments.get? id = d.environments.get? id ∨
      (c.apply d).environments.get? id = none ∨
      ∃ e, (c.apply d).environments.get? id = some e ∧ e.contentUpdated = now := by
  have same : ∀ d', c.apply d = d' → d'.environments = d.environments →
      (c.apply d).environments.get? id = d.environments.get? id ∨
        (c.apply d).environments.get? id = none ∨
        ∃ e, (c.apply d).environments.get? id = some e ∧ e.contentUpdated = now := by
    rintro d' rfl hsame
    exact .inl (by rw [hsame])
  cases c with
  | addOwner o => exact same _ rfl rfl
  | addConsumer c => exact same _ rfl rfl
  | addAnonymousConsumer c => exact same _ rfl rfl
  | addEnvironment e =>
    have hget : ((addEnvironment e).apply d).environments.get? id =
        if e.id = id then some e else d.environments.get? id := Table.get?_insert _ _ _ _
    rw [hget]
    split
    · exact .inr (.inr ⟨e, rfl, h.2⟩)
    · exact .inl rfl
  | addProduct p => exact same _ rfl rfl
  | addPool p => exact same _ rfl rfl
  | addEntitlement e => exact same _ rfl rfl
  | updateOwner id' f =>
    rcases updateOwner_apply id' f d with hd | ⟨o', -, hd⟩
    · exact same _ hd rfl
    · exact same _ hd rfl
  | updateConsumer id' f =>
    rcases updateConsumer_apply id' f d with hd | ⟨c, -, hd⟩
    · exact same _ hd rfl
    · exact same _ hd rfl
  | updateEnvironment id' f =>
    obtain ⟨contentId, promotion, rfl⟩ := h
    obtain ⟨environments, hd, hstamped⟩ :=
      PromotionChange.apply_change ⟨id', contentId, promotion, now⟩ d
    have hget : ((updateEnvironment id' _).apply d).environments.get? id = environments.get? id :=
      congrArg (fun d' => d'.environments.get? id) hd
    rw [hget]
    exact (hstamped id).imp_right .inr
  | setDirty id' dirty =>
    obtain ⟨entitlements, hd, -⟩ := Directory.setDirty_result id' dirty d
    exact same _ hd rfl
  | deleteEnvironment id' =>
    rcases deleteEnvironment_apply id' d with hd | hd
    · exact same _ hd rfl
    · have hget : (d.withoutEnvironment id').environments.get? id =
          if id' = id then none else d.environments.get? id := Table.get?_erase _ _ _
      rw [hd, hget]
      split
      · exact .inr (.inl rfl)
      · exact .inl rfl

/-- Owners stay through all changes. -/
theorem owner_changes (cs : List DirectoryChange) {id : String} {o : Owner}
    (h : d.owners.get? id = some o) :
    ∃ o', (cs.foldl (fun d c => c.apply d) d).owners.get? id = some o' := by
  induction cs generalizing d o with
  | nil => exact ⟨o, h⟩
  | cons c cs ih =>
    obtain ⟨o', ho'⟩ := c.owner_apply h
    exact ih ho'

/-- After changes at one moment, an environment is as it was, or it is gone, or it has just been
stamped. -/
theorem environment_changes {cs : List DirectoryChange}
    (h : ∀ c ∈ cs, c.StampsEnvironments now) (id : String) :
    (cs.foldl (fun d c => c.apply d) d).environments.get? id = d.environments.get? id ∨
      (cs.foldl (fun d c => c.apply d) d).environments.get? id = none ∨
      ∃ e, (cs.foldl (fun d c => c.apply d) d).environments.get? id = some e ∧
        e.contentUpdated = now := by
  induction cs generalizing d with
  | nil => exact .inl rfl
  | cons c cs ih =>
    rw [List.forall_mem_cons] at h
    rw [List.foldl_cons]
    rcases ih h.2 (d := c.apply d) with hsame | hchanged
    · rw [hsame]
      exact environment_apply h.1 id
    · exact .inr hchanged

end DirectoryChange

end EntitlementAuthority
