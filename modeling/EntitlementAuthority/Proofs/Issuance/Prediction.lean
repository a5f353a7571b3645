import EntitlementAuthority.Proofs.Issuance.Acts

/-!
# What a request will do

How things stand with a certificate decides what a request for it does, and what it leaves alone.

* `DirectoryChange.KeepsIds` — the changes of the records after which consumers have the ids that
  they had.
* `Authority.ReachableBy.keyed` — then consumers stand under their ids in every state.
* `Authority.role_of_issue` — a certificate is issued for the role that was asked for.
* `Authority.Hands`, `Authority.Untouched` — the stored certificate is handed out, and nothing has
  changed.
* `Authority.Replaces` — a new certificate has taken the place of the one before.
* `Authority.reusable_eq_state`, `Authority.keptContentAccess_eq_state` — whether a certificate is
  handed out again is decided in the same way everywhere.
* `Authority.state_predicts` — the state of a certificate tells which of the two a request does.
-/

namespace EntitlementAuthority

/-! ### Consumers under their ids -/

/-- Consumers have the same ids after the change. -/
def DirectoryChange.KeepsIds : DirectoryChange → Prop
  | updateConsumer _ f => ∀ c, (f c).id = c.id
  | _ => True

namespace Directory

/-- Consumers stand under their ids, anonymous ones under their uuids. -/
structure ConsumersKeyed (d : Directory) : Prop where
  consumers : ∀ id c, d.consumers.get? id = some c → c.id = id
  anonymous : ∀ uuid c, d.anonymousConsumers.get? uuid = some c → c.uuid = uuid

variable {d : Directory}

theorem ConsumersKeyed.setDirty (h : d.ConsumersKeyed) (id : String) (dirty : Bool) :
    (Directory.setDirty id dirty d).2.ConsumersKeyed := by
  obtain ⟨entitlements, hd, -⟩ := setDirty_result id dirty d
  rw [hd]
  exact ⟨h.consumers, h.anonymous⟩

theorem ConsumersKeyed.withoutEnvironment (h : d.ConsumersKeyed) (id : String) :
    (Directory.withoutEnvironment id d).ConsumersKeyed := by
  refine ⟨?_, h.anonymous⟩
  intro id' c hget
  have hget : ((d.consumers.filter _).mapValues (leave id)).get? id' = some c := hget
  rw [Table.get?_mapValues, Table.get?_filter] at hget
  obtain ⟨c', hc', rfl⟩ := Option.map_eq_some_iff.1 hget
  exact h.consumers id' c' (Option.filter_eq_some_iff.1 hc').1

/-- **Changes that keep ids keep consumers under them.** -/
theorem ConsumersKeyed.apply (h : d.ConsumersKeyed) {c : DirectoryChange} (hc : c.KeepsIds) :
    (c.apply d).ConsumersKeyed := by
  cases c with
  | addConsumer c => exact ⟨Table.forall_insert h.consumers rfl, h.anonymous⟩
  | addAnonymousConsumer c => exact ⟨h.consumers, Table.forall_insert h.anonymous rfl⟩
  | updateConsumer id f =>
    obtain hsame | ⟨c, hread, hd⟩ := DirectoryChange.updateConsumer_apply id f d
    · rwa [hsame]
    · have hid : (f c).id = id := (hc c).trans (h.consumers id c (find_eq_ok.1 hread))
      rw [hd]
      exact ⟨Table.forall_insert h.consumers hid, h.anonymous⟩
  | updateOwner id f =>
    obtain hsame | ⟨o, -, hd⟩ := DirectoryChange.updateOwner_apply id f d
    · rwa [hsame]
    · rw [hd]
      exact ⟨h.consumers, h.anonymous⟩
  | updateEnvironment id f =>
    obtain hsame | ⟨e, -, hd⟩ := DirectoryChange.updateEnvironment_apply id f d
    · rwa [hsame]
    · rw [hd]
      exact ⟨h.consumers, h.anonymous⟩
  | setDirty id dirty => exact h.setDirty id dirty
  | deleteEnvironment id =>
    obtain hsame | hd := DirectoryChange.deleteEnvironment_apply id d
    · rwa [hsame]
    · rw [hd]
      exact h.withoutEnvironment id
  | _ => exact ⟨h.consumers, h.anonymous⟩

end Directory

theorem Instant.addDays_zero (t : Instant) : t.addDays 0 = t := by
  rw [addDays, addSeconds, if_pos (.inl (Int.zero_mul _)), Int.zero_mul, Int.add_zero]

namespace Authority

variable {P : DirectoryChange → Prop} {a b b' : Authority} {c fresh : IssuedCertificate}
  {id : String} {role : Role} {x : ContentAccess} {now : Instant}

/-- **Consumers stand under their ids** as long as no change gives them others. -/
theorem ArisesBy.keyed (h : ArisesBy DirectoryChange.KeepsIds a) : a.directory.ConsumersKeyed :=
  h.directory_invariant ⟨fun _ _ h => (nomatch h), fun _ _ h => (nomatch h)⟩
    (fun _ _ hkeyed hchange => hkeyed.apply hchange)
    fun _ id dirty hkeyed => hkeyed.setDirty id dirty

theorem ReachableBy.keyed (h : ReachableBy DirectoryChange.KeepsIds a) :
    a.directory.ConsumersKeyed :=
  h.arises.keyed

/-- Whoever has access to content stands under its id. -/
theorem id_of_find (hkeyed : a.directory.ConsumersKeyed)
    (hfind : ContentAccess.find a.directory id = .ok (some x)) : x.consumer.id = id :=
  hkeyed.consumers id _ (find_eq_some hfind).1

/-- **A certificate is issued for the role that was asked for.** -/
theorem role_of_issue (ha : a.Consistent) (hkeyed : a.directory.ConsumersKeyed)
    (h : issue role now a = (.ok fresh, b)) : fresh.role = role := by
  obtain ⟨kind, subject⟩ := role
  cases kind with
  | entitlement => exact (issued_entitlement ha h).1
  | contentAccess =>
    obtain ⟨p, a₁, hplan, hsign⟩ := Request.bind_eq_ok.1 h
    obtain ⟨key, keys, rfl, -⟩ := sign_eq_ok hsign
    obtain ⟨x, hfind, rfl⟩ := (contentAccessPlan_eq_ok rfl).1 (congrArg Prod.fst hplan)
    exact congrArg Role.contentAccess (id_of_find hkeyed hfind)
  | anonymousContentAccess =>
    obtain ⟨p, a₁, hplan, hsign⟩ := Request.bind_eq_ok.1 h
    obtain ⟨key, keys, rfl, -⟩ := sign_eq_ok hsign
    obtain ⟨consumer, content, hconsumer, -, hrole, -⟩ := anonymousPlan_eq_ok hplan
    have huuid := hkeyed.anonymous subject consumer (Directory.find_eq_ok.1 hconsumer)
    exact hrole.trans (congrArg (Role.mk .anonymousContentAccess) huuid)
  | identity =>
    obtain ⟨p, a₁, hplan, hsign⟩ := Request.bind_eq_ok.1 h
    obtain ⟨key, keys, rfl, -⟩ := sign_eq_ok hsign
    obtain ⟨consumer, -, hrole, -⟩ := identityPlan_eq_ok (congrArg Prod.fst hplan)
    exact hrole
  | product =>
    obtain ⟨p, a₁, hplan, hsign⟩ := Request.bind_eq_ok.1 h
    obtain ⟨key, keys, rfl, -⟩ := sign_eq_ok hsign
    obtain ⟨product, -, hrole, -⟩ := productPlan_eq_ok (congrArg Prod.fst hplan)
    exact hrole
  | ueber =>
    obtain ⟨p, a₁, hplan, hsign⟩ := Request.bind_eq_ok.1 h
    obtain ⟨key, keys, rfl, -⟩ := sign_eq_ok hsign
    obtain ⟨owner, -, hrole, -⟩ := ueberPlan_eq_ok (congrArg Prod.fst hplan)
    exact hrole

/-! ### What a request leaves behind -/

/-- The stored certificate of a role; for content access the payload, which is not stored, comes
with it. -/
def Hands (a : Authority) (role : Role) (c : IssuedCertificate) : Prop :=
  ∃ stored, a.current? role = some stored ∧
    (c = stored ∨ role.kind = .contentAccess ∧ c = { stored with payload := c.payload })

/-- Serials, certificates and records are the same. -/
structure Untouched (a b : Authority) : Prop extends SameStores a b where
  directory : b.directory = a.directory

/-- A certificate has taken the place of that of a role, and everything else is as it was. -/
structure Replaces (role : Role) (c : IssuedCertificate) (a b : Authority) : Prop where
  newest : ∀ n s, a.serials.get? n = some s → n < c.serial.id
  entered : b.serials.get? c.serial.id = some c.serial
  live : c.serial.revoked = false
  stored : Hands b role c
  /-- The serial of the certificate before is revoked. -/
  retired : ∀ previous, a.current? role = some previous →
    ∃ s, b.serials.get? previous.serial.id = some s ∧ s.revoked = true
  serials : ∀ n, n ≠ c.serial.id → (∀ previous, a.current? role = some previous →
    previous.serial.id ≠ n) → b.serials.get? n = a.serials.get? n
  certificates : ∀ other, other ≠ role → b.current? other = a.current? other
  entitlements : ∀ id, role ≠ .entitlement id →
    b.directory.entitlements.get? id = a.directory.entitlements.get? id
  /-- An entitlement with a new certificate is not flagged. -/
  unflagged : ∀ id, role = .entitlement id →
    ∃ e, b.directory.entitlements.get? id = some e ∧ e.dirty = false

theorem Untouched.refl (a : Authority) : Untouched a a := ⟨.refl a, rfl⟩

/-- A payload that is added later makes no difference. -/
theorem Replaces.with_payload (hkind : role.kind = .contentAccess) (h : Replaces role c a b)
    (hb : Untouched b b') (payload : Option String) :
    Replaces role { c with payload } a b' := by
  have hcurrent := hb.current?_eq
  refine {
    newest := h.newest
    live := h.live
    entered := hb.serials ▸ h.entered
    retired := hb.serials ▸ h.retired
    serials := hb.serials ▸ h.serials
    certificates := fun other hne => (hcurrent other).trans (h.certificates other hne)
    entitlements := hb.directory ▸ h.entitlements
    unflagged := hb.directory ▸ h.unflagged
    stored := ?_ }
  obtain ⟨stored, hstored, hc⟩ := h.stored
  refine ⟨stored, (hcurrent role).trans hstored, .inr ⟨hkind, ?_⟩⟩
  obtain rfl | ⟨-, hc⟩ := hc
  · rfl
  · rw [hc]

/-- **What is issued replaces the certificate before.** -/
theorem replaces_of_issue (ha : a.Consistent) (hkeyed : a.directory.ConsumersKeyed)
    (h : issue role now a = (.ok fresh, b)) : Replaces role fresh a (b.superseded fresh) := by
  have hrole := role_of_issue ha hkeyed h
  obtain ⟨hfresh, -⟩ := issuedFrom_of_issue h
  have hid : fresh.serial.id = a.serials.nextId := by rw [hfresh.serial]
  have hget := get?_ledgerAfter ha hfresh
  rw [← serials_superseded h, hrole] at hget
  have hcurrent : ∀ other, (b.superseded fresh).current? other =
      if fresh.role = other then some fresh else a.current? other := by
    intro other
    rw [current?_of_put rfl other, current?, issue_certificates h, current?]
  have hdirectory := (issue_fixed h).2
  exact {
    newest := fun n s hs => hid ▸ a.serials.lt_nextId n s hs
    entered := (hget _).trans (if_pos rfl)
    live := by rw [hfresh.serial]
    stored := ⟨fresh, (hcurrent role).trans (if_pos hrole), .inl rfl⟩
    retired := by
      intro previous hprevious
      obtain ⟨s, hs⟩ := ha.serials _ _ previous hprevious
      have hne : previous.serial.id ≠ fresh.serial.id := hid ▸ SerialLedger.get?_ne_nextId hs
      rw [hget, if_neg hne, if_pos (by rw [hprevious]; rfl), hs]
      exact ⟨_, rfl, rfl⟩
    serials := by
      intro n hne hprevious
      rw [hget, if_neg hne, if_neg]
      rintro hn
      obtain ⟨previous, hcurrent, hn⟩ := Option.map_eq_some_iff.1 hn
      exact hprevious previous hcurrent hn
    certificates := fun other hne => (hcurrent other).trans (if_neg (hrole ▸ hne.symm))
    entitlements := by
      intro id hne
      rw [← hdirectory]
      unfold superseded
      dsimp only
      split
      · rename_i hkind
        have hother : fresh.role.subject ≠ id := by
          rintro rfl
          obtain ⟨kind, subject⟩ := fresh.role
          exact hne (hrole.symm.trans (congrArg (Role.mk · _) hkind))
        obtain ⟨entitlements, hd, hflags⟩ :=
          Directory.setDirty_result fresh.role.subject false b.directory
        rw [hd]
        exact (hflags id).trans (if_neg hother)
      · rfl
    unflagged := by
      rintro id rfl
      obtain ⟨e, he⟩ := (supersedable_of_issue ha h).entitlement (congrArg Role.kind hrole)
      rw [hrole] at he
      obtain ⟨entitlements, hd, hflags⟩ := Directory.setDirty_result id false b.directory
      rw [superseded_directory hrole, hd]
      have hunflagged := hflags id
      rw [if_pos rfl, show b.directory.entitlements.get? id = some e from he] at hunflagged
      exact ⟨_, hunflagged, rfl⟩ }

/-- Only the plan can find that a certificate would be too large. -/
theorem isTooLarge_of_fault? {p : Plan} {e : Fault} (h : p.fault? = some e) :
    e.isTooLarge = false := by
  have hsubject : ∀ {e}, validateSubject p.subject p.alternateName p.validity = .error e →
      e.isTooLarge = false := by
    intro e h
    unfold validateSubject at h
    split at h
    · cases h
      rfl
    · split at h
      · cases h
        rfl
      · split at h <;> cases h
        rfl
  have hrange : ∀ {e}, p.validity.checkRange = .error e → e.isTooLarge = false := by
    intro e h
    unfold Validity.checkRange at h
    split at h
    · cases h
      rfl
    · split at h <;> cases h
      rfl
  unfold Plan.fault? at h
  split at h
  · rename_i e' hrefused
    cases h
    exact hsubject hrefused
  · split at h
    · cases h
      rfl
    · split at h <;> cases h
      rename_i hout
      exact hrange hout

/-- A certificate that would be too large is refused before anything is done. -/
theorem untouched_of_tooLarge {e : Fault} (h : issue role now a = (.error e, b))
    (hlarge : e.isTooLarge = true) : Untouched a b := by
  rcases hplan : plan role now a with ⟨o, a₁⟩
  cases o with
  | error e' =>
    have hfailed : issue role now a = (.error e', a₁) := Request.bind_error hplan
    cases hfailed.symm.trans h
    have hno := leavesNoTrace_of_plan_failed hplan
    exact ⟨⟨hno.serials, hno.certificates⟩, hno.directory⟩
  | ok p =>
    have hsign : sign p now a₁ = (.error e, b) := (Request.bind_ok hplan).symm.trans h
    have hfault := isTooLarge_of_fault? ((sign_eq_error_iff p now a₁).1 (congrArg Prod.fst hsign))
    rw [hlarge] at hfault
    cases hfault

theorem contentPayload_untouched (x : ContentAccess) (now : Instant) (a : Authority) :
    Untouched a (contentPayload x now a).2 := by
  obtain ⟨signatures, payloads, h, -⟩ := contentPayload_eq x now a
  rw [h]
  exact ⟨⟨rfl, rfl⟩, rfl⟩

/-! ### Decisions -/

/-- The stored certificate, if it is valid. -/
def handedOut (a : Authority) (role : Role) (now : Instant) : Outcome (Option IssuedCertificate) :=
  (a.state role now).map fun s => if s = .valid then a.current? role else none

/-- Whether a certificate is used again is decided as its state says. -/
theorem reusable_eq_state (hkind : role.kind ≠ .contentAccess) (a : Authority) (now : Instant) :
    a.reusable role now = a.handedOut role now := by
  unfold reusable handedOut
  cases hc : a.current? role with
  | none =>
    unfold state
    rw [hc]
    rfl
  | some c => rw [state_of_current hkind hc]

/-- How things stand with a certificate for content access. -/
theorem state_contentAccess {consumer : Consumer} (hc : a.current? (.contentAccess id) = some c)
    (hconsumer : a.directory.consumer id = .ok consumer) (now : Instant) :
    a.state (.contentAccess id) now =
      if c.environmentIds ≠ consumer.environmentIds then .ok .stale else a.standing c now := by
  unfold state
  rw [hc]
  show (a.directory.consumer id >>= _) = _
  rw [hconsumer, Outcome.ok_bind]
  split <;> rfl

/-- The same goes for content access. -/
theorem keptContentAccess_eq_state (hfind : ContentAccess.find a.directory id = .ok (some x))
    (hid : x.consumer.id = id) (now : Instant) :
    a.keptContentAccess x false now = a.handedOut (.contentAccess id) now := by
  have hconsumer : a.directory.consumer id = .ok x.consumer :=
    Directory.find_eq_ok.2 (find_eq_some hfind).1
  unfold keptContentAccess handedOut
  rw [hid]
  cases hc : a.current? (.contentAccess id) with
  | none =>
    unfold state
    rw [hc]
    rfl
  | some c =>
    dsimp only
    rw [state_contentAccess hc hconsumer]
    by_cases hother : c.environmentIds ≠ x.consumer.environmentIds
    · rw [if_pos (.inl hother), if_pos hother]
      rfl
    · have hkept : ¬ (c.environmentIds ≠ x.consumer.environmentIds ∨ false = true) := by
        rintro (h | h)
        · exact hother h
        · cases h
      rw [if_neg hkept, if_neg hother]

/-- The certificate of a consumer can still be handed out at an instant. -/
def Serves (x : ContentAccess) (c : IssuedCertificate) (now : Instant) : Prop :=
  c.serial.isExpired now = false ∧ c.environmentIds = x.consumer.environmentIds

/-- A certificate for content access that is not revoked is stale when it is expired, and not
before. -/
theorem standing_contentAccess (ha : a.Consistent) (hc : a.current? (.contentAccess id) = some c)
    (hlive : a.isRevoked c = false) (now : Instant) :
    a.standing c now = .ok (if c.serial.isExpired now then .stale else .valid) := by
  have hrole : c.role = .contentAccess id := ha.roles _ _ c hc
  have hkind : c.role.kind = .contentAccess := by rw [hrole]; rfl
  have hrenewal : now.addDays (renewalDays a.config c.role.kind) = now := by
    rw [hkind]
    exact now.addDays_zero
  have hdirty : a.isDirty c = .ok false := by
    unfold isDirty
    rw [hkind]
    exact if_neg (fun h => nomatch h)
  unfold standing
  rw [hlive, if_neg Bool.false_ne_true, hrenewal, hdirty]
  cases c.serial.isExpired now <;> rfl

/-- A certificate of the record that was found is used again if it can be, under whatever id the
consumer was asked for. -/
theorem keptContentAccess_of_serves (ha : a.Consistent)
    (hc : a.current? (.contentAccess x.consumer.id) = some c) (hlive : a.isRevoked c = false)
    (hserves : Serves x c now) : a.keptContentAccess x false now = .ok (some c) := by
  have hsame : ¬ (c.environmentIds ≠ x.consumer.environmentIds ∨ false = true) := by
    rintro (hother | h)
    · exact hother hserves.2
    · cases h
  unfold keptContentAccess
  rw [hc]
  dsimp only
  rw [if_neg hsame, standing_contentAccess ha hc hlive, hserves.1]
  rfl

theorem handedOut_eq_some (h : a.handedOut role now = .ok (some c)) :
    a.state role now = .ok .valid ∧ a.current? role = some c := by
  unfold handedOut at h
  cases hs : a.state role now with
  | error e =>
    rw [hs] at h
    cases h
  | ok s =>
    rw [hs] at h
    have h : (if s = .valid then a.current? role else none) = some c := Except.ok.inj h
    split at h
    · rename_i hvalid
      exact ⟨hvalid ▸ rfl, h⟩
    · cases h

theorem handedOut_eq_none (h : a.handedOut role now = .ok none) :
    ∃ s, a.state role now = .ok s ∧ s ≠ .valid := by
  unfold handedOut at h
  cases hs : a.state role now with
  | error e =>
    rw [hs] at h
    cases h
  | ok s =>
    refine ⟨s, rfl, ?_⟩
    rintro rfl
    rw [hs] at h
    have hnone : a.current? role = none := Except.ok.inj h
    unfold state at hs
    rw [hnone] at hs
    cases hs

/-! ### Requests -/

/-- How a request for a certificate ends that gives one. -/
inductive Given (role : Role) (now : Instant) (a : Authority) (c : IssuedCertificate)
    (b : Authority) : Prop
  | handed (hvalid : a.state role now = .ok .valid) (hands : Hands a role c) (h : Untouched a b)
  | replaced (s : CertificateState) (hs : a.state role now = .ok s) (hne : s ≠ .valid)
      (h : Replaces role c a b)

theorem contentAccess_given (ha : a.Consistent) (hkeyed : a.directory.ConsumersKeyed)
    (h : contentAccess id false now a = (.ok (some c), b)) :
    Given (.contentAccess id) now a c b := by
  obtain ⟨x, stored, a₁, row, hfind, hcertificate, hrow, rfl⟩ := contentAccess_eq_ok.1 h
  have hstate := keptContentAccess_eq_state hfind (id_of_find hkeyed hfind) now
  have hsame := contentPayload_untouched x now a₁
  rw [hrow] at hsame
  have hresult := contentAccessCertificate_result ha hfind false now
  rw [hcertificate] at hresult
  cases hresult with
  | kept c hkept =>
    obtain ⟨hvalid, hcurrent⟩ := handedOut_eq_some (hstate.symm.trans hkept)
    exact .handed hvalid ⟨stored, hcurrent, .inr ⟨rfl, rfl⟩⟩ hsame
  | issued fresh b₁ hnone hissue =>
    obtain ⟨s, hs, hne⟩ := handedOut_eq_none (hstate.symm.trans hnone)
    exact .replaced s hs hne ((replaces_of_issue ha hkeyed hissue).with_payload rfl hsame _)

theorem generate_given (ha : a.Consistent) (hkeyed : a.directory.ConsumersKeyed)
    (h : generate role now a = (.ok (some c), b)) : Given role now a c b := by
  by_cases hkind : role.kind = .contentAccess
  · obtain ⟨kind, subject⟩ := role
    obtain rfl : kind = .contentAccess := hkind
    unfold generate at h
    rw [if_pos rfl] at h
    exact contentAccess_given ha hkeyed h
  · have hstate := reusable_eq_state hkind a now
    have hresult := generate_result ha hkind now
    rw [h] at hresult
    cases hresult with
    | kept c hkept =>
      obtain ⟨hvalid, hcurrent⟩ := handedOut_eq_some (hstate.symm.trans hkept)
      exact .handed hvalid ⟨c, hcurrent, .inl rfl⟩ (.refl a)
    | issued fresh b₁ hnone hissue =>
      obtain ⟨s, hs, hne⟩ := handedOut_eq_none (hstate.symm.trans hnone)
      exact .replaced s hs hne (replaces_of_issue ha hkeyed hissue)

/-- A renewed certificate replaces the one before, unless it would be too large. -/
theorem regenerate_given (ha : a.Consistent) (hkeyed : a.directory.ConsumersKeyed)
    (h : regenerate role false now a = (.ok (some c), b)) : Replaces role c a b ∨
      (∃ e b', issue role now a = (.error e, b') ∧ e.isTooLarge = true) ∧
        a.current? role = some c ∧ Untouched a b := by
  by_cases hkind : role.kind = .contentAccess
  · obtain ⟨kind, subject⟩ := role
    obtain rfl : kind = .contentAccess := hkind
    have h : contentAccess subject true now a = (.ok (some c), b) := h
    obtain ⟨x, stored, a₁, row, hfind, hcertificate, hrow, rfl⟩ := contentAccess_eq_ok.1 h
    have hsame := contentPayload_untouched x now a₁
    rw [hrow] at hsame
    have hresult := contentAccessCertificate_result ha hfind true now
    rw [hcertificate] at hresult
    cases hresult with
    | kept c hkept =>
      -- a new certificate is forced
      unfold keptContentAccess at hkept
      split at hkept
      · cases hkept
      · rw [if_pos (.inr rfl)] at hkept
        cases hkept
    | issued fresh b₁ hnone hissue =>
      exact .inl ((replaces_of_issue ha hkeyed hissue).with_payload rfl hsame _)
  · rw [regenerate_eager hkind] at h
    have hresult := renew_result ha role now
    rw [h] at hresult
    cases hresult with
    | issued fresh b₁ hissue => exact .inl (replaces_of_issue ha hkeyed hissue)
    | kept e b₁ c hissue hlarge hcurrent =>
      exact .inr ⟨⟨e, b, hissue, hlarge⟩, hcurrent, untouched_of_tooLarge hissue hlarge⟩

/-- A renewal that is put off flags the entitlement and changes nothing else. -/
theorem regenerate_put_off (id : String) (now : Instant) (a : Authority) :
    ∃ entitlements, (regenerate (.entitlement id) true now a).2 =
        { a with directory := { a.directory with entitlements } } ∧
      ∀ id', entitlements.get? id' =
        if id = id' then (a.directory.entitlements.get? id').map fun e => { e with dirty := true }
        else a.directory.entitlements.get? id' := by
  obtain ⟨entitlements, hd, hget⟩ := Directory.setDirty_result id true a.directory
  refine ⟨entitlements, ?_, hget⟩
  have hstate : (regenerate (.entitlement id) true now a).2 =
      { a with directory := (Directory.setDirty id true a.directory).2 } := by
    rcases hset : onDirectory (Directory.setDirty id true) a with ⟨o, b⟩
    have hb : { a with directory := (Directory.setDirty id true a.directory).2 } = b :=
      congrArg Prod.snd hset
    rw [hb]
    rw [regenerate_putOff]
    cases o with
    | error e => rw [Request.bind_error hset]
    | ok u => rw [Request.bind_ok hset, Request.get_apply]
  rw [hstate, hd]

/-- How things stand with a certificate for an entitlement until it is due. -/
theorem standing_of_flag {e : Entitlement} (hrole : c.role = .entitlement id)
    (hlive : a.isRevoked c = false)
    (hlasting : c.serial.isExpired (now.addDays (renewalDays a.config c.role.kind)) = false)
    (he : a.directory.entitlements.get? id = some e) :
    a.standing c now = .ok (if e.dirty then .stale else .valid) := by
  unfold standing
  rw [hlive, hlasting, isDirty_entitlement hrole he]
  rfl

/-- The records of the sample entitlement, with its flag. -/
def flaggedDirectory (dirty : Bool) : Directory :=
  (Directory.setDirty Sample.entitlement.id dirty promotedDirectory).2

/-- An authority that has issued the certificate of the sample entitlement, flagged or not. -/
structure HasIssued (a : Authority) (c : IssuedCertificate) (dirty : Bool) : Prop where
  reachable : a.ReachableBy DirectoryChange.KeepsIds
  config_eq : a.config = {}
  directory_eq : a.directory = flaggedDirectory dirty
  current : a.current? (.entitlement Sample.entitlement.id) = some c
  live : a.isRevoked c = false
  lasting : c.serial.isExpired ((⟨0, 0⟩ : Instant).addDays (renewalDays {} .entitlement)) = false

namespace HasIssued

variable {dirty : Bool}

theorem state_eq (h : HasIssued a c dirty) : a.state (.entitlement Sample.entitlement.id) ⟨0, 0⟩ =
    .ok (if dirty then .stale else .valid) := by
  have hrole := h.reachable.reachable.consistent.roles _ _ c h.current
  have hlasting := h.lasting
  rw [state_of_current (kind_entitlement_ne _) h.current]
  refine standing_of_flag (e := { Sample.entitlement with dirty }) hrole h.live ?_ ?_
  · rw [h.config_eq, hrole]
    exact hlasting
  · rw [h.directory_eq]
    rfl

/-- A renewal that is put off flags the entitlement. -/
theorem put_off (h : HasIssued a c false) :
    HasIssued (regenerate (.entitlement Sample.entitlement.id) true ⟨0, 0⟩ a).2 c true := by
  have hentitlement : a.directory.entitlements.get? Sample.entitlement.id =
      some Sample.entitlement := by
    rw [h.directory_eq]
    rfl
  have hflag : onDirectory (Directory.setDirty Sample.entitlement.id true) a =
      (.ok (), { a with directory := flaggedDirectory true }) := by
    rw [onDirectory, Request.within_apply, Directory.setDirty_of_some true hentitlement,
      h.directory_eq]
    rfl
  have hstate : (regenerate (.entitlement Sample.entitlement.id) true ⟨0, 0⟩ a).2 =
      { a with directory := flaggedDirectory true } := by
    rw [regenerate_putOff, Request.bind_ok hflag, Request.get_apply]
  have hreachable : ReachableBy DirectoryChange.KeepsIds
      (regenerate (.entitlement Sample.entitlement.id) true ⟨0, 0⟩ a).2 :=
    h.reachable.tail
      ⟨.regenerate (.entitlement Sample.entitlement.id) true, ⟨0, 0⟩, trivial, rfl⟩
  rw [hstate] at hreachable ⊢
  exact ⟨hreachable, h.config_eq, rfl, h.current, h.live, h.lasting⟩

/-- The certificate of a flagged entitlement is issued again. -/
theorem generate_ok (h : HasIssued a c true) :
    ∃ c' b, generate (.entitlement Sample.entitlement.id) ⟨0, 0⟩ a = (.ok (some c'), b) := by
  have hissuable : IsIssuable a.config a.directory Sample.entitlement.id ⟨0, 0⟩ := by
    rw [h.config_eq, h.directory_eq]
    exact ⟨_, rfl, rfl, rfl, rfl⟩
  obtain ⟨fresh, b, hissue⟩ := exists_issue hissuable
  refine ⟨fresh, _, generate_of_issue h.reachable.reachable.consistent (kind_entitlement_ne _) ?_
    hissue⟩
  rw [reusable_eq_state (kind_entitlement_ne _), handedOut, h.state_eq]
  rfl

end HasIssued

/-- The first certificate of the sample entitlement. -/
theorem exists_hasIssued : ∃ start c b, start.ReachableBy DirectoryChange.KeepsIds ∧
    start.state (.entitlement Sample.entitlement.id) ⟨0, 0⟩ = .ok .absent ∧
    generate (.entitlement Sample.entitlement.id) ⟨0, 0⟩ start = (.ok (some c), b) ∧
    HasIssued b c false := by
  have hkeeps : ∀ c ∈ promotedChanges, c.KeepsIds := by
    simp [promotedChanges, DirectoryChange.KeepsIds]
  obtain ⟨start, ha, hconfig, hdirectory, hnone⟩ := ReachableBy.exists_stocked hkeeps rfl
  have hdirectory : start.directory = promotedDirectory := hdirectory
  have hissuable : IsIssuable start.config start.directory Sample.entitlement.id ⟨0, 0⟩ := by
    rw [hconfig, hdirectory]
    exact ⟨_, rfl, rfl, rfl, rfl⟩
  have hconsistent := ha.reachable.consistent
  obtain ⟨c, b, hissue, hgenerate⟩ := generate_of_issuable hconsistent (hnone _) hissuable
  obtain ⟨hrole, -⟩ := issued_entitlement hconsistent hissue
  have habsent : start.state (.entitlement Sample.entitlement.id) ⟨0, 0⟩ = .ok .absent := by
    unfold state
    rw [hnone]
  obtain ⟨p, hplan, hexpiration⟩ := expiration_of_issue hissue
  have hends : ∃ p, entitlementPlan {} promotedDirectory Sample.entitlement.id ⟨0, 0⟩ = .ok p ∧
      p.validity.notAfter = MovingConsumer.pool.endDate := ⟨_, rfl, rfl⟩
  obtain ⟨p', hplan', hends⟩ := hends
  rw [hconfig, hdirectory, hplan', Except.ok.injEq] at hplan
  subst hplan
  refine ⟨start, c, _, ha, habsent, hgenerate, {
    reachable := ha.of_generate hgenerate
    config_eq := (issue_fixed hissue).1.trans hconfig
    directory_eq := ?_
    current := (superseded_entitlement hrole b).1
    live := isRevoked_superseded hconsistent hissue
    lasting := ?_ }⟩
  · rw [superseded_directory hrole, (issue_fixed hissue).2, hdirectory]
    rfl
  · rw [Serial.isExpired, hexpiration, hends]
    rfl

/-- A consumer without a certificate has been given its first one, which is stored without the
payload. -/
structure FirstAccess (a : Authority) (x : ContentAccess) (now : Instant) (c : IssuedCertificate)
    (b : Authority) : Prop where
  answer : contentAccessCertificate x false now a = (.ok c, b)
  role_eq : c.role = .contentAccess x.consumer.id
  payload_eq : c.payload = none
  updated_eq : c.updated = now
  environmentIds_eq : c.environmentIds = x.consumer.environmentIds
  expiration_eq : c.serial.expiration = (x.plan a.config now).validity.notAfter
  current?_eq : ∀ role, b.current? role = if c.role = role then some c else a.current? role
  entered : b.serials.get? c.serial.id = some c.serial
  live : b.isRevoked c = false
  directory_eq : b.directory = a.directory

theorem exists_firstAccess (ha : a.Consistent)
    (hfind : ContentAccess.find a.directory id = .ok (some x))
    (hnone : a.current? (.contentAccess x.consumer.id) = none)
    (hfault : (x.plan a.config now).fault? = none) : ∃ c b, FirstAccess a x now c b := by
  rcases hsign : sign (x.plan a.config now) now a with ⟨o, b⟩
  cases o with
  | error e =>
    have herror := (sign_eq_error_iff _ now a).1 (congrArg Prod.fst hsign)
    rw [hfault] at herror
    cases herror
  | ok fresh =>
    have hissue : issue (.contentAccess id) now a = (.ok fresh, b) :=
      (issue_contentAccess hfind).trans hsign
    have hnokept : a.keptContentAccess x false now = .ok none := by
      unfold keptContentAccess
      rw [hnone]
    obtain ⟨key, keys, hfresh, -⟩ := sign_eq_ok hsign
    have hrole : fresh.role = .contentAccess x.consumer.id := by rw [hfresh]; rfl
    refine ⟨fresh, b.superseded fresh, {
      answer := ?_
      role_eq := hrole
      payload_eq := by rw [hfresh]; rfl
      updated_eq := by rw [hfresh]; rfl
      environmentIds_eq := by rw [hfresh]; rfl
      expiration_eq := by rw [hfresh]; rfl
      current?_eq := fun role => ?_
      entered := ?_
      live := isRevoked_superseded ha hissue
      directory_eq := ?_ }⟩
    · unfold contentAccessCertificate
      rw [Request.bind_ok (by rw [Request.read_apply, hnokept])]
      dsimp only
      rw [Request.bind_ok (Request.get_apply _ a), Request.bind_ok hsign,
        supersede_after_issue ha hissue]
    · rw [current?_of_put rfl, current?, issue_certificates hissue, current?]
    · rw [serials_superseded hissue, get?_ledgerAfter ha (issuedFrom_of_issue hissue).1, if_pos rfl]
    · rw [superseded, hrole]
      exact (issue_fixed hissue).2

namespace FirstAccess

theorem current (h : FirstAccess a x now c b) :
    b.current? (.contentAccess x.consumer.id) = some c :=
  (h.current?_eq _).trans (if_pos h.role_eq)

/-- The consumer is given the certificate alone if that is asked for. -/
theorem plainContentAccess_eq (h : FirstAccess a x now c b)
    (hfind : ContentAccess.find a.directory id = .ok (some x)) :
    plainContentAccess id now a = (.ok (some c), b) := by
  unfold plainContentAccess
  rw [Request.bind_ok (by rw [Request.read_apply, hfind])]
  exact Request.map_ok some h.answer

/-- The consumer is given the certificate with a payload, which is not stored. -/
theorem exists_generate (h : FirstAccess a x now c b)
    (hfind : ContentAccess.find a.directory id = .ok (some x)) :
    ∃ payload b', generate (.contentAccess id) now a = (.ok (some { c with payload }), b') ∧
      b'.current? (.contentAccess x.consumer.id) = some c ∧ { c with payload } ≠ c := by
  obtain ⟨row, b', hrow⟩ := contentPayload_ok x now b
  have hsame := contentPayload_untouched x now b
  rw [hrow] at hsame
  refine ⟨some row.payload, b', ?_, (hsame.current?_eq _).trans h.current, fun heq => ?_⟩
  · show contentAccess id false now a = _
    exact contentAccess_eq_ok.2 ⟨x, c, b, row, hfind, h.answer, hrow, rfl⟩
  · have hpayload := congrArg IssuedCertificate.payload heq
    rw [h.payload_eq] at hpayload
    cases hpayload

end FirstAccess

end Authority

/-! ### A consumer that asks for the first time -/

namespace Withdrawn

open Authority

variable {a : Authority}

theorem find_access (hdirectory : a.directory = directory) :
    ContentAccess.find a.directory "sample-consumer" = .ok (some access) := by
  rw [hdirectory]
  rfl

theorem fault?_access : (access.plan {} ⟨1, 0⟩).fault? = none := rfl

/-- The certificate that the consumer is given is not the one that is stored. -/
theorem stored_without_payload : ∃ a c b stored, a.ReachableBy DirectoryChange.KeepsIds ∧
    a.state (.contentAccess "sample-consumer") ⟨1, 0⟩ = .ok .absent ∧
    generate (.contentAccess "sample-consumer") ⟨1, 0⟩ a = (.ok (some c), b) ∧
    b.current? (.contentAccess "sample-consumer") = some stored ∧ c ≠ stored := by
  have hkeeps : ∀ c ∈ changes, c.KeepsIds := by
    simp [changes, DirectoryChange.KeepsIds]
  have hrecords : changes.foldl (fun d c => c.apply d) Directory.empty = directory := rfl
  obtain ⟨a, ha, hconfig, hdirectory, hnone⟩ := ReachableBy.exists_stocked hkeeps hrecords
  have hfind := find_access hdirectory
  obtain ⟨stored, b, hfirst⟩ := exists_firstAccess ha.reachable.consistent hfind (hnone _)
    (hconfig ▸ fault?_access)
  obtain ⟨payload, b', hanswer, hstored, hne⟩ := hfirst.exists_generate hfind
  refine ⟨a, _, b', stored, ha, ?_, hanswer, hstored, hne⟩
  unfold state
  rw [hnone]

end Withdrawn

/-! ### A consumer under another id -/

namespace RenamedAccess

open Authority

/-- The record of the consumer is given another id, and stays where it is. -/
def idChange : DirectoryChange :=
  .updateConsumer "sample-consumer" fun c => { c with id := "other-consumer" }

/-- The records after that. -/
def directory : Directory :=
  idChange.apply Withdrawn.directory

/-- What a request of the consumer takes. -/
def access : ContentAccess :=
  .ofConsumer directory SharedKey.owner { Withdrawn.consumer with id := "other-consumer" }

variable {a : Authority}

theorem find_access (hdirectory : a.directory = directory) :
    ContentAccess.find a.directory "sample-consumer" = .ok (some access) := by
  rw [hdirectory]
  rfl

theorem fault?_access : (access.plan {} ⟨1, 0⟩).fault? = none := rfl

/-- An authority that has issued the certificate: it is stored under the other id. -/
structure Holds (a : Authority) (c : IssuedCertificate) : Prop where
  reachable : a.Reachable
  directory_eq : a.directory = directory
  asked : a.current? (.contentAccess "sample-consumer") = none
  stored : a.current? (.contentAccess "other-consumer") = some c
  entered : a.serials.get? c.serial.id = some c.serial
  live : a.isRevoked c = false
  updated : c.updated = ⟨1, 0⟩
  serves : Serves access c ⟨2, 0⟩

theorem exists_holds : ∃ a c, Holds a c := by
  have hrecords : (Withdrawn.changes ++ [idChange]).foldl (fun d c => c.apply d) Directory.empty =
      directory := by
    rw [List.foldl_append]
    rfl
  obtain ⟨a, ha, hconfig, hdirectory, hnone⟩ := exists_stocked hrecords
  have hfind := find_access hdirectory
  obtain ⟨c, b, h⟩ := exists_firstAccess ha.consistent hfind (hnone _) (hconfig ▸ fault?_access)
  have hstep : Step a b :=
    ⟨.plainContentAccess "sample-consumer", ⟨1, 0⟩,
      (congrArg Prod.snd (h.plainContentAccess_eq hfind)).symm⟩
  refine ⟨b, c, {
    reachable := ha.trans (.single hstep)
    directory_eq := h.directory_eq.trans hdirectory
    asked := ?_
    stored := h.current
    entered := h.entered
    live := h.live
    updated := h.updated_eq
    serves := ⟨?_, h.environmentIds_eq⟩ }⟩
  · rw [h.current?_eq, hnone, h.role_eq]
    rfl
  · rw [Serial.isExpired, h.expiration_eq, hconfig]
    rfl

end RenamedAccess

end EntitlementAuthority
