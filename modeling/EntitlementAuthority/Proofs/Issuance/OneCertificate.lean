import EntitlementAuthority.Proofs.Issuance.Failure
import EntitlementAuthority.Proofs.Issuance.Interleaving
import EntitlementAuthority.Proofs.Issuance.Ledger
import EntitlementAuthority.Proofs.Issuance.Moments

/-!
# Requests for the certificate of an entitlement

How the requests for the certificate of one entitlement can end, and what they leave behind.

* `Plan.fault?`, `issueFault?` — why a certificate cannot be issued. Neither flags nor other
  certificates have a say in it.
* `Authority.GenerateResult`, `Authority.generate_result` — a certificate is reused or issued, or
  the request fails.
* `Authority.RenewResult`, `Authority.renew_result` — a certificate is issued or kept, or the
  request fails.
* `Authority.Fails`, `Authority.fails_iff` — when it does.
* `Authority.standing_of_issue` — what was issued last is valid until it is due.
-/

namespace EntitlementAuthority

/-! ### Faults -/

/-- Why a plan cannot be issued. -/
def Plan.fault? (p : Plan) : Option Fault :=
  match validateSubject p.subject p.alternateName p.validity with
  | .error e => some e
  | .ok _ =>
    if Text.isBlank p.keySubject then some noKeyFault
    else
      match p.validity.checkRange with
      | .error e => some e
      | .ok _ => none

/-- Why the certificate of an entitlement cannot be issued. -/
def issueFault? (config : Config) (d : Directory) (id : String) (now : Instant) : Option Fault :=
  match entitlementPlan config d id now with
  | .error e => some e
  | .ok p => p.fault?

/-- Plans do not depend on any flag. -/
theorem entitlementPlan_setDirty (config : Config) (id : String) (dirty : Bool) (d : Directory)
    (id' : String) (now : Instant) :
    entitlementPlan config (Directory.setDirty id dirty d).2 id' now =
      entitlementPlan config d id' now := by
  obtain ⟨entitlements, hd, hget⟩ := Directory.setDirty_result id dirty d
  unfold entitlementPlan
  simp only [entitlementProducts_setDirty]
  rw [hd]
  unfold Directory.entitlement Directory.find
  dsimp only
  rw [hget]
  by_cases hid : id = id'
  · rw [if_pos hid]
    cases d.entitlements.get? id' <;> rfl
  · rw [if_neg hid]
    rfl

theorem issueFault?_setDirty (config : Config) (id : String) (dirty : Bool) (d : Directory)
    (id' : String) (now : Instant) :
    issueFault? config (Directory.setDirty id dirty d).2 id' now =
      issueFault? config d id' now := by
  unfold issueFault?
  rw [entitlementPlan_setDirty]

namespace Authority

variable {a b : Authority} {d : Directory} {c fresh : IssuedCertificate} {id : String} {role : Role}
  {e : Fault} {now t : Instant}

theorem sign_eq_error_iff (p : Plan) (now : Instant) (a : Authority) :
    (sign p now a).1 = .error e ↔ p.fault? = some e := by
  have hr := sign_result p now a
  generalize sign p now a = r at hr
  unfold Plan.fault?
  cases hr with
  | refused e' hsubject => simp [hsubject]
  | noKey hsubject hkey => simp [hsubject, hkey]
  | outOfRange e' keys hsubject hkey hrange => simp [hsubject, hkey, hrange]
  | issued key keys hsubject hkey hrange => simp [hsubject, hkey, hrange]

/-- **Whether a certificate can be issued** is decided by the records. -/
theorem issue_eq_error_iff : (issue (.entitlement id) now a).1 = .error e ↔
    issueFault? a.config a.directory id now = some e := by
  have hread : plan (.entitlement id) now a =
      (entitlementPlan a.config a.directory id now, a) := rfl
  unfold issue issueFault?
  cases hplan : entitlementPlan a.config a.directory id now with
  | error e' =>
    rw [Request.bind_error (hread.trans (by rw [hplan]))]
    simp
  | ok p =>
    rw [Request.bind_ok (hread.trans (by rw [hplan]))]
    exact sign_eq_error_iff p now a

/-- An attempt that fails changes neither the records nor the certificates. -/
theorem issue_failed_same (ha : a.Consistent) (h : issue role now a = (.error e, b)) :
    b.config = a.config ∧ b.directory = a.directory ∧ b.certificates = a.certificates := by
  obtain ⟨hcertificates, hdirectory, -⟩ := issue_failed h
  exact ⟨((leads_of_issue h).fixed ha).1, hdirectory, hcertificates⟩

/-- What is issued now has the next serial. -/
theorem issuedFrom_of_issue {role : Role} (h : issue role now a = (.ok fresh, b)) :
    IssuedFrom a fresh ∧
      b.serials = (a.serials.allocate fresh.serial.expiration).2 := by
  obtain ⟨p, a₁, hplan, hsign⟩ := Request.bind_eq_ok.1 h
  have hsame := plan_sameIssued role now a
  rw [hplan] at hsame
  obtain ⟨hfresh, hserials, -⟩ := issuedFrom_of_sign hsign
  rw [hsame.serials] at hserials
  exact ⟨hsame.issuedFrom hfresh, hserials⟩

/-! ### Certificates that take their place -/

/-- After another certificate was issued, a certificate can still be put in its place. -/
theorem Supersedable.issued (h : a.Supersedable fresh) (hkind : fresh.role.kind ≠ .entitlement)
    (hissue : issue role now a = (.ok c, b)) : b.Supersedable fresh := by
  obtain ⟨s, hs⟩ := h.serial
  refine ⟨?_, fun hentitlement => absurd hentitlement hkind⟩
  rw [(issuedFrom_of_issue hissue).2]
  exact get?_allocate_of_some _ hs

/-- So it can after another one was stored where none was. -/
theorem Supersedable.stored (h : a.Supersedable fresh) (hkind : fresh.role.kind ≠ .entitlement)
    (hnone : a.current? c.role = none) : (a.superseded c).Supersedable fresh := by
  refine ⟨?_, fun hentitlement => absurd hentitlement hkind⟩
  unfold superseded
  dsimp only
  rw [hnone]
  exact h.serial

/-- A certificate that takes its place leaves those of other entitlements alone. -/
theorem superseded_others {fresh : IssuedCertificate} (hrole : fresh.role = .entitlement id)
    {id' : String} (hne : id' ≠ id) (b : Authority) :
    (b.superseded fresh).current? (.entitlement id') = b.current? (.entitlement id') ∧
      (IsFlagged (b.superseded fresh) id' ↔ IsFlagged b id') := by
  constructor
  · have hput := CertificateStore.get?_put fresh.role.kind .entitlement fresh.role.subject id' fresh
      b.certificates
    rw [hrole] at hput
    unfold superseded
    rw [hrole]
    exact hput.trans (if_neg fun h => hne h.2.symm)
  · obtain ⟨entitlements, hd, hget⟩ := Directory.setDirty_result id false b.directory
    unfold IsFlagged
    rw [superseded_directory hrole, hd]
    show (∃ e, entitlements.get? id' = some e ∧ _) ↔ _
    rw [hget, if_neg hne.symm]

theorem models_superseded {fresh : IssuedCertificate} (hrole : fresh.role = .entitlement id)
    (b : Authority) (id' : String) : (b.superseded fresh).models id' = b.models id' := by
  unfold models
  rw [superseded_directory hrole]
  exact entitlementModels_setDirty b.config id false b.directory id'

theorem kind_entitlement_ne (id : String) : (Role.entitlement id).kind ≠ .contentAccess := by
  intro h
  cases h

theorem state_of_current (hkind : role.kind ≠ .contentAccess) (hc : a.current? role = some c)
    (t : Instant) : a.state role t = a.standing c t := by
  unfold state
  rw [hc]
  dsimp only
  rw [if_neg hkind]

theorem isDirty_entitlement {e : Entitlement} (hrole : c.role = .entitlement id)
    (he : a.directory.entitlements.get? id = some e) : a.isDirty c = .ok e.dirty := by
  unfold isDirty
  rw [hrole, if_pos (by rfl)]
  show (a.directory.entitlement id).map _ = _
  rw [Directory.entitlement_eq_ok.2 he]
  rfl

/-- A certificate that is neither revoked nor flagged is valid until it is due. -/
theorem standing_of_lasting (hrevoked : a.isRevoked c = false)
    (hlasting : c.serial.isExpired (t.addDays (renewalDays a.config c.role.kind)) = false)
    (hdirty : a.isDirty c = .ok false) : a.standing c t = .ok .valid := by
  unfold standing
  rw [hrevoked, hlasting, hdirty]
  rfl

/-- A certificate does not show what the records say if they have changed since it was issued. -/
theorem not_showsRecords_of_models_ne {start : Authority} (hstart : start.Consistent)
    (h : issue (.entitlement id) now start = (.ok fresh, b))
    (hcurrent : a.current? (.entitlement id) = some fresh)
    (hne : a.models id ≠ start.models id) : ¬ ShowsRecords a id := by
  obtain ⟨-, body, hbody, hshown⟩ := issued_entitlement hstart h
  rintro ⟨c, body', hc, hbody', hshown'⟩
  obtain rfl : fresh = c := Option.some.inj (hcurrent.symm.trans hc)
  obtain rfl : body = body' := Option.some.inj (hbody.symm.trans hbody')
  exact hne (hshown'.trans hshown.symm)

/-- The serial of a certificate expires when its plan says that it ends. -/
theorem expiration_of_issue (h : issue (.entitlement id) now a = (.ok fresh, b)) :
    ∃ p, entitlementPlan a.config a.directory id now = .ok p ∧
      fresh.serial.expiration = p.validity.notAfter := by
  obtain ⟨p, a₁, hplan, hsign⟩ := Request.bind_eq_ok.1 h
  obtain ⟨key, keys, rfl, -⟩ := sign_eq_ok hsign
  exact ⟨p, (plan_eq_ok hplan).2 rfl, rfl⟩

/-- What is issued takes its place with the next serial, and that of the one before is revoked. -/
theorem serials_superseded (h : issue role now a = (.ok fresh, b)) :
    (b.superseded fresh).serials = ledgerAfter a fresh := by
  have hcurrent : b.current? fresh.role = a.current? fresh.role := by
    rw [current?, issue_certificates h, current?]
  have hserials := (issuedFrom_of_issue h).2
  unfold superseded ledgerAfter
  dsimp only
  rw [hcurrent]
  cases a.current? fresh.role with
  | none => exact hserials
  | some previous => exact congrArg (SerialLedger.markRevoked previous.serial.id) hserials

/-- **What becomes of each serial** when a certificate is issued. -/
theorem get?_ledgerAfter (ha : a.Consistent) (hfresh : IssuedFrom a fresh) (n : Nat) :
    (ledgerAfter a fresh).get? n =
      if n = fresh.serial.id then some fresh.serial
      else if (a.current? fresh.role).map (·.serial.id) = some n then
        (a.serials.get? n).map fun s => { s with revoked := true }
      else a.serials.get? n := by
  have hid : fresh.serial.id = a.serials.nextId := by rw [hfresh.serial]
  have hentered : (a.serials.allocate fresh.serial.expiration).2.get? n =
      if n = fresh.serial.id then some fresh.serial else a.serials.get? n := by
    rw [SerialLedger.get?_allocate, ← hid]
    refine if_congr Iff.rfl ?_ rfl
    rw [hfresh.serial]
    rfl
  unfold ledgerAfter
  cases hprevious : a.current? fresh.role with
  | none => exact hentered
  | some previous =>
    dsimp only
    -- the one that it replaces was entered before, so it has another serial
    obtain ⟨s, hs⟩ := ha.serials _ _ previous hprevious
    have hne : previous.serial.id ≠ fresh.serial.id := hid ▸ SerialLedger.get?_ne_nextId hs
    rw [SerialLedger.get?_markRevoked, hentered]
    by_cases hn : n = fresh.serial.id
    · rw [if_pos hn, if_neg (hn ▸ hne), if_pos hn]
    · rw [if_neg hn, if_neg hn]
      simp only [Option.map_some, Option.some.injEq]

/-- A certificate that takes its place is not revoked by that. -/
theorem isRevoked_superseded (ha : a.Consistent) (h : issue role now a = (.ok fresh, b)) :
    (b.superseded fresh).isRevoked fresh = false := by
  obtain ⟨hfresh, -⟩ := issuedFrom_of_issue h
  unfold isRevoked
  rw [serials_superseded h, get?_ledgerAfter ha hfresh, if_pos rfl, hfresh.serial]
  rfl

/-- **What was issued last is valid until it is due**, whatever the records have become, unless its
entitlement is flagged. -/
theorem standing_of_issue {e : Entitlement} (ha : a.Consistent)
    (h : issue (.entitlement id) now a = (.ok fresh, b)) (he : d.entitlements.get? id = some e)
    (hdirty : e.dirty = false)
    (hlasting : fresh.serial.isExpired (t.addDays (renewalDays a.config .entitlement)) = false) :
    standing { b.superseded fresh with directory := d } fresh t = .ok .valid := by
  have hrole := (issued_entitlement ha h).1
  refine standing_of_lasting (isRevoked_superseded ha h) ?_ ?_
  · show fresh.serial.isExpired (t.addDays (renewalDays b.config fresh.role.kind)) = false
    rw [hrole, (issue_fixed h).1]
    exact hlasting
  · rw [← hdirty]
    exact isDirty_entitlement hrole he

/-! ### Generating -/

/-- The ways in which a request for a certificate can end that is not for content access. -/
inductive GenerateResult (role : Role) (now : Instant) (a : Authority) :
    Outcome (Option IssuedCertificate) × Authority → Prop
  | kept (c : IssuedCertificate) (h : a.reusable role now = .ok (some c)) :
      GenerateResult role now a (.ok (some c), a)
  /-- The certificate has no standing, since its entitlement is gone. -/
  | gone (e : Fault) (h : a.reusable role now = .error e) : GenerateResult role now a (.error e, a)
  | failed (e : Fault) (b : Authority) (hissue : issue role now a = (.error e, b)) :
      GenerateResult role now a (.error e, b)
  | issued (fresh : IssuedCertificate) (b : Authority) (hnone : a.reusable role now = .ok none)
      (hissue : issue role now a = (.ok fresh, b)) :
      GenerateResult role now a (.ok (some fresh), b.superseded fresh)

/-- What is issued if no certificate can be reused takes its place. -/
theorem generate_of_issue (ha : a.Consistent) (hkind : role.kind ≠ .contentAccess)
    (hkept : a.reusable role now = .ok none) (hissue : issue role now a = (.ok fresh, b)) :
    generate role now a = (.ok (some fresh), b.superseded fresh) := by
  unfold generate
  rw [if_neg hkind, Request.bind_ok (by rw [Request.read_apply, hkept])]
  dsimp only
  rw [Request.bind_ok hissue, Request.map_ok some (supersede_after_issue ha hissue)]

/-- A certificate that can be reused is handed out, and nothing changes. -/
theorem generate_of_reusable (hkind : role.kind ≠ .contentAccess)
    (hkept : a.reusable role now = .ok (some c)) : generate role now a = (.ok (some c), a) := by
  unfold generate
  rw [if_neg hkind, Request.bind_ok (by rw [Request.read_apply, hkept])]
  rfl

theorem generate_of_valid (hkind : role.kind ≠ .contentAccess) (hc : a.current? role = some c)
    (hvalid : a.standing c now = .ok .valid) : generate role now a = (.ok (some c), a) := by
  refine generate_of_reusable hkind ?_
  unfold reusable
  rw [hc]
  show (a.standing c now).map _ = _
  rw [hvalid]
  rfl

theorem generate_result (ha : a.Consistent) (hkind : role.kind ≠ .contentAccess) (now : Instant) :
    GenerateResult role now a (generate role now a) := by
  cases hkept : a.reusable role now with
  | error e =>
    unfold generate
    rw [if_neg hkind, Request.bind_error (by rw [Request.read_apply, hkept])]
    exact .gone e hkept
  | ok kept =>
    cases kept with
    | some c =>
      rw [generate_of_reusable hkind hkept]
      exact .kept c hkept
    | none =>
      rcases hissue : issue role now a with ⟨o, b⟩
      cases o with
      | error e =>
        unfold generate
        rw [if_neg hkind, Request.bind_ok (by rw [Request.read_apply, hkept])]
        dsimp only
        rw [Request.bind_error hissue]
        exact .failed e b hissue
      | ok fresh =>
        rw [generate_of_issue ha hkind hkept hissue]
        exact .issued fresh b hkept hissue

theorem generate_entitlement_result (ha : a.Consistent) (id : String) (now : Instant) :
    GenerateResult (.entitlement id) now a (generate (.entitlement id) now a) :=
  generate_result ha (kind_entitlement_ne id) now

/-- The first certificate of an entitlement is issued if that is possible. -/
theorem generate_of_issuable (ha : a.Consistent) (hnone : a.current? (.entitlement id) = none)
    (hissuable : IsIssuable a.config a.directory id now) :
    ∃ fresh b, issue (.entitlement id) now a = (.ok fresh, b) ∧
      generate (.entitlement id) now a = (.ok (some fresh), b.superseded fresh) := by
  obtain ⟨fresh, b, hissue⟩ := exists_issue hissuable
  refine ⟨fresh, b, hissue, generate_of_issue ha (kind_entitlement_ne id) ?_ hissue⟩
  unfold reusable
  rw [hnone]

/-- A certificate that is reused is not flagged. -/
theorem not_isFlagged_of_reusable {c : IssuedCertificate} (ha : a.Consistent)
    (h : a.reusable (.entitlement id) now = .ok (some c)) : ¬ IsFlagged a id := by
  obtain ⟨hcurrent, hstanding⟩ := reusable_eq_some h
  have hrole : c.role = .entitlement id := ha.roles _ _ c hcurrent
  rintro ⟨e, he, hdirty⟩
  have hisDirty : a.isDirty c = .ok true := by
    rw [isDirty_entitlement hrole he, hdirty]
  unfold standing at hstanding
  rw [hisDirty] at hstanding
  split at hstanding
  · cases hstanding
  · split at hstanding
    · cases hstanding
    · cases hstanding

theorem Reachable.of_generate {o : Outcome (Option IssuedCertificate)} (ha : Reachable a)
    (h : generate role now a = (o, b)) : Reachable b := by
  have hstep : Step a b := ⟨.generate role, now, (congrArg Prod.snd h).symm⟩
  exact ha.trans (Relation.ReflTransGen.single hstep)

/-- The first certificate of an entitlement is issued from some records. -/
theorem exists_first_issued {cs : List DirectoryChange}
    (hd : cs.foldl (fun d c => c.apply d) Directory.empty = d)
    (hissuable : IsIssuable {} d id ⟨0, 0⟩) (hclean : (Directory.setDirty id false d).2 = d) :
    ∃ start fresh b, Reachable start ∧ start.config = {} ∧ start.directory = d ∧
      (∀ role, start.current? role = none) ∧
      issue (.entitlement id) ⟨0, 0⟩ start = (.ok fresh, b) ∧
      generate (.entitlement id) ⟨0, 0⟩ start = (.ok (some fresh), b.superseded fresh) ∧
      (b.superseded fresh).config = {} ∧ (b.superseded fresh).directory = d := by
  obtain ⟨start, hstart, hconfig, hdirectory, hnone⟩ := exists_stocked hd
  rw [← hconfig, ← hdirectory] at hissuable
  obtain ⟨fresh, b, hissue, hgenerate⟩ :=
    generate_of_issuable hstart.consistent (hnone _) hissuable
  obtain ⟨hrole, -⟩ := issued_entitlement hstart.consistent hissue
  obtain ⟨hconfig', hdirectory'⟩ := issue_fixed hissue
  refine ⟨start, fresh, b, hstart, hconfig, hdirectory, hnone, hissue, hgenerate,
    hconfig'.trans hconfig, ?_⟩
  rw [superseded_directory hrole, hdirectory', hdirectory, hclean]

/-! ### Renewing -/

/-- The ways in which the renewal of a certificate can end. -/
inductive RenewResult (role : Role) (now : Instant) (a : Authority) :
    Outcome (Option IssuedCertificate) × Authority → Prop
  | issued (fresh : IssuedCertificate) (b : Authority)
      (hissue : issue role now a = (.ok fresh, b)) :
      RenewResult role now a (.ok (some fresh), b.superseded fresh)
  /-- The certificate would be too large, and there is one already. -/
  | kept (e : Fault) (b : Authority) (c : IssuedCertificate)
      (hissue : issue role now a = (.error e, b)) (hlarge : e.isTooLarge = true)
      (hcurrent : a.current? role = some c) : RenewResult role now a (.ok (some c), b)
  | failed (e : Fault) (b : Authority) (hissue : issue role now a = (.error e, b))
      (hfault : e.isTooLarge = true → a.current? role = none) :
      RenewResult role now a (.error e, b)

theorem renew_result (ha : a.Consistent) (role : Role) (now : Instant) :
    RenewResult role now a (renew role now a) := by
  unfold renew
  rw [Request.bind_ok (Request.get_apply _ a), Request.bind_ok (Request.attempt_apply _ a)]
  rcases hissue : issue role now a with ⟨o, b⟩
  cases o with
  | ok fresh =>
    dsimp only
    rw [Request.map_ok some (supersede_after_issue ha hissue)]
    exact .issued fresh b hissue
  | error e =>
    cases hcurrent : a.current? role with
    | none =>
      have hfailed := RenewResult.failed e b hissue fun _ => hcurrent
      cases e <;> exact hfailed
    | some c =>
      cases e with
      | tooManyContentSets product count limit => exact .kept _ b c hissue rfl hcurrent
      | _ => exact .failed _ b hissue fun h => nomatch h

/-- An attempt that fails for any reason but the size of the certificate fails the renewal. -/
theorem renew_of_issue_failed {role : Role} (ha : a.Consistent)
    (h : issue role now a = (.error e, b)) (hsmall : e.isTooLarge = false) :
    renew role now a = (.error e, b) := by
  have hresult := renew_result ha role now
  generalize renew role now a = answer at hresult
  cases hresult with
  | issued fresh b' hissue =>
    rw [h] at hissue
    cases hissue
  | kept e' b' c hissue hlarge =>
    rw [h] at hissue
    cases hissue
    rw [hsmall] at hlarge
    cases hlarge
  | failed e' b' hissue =>
    rw [h] at hissue
    cases hissue
    rfl

/-- The renewal of the certificate of an entitlement fails. -/
def Fails (a : Authority) (id : String) (now : Instant) : Prop :=
  ∃ e, (regenerate (.entitlement id) false now a).1 = .error e

theorem regenerate_entitlement (id : String) (now : Instant) :
    regenerate (.entitlement id) false now = renew (.entitlement id) now := rfl

theorem regenerateOne_eq (id : String) (now : Instant) (a : Authority) :
    regenerateOne false now id a =
      ((renew (.entitlement id) now a).1.map fun _ => (), (renew (.entitlement id) now a).2) := by
  unfold regenerateOne
  rw [regenerate_entitlement, Request.bind_apply]
  rcases renew (.entitlement id) now a with ⟨o, b⟩
  cases o <;> rfl

/-- Whether the renewal fails is decided by the records and by whether there is a certificate. -/
theorem fails_iff (ha : a.Consistent) : Fails a id now ↔
    ∃ e, issueFault? a.config a.directory id now = some e ∧
      (e.isTooLarge = true → a.current? (.entitlement id) = none) := by
  have hresult := renew_result ha (.entitlement id) now
  unfold Fails
  rw [regenerate_entitlement]
  simp only [← issue_eq_error_iff]
  generalize renew (.entitlement id) now a = answer at hresult
  cases hresult with
  | issued fresh b hissue => simp [hissue]
  | kept e b c hissue hlarge hcurrent => simp [hissue, hlarge, hcurrent]
  | failed e b hissue hfault => simpa [hissue] using hfault

/-- What can be issued can be issued anew. -/
theorem not_fails_of_isIssuable (ha : a.Consistent)
    (h : IsIssuable a.config a.directory id now) : ¬ Fails a id now := by
  obtain ⟨p, hplan, hsubject, hkey, hrange⟩ := h
  have hnone : issueFault? a.config a.directory id now = none := by
    unfold issueFault? Plan.fault?
    simp [hplan, hsubject, hkey, hrange]
  rw [fails_iff ha, hnone]
  rintro ⟨e, he, -⟩
  cases he

end Authority

end EntitlementAuthority
