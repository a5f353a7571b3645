import EntitlementAuthority.Issuance.Issuer
import EntitlementAuthority.Proofs.Issuance.Turn

/-!
# All steps of a request in a row

* `Issuer.Alone`, `Issuer.alone_request` — without others around, the steps come to what the whole
  request does.
-/

namespace EntitlementAuthority

/-- It does not matter how requests are grouped. -/
theorem Request.bind_assoc {σ α β γ : Type} (r : Request σ α) (f : α → Request σ β)
    (g : β → Request σ γ) : (r >>= f) >>= g = r >>= fun x => f x >>= g := by
  funext s
  rcases hr : r s with ⟨o, t⟩
  cases o with
  | error e => rw [Request.bind_error hr, Request.bind_error (Request.bind_error hr)]
  | ok x => rw [Request.bind_ok hr, Request.bind_apply, Request.bind_ok hr, ← Request.bind_apply]

/-- What is made of something that is read can be made of it later. -/
theorem Request.bind_read_map {σ α β γ : Type} {f : σ → Outcome α} {g : σ → Outcome β} (m : α → β)
    {s : σ} (h : g s = (f s).map m) (k : β → Request σ γ) :
    (Request.read g >>= k) s = (Request.read f >>= fun x => k (m x)) s := by
  cases hf : f s with
  | error e =>
    rw [hf] at h
    rw [Request.bind_error (by rw [Request.read_apply, h]; rfl),
      Request.bind_error (by rw [Request.read_apply, hf])]
  | ok x =>
    rw [hf] at h
    rw [Request.bind_ok (by rw [Request.read_apply, h]; rfl),
      Request.bind_ok (by rw [Request.read_apply, hf])]

namespace Issuer

open Authority

/-! ### Without others around -/

/-- Any number of steps of one request, all at one instant. -/
abbrev Alone (now : Instant) : Issuer × Authority → Issuer × Authority → Prop :=
  Relation.ReflTransGen fun x y => y = x.1.advance now x.2

variable {t : Issuer} {now : Instant} {a b : Authority} {α β : Type} {r : Request Authority α}
  {k : α → Request Authority β} {fails : Fault → Issuer} {next : α → Issuer} {done : β → Issuer}
  {role : Role}

/-- The first of several steps. -/
theorem alone_bind (hstage : t.advance now = after r fails next)
    (hnext : ∀ x b, Alone now (next x, b) (after (k x) fails done b)) (a : Authority) :
    Alone now (t, a) (after (r >>= k) fails done a) := by
  have hstep : Alone now (t, a) (after r fails next a) := .single (by rw [hstage])
  rcases hr : r a with ⟨o, b⟩
  cases o with
  | error e =>
    rw [after_error hr] at hstep
    rwa [after_error (Request.bind_error hr)]
  | ok x =>
    rw [after_ok hr] at hstep
    have hbind : (r >>= k) a = k x b := Request.bind_ok hr
    rw [after, hbind, ← after]
    exact hstep.trans (hnext x b)

theorem sign_eq (plan : Plan) (now : Instant) :
    sign plan now = (prepare plan >>= fun prepared => allocate plan >>= fun serial =>
      certifyPlan plan prepared.2 serial >>= fun certificate =>
        pure (plan.certified prepared.1 prepared.2 serial now certificate)) := by
  unfold prepare
  rw [Request.bind_assoc]
  refine congrArg _ (funext fun _ => ?_)
  rw [Request.bind_assoc]
  refine congrArg _ (funext fun payload => ?_)
  rw [Request.bind_assoc]
  rfl

section Stages

variable (t : Issuer) (now : Instant)

theorem advance_flagged :
    (t.atStage .flagged).advance now = after (Request.get fun a => a.current? t.call.role) t.fails
      fun c => t.atStage (.answered (.ok c)) := rfl

theorem advance_looking (x : ContentAccess) :
    (t.atStage (.looking x)).advance now =
      after (Request.get fun a => a.current? (.contentAccess x.consumer.id)) t.fails
        fun
          | none => t.atStage .planning
          | some c =>
            if c.environmentIds ≠ x.consumer.environmentIds ∨ t.call.isForced then
              t.atStage .planning
            else t.atStage (.judging c) := rfl

theorem advance_judging (c : IssuedCertificate) :
    (t.atStage (.judging c)).advance now = after (Request.read fun a => a.standing c now) t.fails
      fun s => if s = .valid then t.finishes c else t.atStage .planning := rfl

theorem advance_planning :
    (t.atStage .planning).advance now = after (t.plan now) t.issueFails fun plan =>
      t.atStage (.preparing plan) := rfl

theorem advance_preparing (plan : Plan) :
    (t.atStage (.preparing plan)).advance now = after (prepare plan) t.issueFails fun prepared =>
      t.atStage (.allocating plan prepared.1 prepared.2) := rfl

theorem advance_allocating (plan : Plan) (payload : Option String) (key : KeyPair) :
    (t.atStage (.allocating plan payload key)).advance now =
      after (allocate plan) t.issueFails fun serial =>
        t.atStage (.certifying plan payload key serial) := rfl

theorem advance_certifying (plan : Plan) (payload : Option String) (key : KeyPair)
    (serial : Serial) :
    (t.atStage (.certifying plan payload key serial)).advance now =
      after (certifyPlan plan key serial) t.issueFails fun certificate =>
        t.atStage (.storing (plan.certified payload key serial now certificate)) := rfl

theorem advance_storing (fresh : IssuedCertificate) :
    (t.atStage (.storing fresh)).advance now =
      after (store fresh) t.fails fun previous => t.atStage (.retiring fresh previous) := rfl

theorem advance_retiring (fresh : IssuedCertificate) (previous : Option IssuedCertificate) :
    (t.atStage (.retiring fresh previous)).advance now =
      after (retire previous) t.fails fun _ => t.atStage (.clearing fresh) := rfl

theorem advance_clearing (fresh : IssuedCertificate) :
    (t.atStage (.clearing fresh)).advance now =
      after (markClean fresh) t.fails fun _ => t.finishes fresh := rfl

theorem advance_attaching (x : ContentAccess) (c : IssuedCertificate) :
    (t.atStage (.attaching x c)).advance now = after (contentPayload x now) t.fails fun row =>
      t.atStage (.answered (.ok (some { c with payload := some row.payload }))) := rfl

/-- The steps of signing. -/
theorem alone_sign (plan : Plan) (a : Authority) :
    Alone now (t.atStage (.preparing plan), a)
      (after (sign plan now) t.issueFails (fun fresh => t.atStage (.storing fresh)) a) := by
  rw [sign_eq]
  refine alone_bind (advance_preparing t now plan) (fun prepared b => ?_) a
  refine alone_bind (advance_allocating t now plan _ _) (fun serial b => ?_) b
  exact alone_bind (advance_certifying t now plan _ _ _) (fun certificate b => .refl) b

/-- The steps of issuing. -/
theorem alone_issue (a : Authority) :
    Alone now (t.atStage .planning, a)
      (after (t.plan now >>= fun plan => sign plan now) t.issueFails
        (fun fresh => t.atStage (.storing fresh)) a) :=
  alone_bind (advance_planning t now) (fun plan b => alone_sign t now plan b) a

/-- The steps in which a certificate takes its place. -/
theorem alone_supersede (fresh : IssuedCertificate) (a : Authority) :
    Alone now (t.atStage (.storing fresh), a) (after (supersede fresh) t.fails t.finishes a) := by
  unfold supersede
  refine alone_bind (advance_storing t now fresh) (fun previous b => ?_) a
  refine alone_bind (advance_retiring t now fresh previous) (fun _ b => ?_) b
  exact alone_bind (advance_clearing t now fresh) (fun _ b => .refl) b

end Stages

/-- A request alone ends with what another one answers and leaves behind. -/
def Completes (now : Instant) (t : Issuer) (a : Authority)
    (r : Request Authority (Option IssuedCertificate)) : Prop :=
  ∃ t', t'.stage = .answered (r a).1 ∧ Alone now (t, a) (t', (r a).2)

theorem Completes.of_after {k : α → Request Authority (Option IssuedCertificate)}
    (h : Alone now (t, a) (after r fails next a))
    (hfails : ∀ e, (fails e).stage = .answered (.error e))
    (hnext : ∀ x b, r a = (.ok x, b) → Completes now (next x) b (k x)) :
    Completes now t a (r >>= k) := by
  rcases hr : r a with ⟨o, b⟩
  cases o with
  | error e =>
    rw [after_error hr] at h
    refine ⟨fails e, ?_, ?_⟩
    · rw [Request.bind_error hr, hfails]
    · rwa [Request.bind_error hr]
  | ok x =>
    rw [after_ok hr] at h
    obtain ⟨t', hstage, halone⟩ := hnext x b hr
    refine ⟨t', ?_, ?_⟩
    · rw [Request.bind_ok hr, hstage]
    · rw [Request.bind_ok hr]
      exact h.trans halone

theorem Completes.of_alone {t' : Issuer} {r r' : Request Authority (Option IssuedCertificate)}
    (halone : Alone now (t, a) (t', b)) (h : Completes now t' b r') (hr : r a = r' b) :
    Completes now t a r := by
  obtain ⟨t'', hstage, hrest⟩ := h
  refine ⟨t'', ?_, ?_⟩
  · rw [hr, hstage]
  · rw [hr]
    exact halone.trans hrest

/-- The first step of several. -/
theorem Completes.of_advance {k : α → Request Authority (Option IssuedCertificate)}
    (h : t.advance now = after r fails next)
    (hfails : ∀ e, (fails e).stage = .answered (.error e))
    (hnext : ∀ x b, r a = (.ok x, b) → Completes now (next x) b (k x)) :
    Completes now t a (r >>= k) :=
  .of_after (.single (by rw [h])) hfails hnext

theorem Completes.answered (t : Issuer) (answer : Option IssuedCertificate) (a : Authority) :
    Completes now (t.atStage (.answered (.ok answer))) a (pure answer) :=
  ⟨_, rfl, .refl⟩

/-- What is left to do with a certificate. -/
def finishing (t : Issuer) (now : Instant) (c : IssuedCertificate) :
    Request Authority (Option IssuedCertificate) :=
  match t.access with
  | none => pure (some c)
  | some x => do
    let row ← contentPayload x now
    pure (some { c with payload := some row.payload })

theorem completes_finishes (t : Issuer) (c : IssuedCertificate) (a : Authority) :
    Completes now (t.finishes c) a (t.finishing now c) := by
  unfold finishes finishing
  cases t.access with
  | none => exact .answered t _ a
  | some x =>
    exact .of_advance (advance_attaching t now x c) (fun _ => rfl) fun row b _ => .answered t _ b

theorem completes_storing (t : Issuer) (fresh : IssuedCertificate) (a : Authority) :
    Completes now (t.atStage (.storing fresh)) a (supersede fresh >>= t.finishing now) :=
  .of_after (alone_supersede t now fresh a) (fun _ => rfl) fun c b _ => completes_finishes t c b

/-- Without a certificate to fall back on, every fault is the answer. -/
theorem issueFails_stage (h : t.fallback = none) (e : Fault) :
    (t.issueFails e).stage = .answered (.error e) := by
  unfold issueFails
  rw [h]
  cases e <;> rfl

theorem completes_planning (hfallback : t.fallback = none) (a : Authority) :
    Completes now (t.atStage .planning) a
      ((t.plan now >>= fun plan => sign plan now) >>= fun fresh =>
        supersede fresh >>= t.finishing now) :=
  .of_after (alone_issue t now a) (issueFails_stage hfallback)
    fun fresh b _ => completes_storing t fresh b

/-! ### Whole requests -/

theorem begins_contentAccess {call : IssueCall} (hkind : call.role.kind = .contentAccess) :
    (ofCall call).begins =
      after (Request.read fun a => ContentAccess.find a.directory call.role.subject)
        (ofCall call).fails
        fun
          | none => (ofCall call).atStage (.answered (.ok none))
          | some x => { ofCall call with access := some x, stage := .looking x } :=
  if_pos hkind

theorem begins_generate (hkind : role.kind ≠ .contentAccess) :
    (ofCall (.generate role)).begins =
      after (Request.get fun a => a.current? role) (ofCall (.generate role)).fails
        fun
          | none => (ofCall (.generate role)).atStage .planning
          | some c => (ofCall (.generate role)).atStage (.judging c) :=
  if_neg hkind

theorem begins_flag (hkind : role.kind = .entitlement) :
    (ofCall (.regenerate role true)).begins =
      after (onDirectory (Directory.setDirty role.subject true))
        (ofCall (.regenerate role true)).fails
        fun _ => (ofCall (.regenerate role true)).atStage .flagged := by
  have hother : role.kind ≠ .contentAccess := fun h => nomatch hkind.symm.trans h
  exact (if_neg hother).trans (if_pos ⟨hkind, rfl⟩)

theorem begins_renew {putOff : Bool} (hkind : role.kind ≠ .contentAccess)
    (hput : ¬ (role.kind = .entitlement ∧ putOff = true)) :
    (ofCall (.regenerate role putOff)).begins =
      after (Request.get fun a => a.current? role) (ofCall (.regenerate role putOff)).fails
        fun previous => { ofCall (.regenerate role putOff) with
          fallback := previous, stage := .planning } :=
  (if_neg hkind).trans (if_neg hput)

/-- A certificate is judged, and stays or is replaced. -/
theorem completes_judging {c : IssuedCertificate}
    {k : CertificateState → Request Authority (Option IssuedCertificate)}
    (hvalid : k .valid = t.finishing now c)
    (hother : ∀ s b, s ≠ .valid → Completes now (t.atStage .planning) b (k s)) (a : Authority) :
    Completes now (t.atStage (.judging c)) a (Request.read (fun a => a.standing c now) >>= k) := by
  refine .of_advance (advance_judging t now c) (fun _ => rfl) fun s b _ => ?_
  by_cases hs : s = .valid
  · rw [if_pos hs, hs, hvalid]
    exact completes_finishes t c b
  · rw [if_neg hs]
    exact hother s b hs

/-- Some certificate is read first. -/
theorem generate_eq (hkind : role.kind ≠ .contentAccess) (now : Instant) :
    generate role now =
      (Request.get fun a => a.current? role) >>= fun
        | none => issue role now >>= fun fresh => supersede fresh >>= fun c => pure (some c)
        | some c => Request.read (fun a => a.standing c now) >>= fun s =>
          if s = .valid then pure (some c)
          else issue role now >>= fun fresh => supersede fresh >>= fun c => pure (some c) := by
  funext a
  unfold generate
  rw [if_neg hkind, Request.bind_ok (Request.get_apply _ a)]
  cases hcurrent : a.current? role with
  | none =>
    rw [Request.bind_ok (by rw [Request.read_apply, reusable, hcurrent])]
    rfl
  | some c =>
    rw [Request.bind_read_map (f := fun a => a.standing c now)
      (fun s => if s = .valid then some c else none) (by rw [reusable, hcurrent])]
    refine congrFun (congrArg _ (funext fun s => ?_)) a
    by_cases hs : s = .valid
    · simp only [if_pos hs]
    · simp only [if_neg hs]
      rfl

theorem completes_generate (hkind : role.kind ≠ .contentAccess) (now : Instant) (a : Authority) :
    Completes now (ofCall (.generate role)) a (generate role now) := by
  rw [generate_eq hkind]
  refine .of_advance (begins_generate hkind) (fun _ => rfl) fun previous b _ => ?_
  cases previous with
  | none => exact completes_planning rfl b
  | some c =>
    refine completes_judging (if_pos rfl) (fun s b hs => ?_) b
    rw [if_neg hs]
    exact completes_planning rfl b

theorem completes_renew {putOff : Bool} (hkind : role.kind ≠ .contentAccess)
    (hput : ¬ (role.kind = .entitlement ∧ putOff = true)) (now : Instant) (a : Authority) :
    Completes now (ofCall (.regenerate role putOff)) a (renew role now) := by
  unfold renew
  refine .of_advance (begins_renew hkind hput) (fun _ => rfl) fun previous b _ => ?_
  let t : Issuer := { ofCall (.regenerate role putOff) with fallback := previous }
  have halone := alone_issue t now b
  have hplan : (t.plan now >>= fun plan => sign plan now) = issue role now := rfl
  rw [hplan] at halone
  rcases hissue : issue role now b with ⟨o, b'⟩
  cases o with
  | ok fresh =>
    rw [after_ok hissue] at halone
    refine .of_alone halone (completes_storing t fresh b') ?_
    rw [Request.bind_ok (by rw [Request.attempt_apply, hissue])]
    rfl
  | error e =>
    rw [after_error hissue] at halone
    refine ⟨t.issueFails e, ?_, ?_⟩
    · rw [Request.bind_ok (by rw [Request.attempt_apply, hissue])]
      cases previous <;> cases e <;> rfl
    · rw [Request.bind_ok (by rw [Request.attempt_apply, hissue])]
      cases previous <;> cases e <;> exact halone

/-- The stored certificate is read first. -/
theorem contentAccessCertificate_eq (x : ContentAccess) (forced : Bool) (now : Instant) :
    contentAccessCertificate x forced now =
      (Request.get fun a => a.current? (.contentAccess x.consumer.id)) >>= fun
        | none => issueContentAccess x now >>= supersede
        | some c =>
          if c.environmentIds ≠ x.consumer.environmentIds ∨ forced then
            issueContentAccess x now >>= supersede
          else Request.read (fun a => a.standing c now) >>= fun s =>
            if s = .valid then pure c else issueContentAccess x now >>= supersede := by
  funext a
  unfold contentAccessCertificate
  rw [Request.bind_ok (Request.get_apply _ a)]
  cases hcurrent : a.current? (.contentAccess x.consumer.id) with
  | none =>
    rw [Request.bind_ok (by rw [Request.read_apply, keptContentAccess, hcurrent])]
    rfl
  | some c =>
    by_cases hother : c.environmentIds ≠ x.consumer.environmentIds ∨ forced
    · rw [Request.bind_ok (a := none) (by
        rw [Request.read_apply, keptContentAccess, hcurrent]
        exact congrArg (·, a) (if_pos hother))]
      dsimp only
      rw [if_pos hother]
      rfl
    · rw [Request.bind_read_map (f := fun a => a.standing c now)
        (fun s => if s = .valid then some c else none) (by
          rw [keptContentAccess, hcurrent]
          exact if_neg hother)]
      dsimp only
      rw [if_neg hother]
      refine congrFun (congrArg _ (funext fun s => ?_)) a
      by_cases hs : s = .valid
      · simp only [if_pos hs]
      · simp only [if_neg hs]
        rfl

theorem completes_contentAccess {call : IssueCall} (hkind : call.role.kind = .contentAccess)
    (now : Instant) (a : Authority) :
    Completes now (ofCall call) a (contentAccess call.role.subject call.isForced now) := by
  unfold contentAccess
  refine .of_advance (begins_contentAccess hkind) (fun _ => rfl) fun found b _ => ?_
  cases found with
  | none => exact .answered _ none b
  | some x =>
    let t : Issuer := { ofCall call with access := some x }
    show Completes now (t.atStage (.looking x)) b
      (contentAccessCertificate x t.call.isForced now >>= t.finishing now)
    have hplanning : ∀ b, Completes now (t.atStage .planning) b
        ((issueContentAccess x now >>= supersede) >>= t.finishing now) := by
      intro b
      rw [Request.bind_assoc]
      exact completes_planning rfl b
    rw [contentAccessCertificate_eq, Request.bind_assoc]
    refine .of_advance (advance_looking t now x) (fun _ => rfl) fun previous b _ => ?_
    cases previous with
    | none => exact hplanning b
    | some c =>
      dsimp only
      by_cases hother : c.environmentIds ≠ x.consumer.environmentIds ∨ t.call.isForced
      · rw [if_pos hother, if_pos hother]
        exact hplanning b
      · rw [if_neg hother, if_neg hother, Request.bind_assoc]
        refine completes_judging (congrArg (· >>= t.finishing now) (if_pos rfl))
          (fun s b hs => ?_) b
        rw [if_neg hs]
        exact hplanning b

theorem completes_flag (hkind : role.kind = .entitlement) (now : Instant) (a : Authority) :
    Completes now (ofCall (.regenerate role true)) a (regenerate role true now) := by
  unfold regenerate
  rw [hkind]
  refine .of_advance (begins_flag hkind) (fun _ => rfl) fun _ b _ => ?_
  exact .of_advance (advance_flagged _ now) (fun _ => rfl) fun c b _ => .answered _ c b

/-- **Nobody else around.** A request that takes all its steps in a row does what the whole
request does. -/
theorem alone_request (call : IssueCall) (now : Instant) (a : Authority) :
    Completes now (ofCall call) a (call.request now) := by
  by_cases hkind : call.role.kind = .contentAccess
  · have hrequest : call.request now = contentAccess call.role.subject call.isForced now := by
      cases call with
      | generate role => exact if_pos hkind
      | regenerate role putOff =>
        have hkind : role.kind = .contentAccess := hkind
        show regenerate role putOff now = _
        unfold regenerate
        rw [hkind]
        rfl
    rw [hrequest]
    exact completes_contentAccess hkind now a
  · cases call with
    | generate role => exact completes_generate hkind now a
    | regenerate role putOff =>
      have hkind : role.kind ≠ .contentAccess := hkind
      by_cases hput : role.kind = .entitlement ∧ putOff = true
      · obtain ⟨hentitlement, rfl⟩ := hput
        exact completes_flag hentitlement now a
      · have hrenew : regenerate role putOff now = renew role now := by
          unfold regenerate
          cases hrole : role.kind <;> cases putOff <;> simp_all
        show Completes now _ a (regenerate role putOff now)
        rw [hrenew]
        exact completes_renew hkind hput now a

end Issuer

end EntitlementAuthority
