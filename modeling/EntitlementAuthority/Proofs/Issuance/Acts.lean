import EntitlementAuthority.Proofs.Issuance.OneCertificate
import EntitlementAuthority.Proofs.Issuance.Succession
import EntitlementAuthority.Proofs.Payload.Snapshot

/-!
# Requests as sequences of acts

Every request is a sequence of a few acts. What each act preserves, every run preserves. The changes
of the records that a run may make are a parameter.

* `Authority.Act` — a change of the records, or one thing that requests do.
* `Authority.Act.directory`, `Authority.Act.current?` — what an act does to the records and to the
  stored certificates.
* `Authority.AccessResult`, `Authority.contentAccessCertificate_result` — a certificate for content
  access is kept or issued, or the request fails.
* `Authority.generate_acts`, `Authority.regenerate_acts`, … — one lemma for each request.
* `Authority.ReachableBy` — the states that are reached with some changes of the records.
* `Authority.ArisesBy` — these and the states in the middle of their operations.
* `Authority.ArisesBy.invariant` — what every act preserves holds in all of them.
* `Authority.ArisesBy.exists_issued` — every stored certificate was issued in one of them.
-/

namespace EntitlementAuthority

namespace Authority

variable {P : DirectoryChange → Prop} {a b c : Authority} {α β : Type} {role : Role} {id : String}
  {x : ContentAccess} {forced : Bool} {now : Instant}

/-! ### Acts -/

/-- A change of the records that is allowed, or one thing that requests do. -/
inductive Act (P : DirectoryChange → Prop) (a : Authority) : Authority → Prop
  | changed (c : DirectoryChange) (hc : P c) : Act P a { a with directory := c.apply a.directory }
  | flagged (id : String) (dirty : Bool) :
      Act P a { a with directory := (Directory.setDirty id dirty a.directory).2 }
  /-- A certificate is issued and takes its place. -/
  | issued (role : Role) (now : Instant) (fresh : IssuedCertificate) (b : Authority)
      (h : issue role now a = (.ok fresh, b)) : Act P a (b.superseded fresh)
  | refused (role : Role) (now : Instant) (e : Fault) (b : Authority)
      (h : issue role now a = (.error e, b)) : Act P a b
  /-- A content payload is looked for. -/
  | paid (signatures : Nat) (payloads : PayloadCache PayloadRows) :
      Act P a { a with signatures, payloads }
  | revoked (id : Nat) : Act P a { a with serials := a.serials.markRevoked id }
  | cleared : Act P a { a with anonymousContent := a.anonymousContent.clear }

/-- An act is a sequence of effects. -/
theorem Act.leads (h : Act P a b) : Leads a b := by
  cases h with
  | changed c hc => exact .of_effect (.changed c)
  | flagged id dirty => exact .of_effect (.changed (.setDirty id dirty))
  | issued role now fresh b h =>
    intro ha
    exact (leads_of_issue h ha).tail (.superseded fresh (supersedable_of_issue ha h))
  | refused role now e b h => exact leads_of_issue h
  | paid signatures payloads =>
    exact .of_effect (.quiet signatures payloads a.anonymousContent a.keys)
  | revoked id => exact .of_effect (.revoked id)
  | cleared => exact .of_effect (.quiet a.signatures a.payloads a.anonymousContent.clear a.keys)

/-- A certificate that takes its place changes no record but a flag. -/
theorem superseded_records (fresh : IssuedCertificate) (a : Authority) :
    (a.superseded fresh).directory = a.directory ∨
      (a.superseded fresh).directory =
        (Directory.setDirty fresh.role.subject false a.directory).2 := by
  unfold superseded
  dsimp only
  split
  · exact .inr rfl
  · exact .inl rfl

/-- What an act does to the records: nothing, a change that is allowed, or it sets a flag. -/
theorem Act.directory (ha : a.Consistent) (h : Act P a b) : b.directory = a.directory ∨
    (∃ c, P c ∧ b.directory = c.apply a.directory) ∨
    ∃ id dirty, b.directory = (Directory.setDirty id dirty a.directory).2 := by
  cases h with
  | changed c hc => exact .inr (.inl ⟨c, hc, rfl⟩)
  | flagged id dirty => exact .inr (.inr ⟨id, dirty, rfl⟩)
  | issued role now fresh b h =>
    rw [← (issue_fixed h).2]
    obtain hsame | hunflagged := superseded_records fresh b
    · exact .inl hsame
    · exact .inr (.inr ⟨_, _, hunflagged⟩)
  | refused role now e b h => exact .inl (issue_failed_same ha h).2.1
  | paid signatures payloads => exact .inl rfl
  | revoked id => exact .inl rfl
  | cleared => exact .inl rfl

/-- A certificate that is stored after an act was stored before, or the act has issued it. -/
theorem Act.current? {cert : IssuedCertificate} (ha : a.Consistent) (h : Act P a b)
    (hc : b.current? role = some cert) : a.current? role = some cert ∨
      ∃ asked now b', issue asked now a = (.ok cert, b') := by
  cases h with
  | issued asked now fresh b' h =>
    rw [current?_of_put rfl] at hc
    split at hc
    · obtain rfl := Option.some.inj hc
      exact .inr ⟨asked, now, b', h⟩
    · rw [Authority.current?, issue_certificates h] at hc
      exact .inl hc
  | refused asked now e b' h =>
    rw [Authority.current?, (issue_failed_same ha h).2.2] at hc
    exact .inl hc
  | _ => exact .inl hc

/-- From a consistent state, some acts lead to another. -/
def Acts (P : DirectoryChange → Prop) (a b : Authority) : Prop :=
  a.Consistent → Relation.ReflTransGen (Act P) a b

theorem leads_of_acts (h : Relation.ReflTransGen (Act P) a b) : Leads a b := by
  induction h with
  | refl => exact .refl a
  | tail _ hact ih => exact ih.trans hact.leads

namespace Acts

theorem refl (a : Authority) : Acts P a a :=
  fun _ => .refl

theorem of_act (h : Act P a b) : Acts P a b :=
  fun _ => .single h

theorem trans (hab : Acts P a b) (hbc : Acts P b c) : Acts P a c :=
  fun ha => (hab ha).trans (hbc ((leads_of_acts (hab ha)).consistent ha))

theorem bind {r : Request Authority α} {f : α → Request Authority β} (hr : Acts P a (r a).2)
    (hf : ∀ x b, r a = (.ok x, b) → Acts P b (f x b).2) : Acts P a ((r >>= f) a).2 := by
  rcases hs : r a with ⟨o, b⟩
  rw [hs] at hr
  cases o with
  | error e =>
    rw [Request.bind_error hs]
    exact hr
  | ok x =>
    rw [Request.bind_ok hs]
    exact hr.trans (hf x b hs)

/-- What is read decides how a request goes on. -/
theorem bind_read {f : Authority → Outcome α} {g : α → Request Authority β}
    (hg : ∀ x, f a = .ok x → Acts P a (g x a).2) : Acts P a ((Request.read f >>= g) a).2 := by
  refine bind (refl a) fun x b h => ?_
  obtain rfl : a = b := congrArg Prod.snd h
  exact hg x (congrArg Prod.fst h)

end Acts

/-! ### Certificates for content access -/

theorem issue_contentAccess (hfind : ContentAccess.find a.directory id = .ok (some x)) :
    issue (.contentAccess id) now a = sign (x.plan a.config now) now a := by
  have hplan : plan (.contentAccess id) now a = (.ok (x.plan a.config now), a) := by
    show (ContentAccess.find a.directory id >>= _, a) = _
    rw [hfind]
    rfl
  exact Request.bind_ok hplan

/-- The ways in which a certificate for content access is come by. -/
inductive AccessResult (id : String) (x : ContentAccess) (forced : Bool) (now : Instant)
    (a : Authority) : Outcome IssuedCertificate × Authority → Prop
  | kept (c : IssuedCertificate) (h : a.keptContentAccess x forced now = .ok (some c)) :
      AccessResult id x forced now a (.ok c, a)
  | failed (e : Fault) (b : Authority) (hissue : issue (.contentAccess id) now a = (.error e, b)) :
      AccessResult id x forced now a (.error e, b)
  | issued (fresh : IssuedCertificate) (b : Authority)
      (hnone : a.keptContentAccess x forced now = .ok none)
      (hissue : issue (.contentAccess id) now a = (.ok fresh, b)) :
      AccessResult id x forced now a (.ok fresh, b.superseded fresh)

theorem contentAccessCertificate_result (ha : a.Consistent)
    (hfind : ContentAccess.find a.directory id = .ok (some x)) (forced : Bool) (now : Instant) :
    AccessResult id x forced now a (contentAccessCertificate x forced now a) := by
  obtain ⟨kept, hkept⟩ := keptContentAccess_ok ha x forced now
  unfold contentAccessCertificate
  rw [Request.bind_ok (by rw [Request.read_apply, hkept])]
  cases kept with
  | some c => exact .kept c hkept
  | none =>
    dsimp only
    rw [Request.bind_ok (Request.get_apply _ a)]
    rcases hissue : issue (.contentAccess id) now a with ⟨o, b⟩
    have hsign := (issue_contentAccess hfind).symm.trans hissue
    cases o with
    | error e =>
      rw [Request.bind_error hsign]
      exact .failed e b hissue
    | ok fresh =>
      rw [Request.bind_ok hsign, supersede_after_issue ha hissue]
      exact .issued fresh b hkept hissue

/-- An answer comes with a certificate and the payload. -/
theorem contentAccess_eq_ok {c : IssuedCertificate} :
    contentAccess id forced now a = (.ok (some c), b) ↔
      ∃ x stored a₁ row, ContentAccess.find a.directory id = .ok (some x) ∧
        contentAccessCertificate x forced now a = (.ok stored, a₁) ∧
        contentPayload x now a₁ = (.ok row, b) ∧
        c = { stored with payload := some row.payload } := by
  unfold contentAccess
  constructor
  · intro h
    obtain ⟨found, a', hread, h⟩ := Request.bind_eq_ok.1 h
    obtain rfl : a = a' := congrArg Prod.snd hread
    have hfind : ContentAccess.find a.directory id = .ok found := congrArg Prod.fst hread
    cases found with
    | none => cases h
    | some x =>
      obtain ⟨stored, a₁, hcertificate, h⟩ := Request.bind_eq_ok.1 h
      obtain ⟨row, b', hrow, h⟩ := Request.bind_eq_ok.1 h
      cases h
      exact ⟨x, stored, a₁, row, hfind, hcertificate, hrow, rfl⟩
  · rintro ⟨x, stored, a₁, row, hfind, hcertificate, hrow, rfl⟩
    rw [Request.bind_ok (by rw [Request.read_apply, hfind])]
    dsimp only
    rw [Request.bind_ok hcertificate, Request.bind_ok hrow]
    rfl

/-! ### Requests -/

theorem contentPayload_acts (x : ContentAccess) (now : Instant) (a : Authority) :
    Acts P a (contentPayload x now a).2 := by
  obtain ⟨signatures, payloads, h, -⟩ := contentPayload_eq x now a
  rw [h]
  exact .of_act (.paid signatures payloads)

theorem contentAccessCertificate_acts
    (hfind : ContentAccess.find a.directory id = .ok (some x)) (forced : Bool) (now : Instant) :
    Acts P a (contentAccessCertificate x forced now a).2 := by
  intro ha
  have hresult := contentAccessCertificate_result ha hfind forced now
  generalize contentAccessCertificate x forced now a = answer at hresult
  cases hresult with
  | kept c h => exact .refl
  | failed e b hissue => exact .single (.refused _ now e b hissue)
  | issued fresh b hnone hissue => exact .single (.issued _ now fresh b hissue)

theorem contentAccess_acts (id : String) (forced : Bool) (now : Instant) (a : Authority) :
    Acts P a (contentAccess id forced now a).2 := by
  unfold contentAccess
  refine .bind_read fun found hfind => ?_
  cases found with
  | none => exact .refl a
  | some x =>
    refine .bind (contentAccessCertificate_acts hfind forced now) fun c b _ => ?_
    exact .bind (contentPayload_acts x now b) fun _ b' _ => .refl b'

theorem plainContentAccess_acts (id : String) (now : Instant) (a : Authority) :
    Acts P a (plainContentAccess id now a).2 := by
  unfold plainContentAccess
  refine .bind_read fun found hfind => ?_
  cases found with
  | none => exact .refl a
  | some x => exact .bind (contentAccessCertificate_acts hfind false now) fun _ b _ => .refl b

theorem contentPayloadFor_acts (id : String) (now : Instant) (a : Authority) :
    Acts P a (contentPayloadFor id now a).2 := by
  unfold contentPayloadFor
  refine .bind_read fun found _ => ?_
  cases found with
  | none => exact .refl a
  | some x => exact .bind (contentPayload_acts x now a) fun _ b _ => .refl b

theorem generate_acts (role : Role) (now : Instant) (a : Authority) :
    Acts P a (generate role now a).2 := by
  intro ha
  by_cases hkind : role.kind = .contentAccess
  · unfold generate
    rw [if_pos hkind]
    exact contentAccess_acts role.subject false now a ha
  · have hresult := generate_result ha hkind now
    generalize generate role now a = answer at hresult
    cases hresult with
    | kept c h => exact .refl
    | gone e h => exact .refl
    | failed e b hissue => exact .single (.refused role now e b hissue)
    | issued fresh b hnone hissue => exact .single (.issued role now fresh b hissue)

theorem renew_acts (role : Role) (now : Instant) (a : Authority) :
    Acts P a (renew role now a).2 := by
  intro ha
  have hresult := renew_result ha role now
  generalize renew role now a = answer at hresult
  cases hresult with
  | issued fresh b hissue => exact .single (.issued role now fresh b hissue)
  | kept e b c hissue => exact .single (.refused role now e b hissue)
  | failed e b hissue => exact .single (.refused role now e b hissue)

theorem setDirty_acts (id : String) (dirty : Bool) (a : Authority) :
    Acts P a (onDirectory (Directory.setDirty id dirty) a).2 :=
  .of_act (.flagged id dirty)

theorem regenerate_acts (role : Role) (putOff : Bool) (now : Instant) (a : Authority) :
    Acts P a (regenerate role putOff now a).2 := by
  unfold regenerate
  cases role.kind with
  | contentAccess => exact contentAccess_acts role.subject true now a
  | entitlement =>
    cases putOff with
    | false => exact renew_acts role now a
    | true => exact .bind (setDirty_acts role.subject true a) fun _ b _ => .refl b
  | _ => exact renew_acts role now a

theorem forEach_acts {f : String → Request Authority Unit} (hf : ∀ id a, Acts P a (f id a).2)
    (ids : List String) (a : Authority) : Acts P a (forEach f ids a).2 := by
  induction ids generalizing a with
  | nil => exact .refl a
  | cons id ids ih => exact .bind (hf id a) fun _ b _ => ih b

theorem flagDrifted_acts (consumerIds : List String) (before after : List EnvironmentPromotions)
    (a : Authority) : Acts P a (flagDrifted consumerIds before after a).2 := by
  unfold flagDrifted
  refine .bind_read fun carried _ => ?_
  exact .bind (forEach_acts (fun id a => setDirty_acts id true a) _ a) fun _ b _ => .refl b

theorem regenerateForEnvironment_acts (environmentId : String) (contentIds : List String)
    (putOff : Bool) (now : Instant) (a : Authority) :
    Acts P a (regenerateForEnvironment environmentId contentIds putOff now a).2 := by
  unfold regenerateForEnvironment
  refine .bind_read fun affected _ => .bind (forEach_acts ?_ affected a) fun _ b _ => .refl b
  intro id a
  exact .bind (regenerate_acts (.entitlement id) putOff now a) fun _ b _ => .refl b

theorem revokeSerial_acts (id : Nat) (a : Authority) :
    Acts P a (onSerials (SerialLedger.revoke id) a).2 := by
  rw [onSerials, Request.within_apply, SerialLedger.revoke]
  cases a.serials.get? id with
  | none => exact .refl a
  | some s => exact .of_act (.revoked id)

/-! ### Runs -/

end Authority

/-- If the operation changes the records, that change is allowed. -/
def Operation.Allows (P : DirectoryChange → Prop) : Operation → Prop
  | change c => P c
  | _ => True

namespace Authority

/-- **Every operation is a sequence of acts.** -/
theorem Operation.apply_acts {operation : Operation} (hallows : operation.Allows P) (now : Instant)
    (a : Authority) : Acts P a (operation.apply now a) := by
  cases operation with
  | change c => exact .of_act (.changed c hallows)
  | generate role => exact generate_acts role now a
  | regenerate role putOff => exact regenerate_acts role putOff now a
  | plainContentAccess id => exact plainContentAccess_acts id now a
  | contentPayload id => exact contentPayloadFor_acts id now a
  | flagDrifted consumerIds before after => exact flagDrifted_acts consumerIds before after a
  | regenerateForEnvironment environmentId contentIds putOff =>
    exact regenerateForEnvironment_acts environmentId contentIds putOff now a
  | revokeSerial id => exact revokeSerial_acts id a
  | clearAnonymousContent => exact .of_act .cleared

/-- One operation that makes no other changes of the records than those that are allowed. -/
def StepBy (P : DirectoryChange → Prop) (a b : Authority) : Prop :=
  ∃ operation now, operation.Allows P ∧ b = Operation.apply now operation a

/-- The states that such operations lead to from an authority that has not issued anything. -/
def ReachableBy (P : DirectoryChange → Prop) (a : Authority) : Prop :=
  ∃ cryptography config now start, create cryptography config now = .ok start ∧
    Relation.ReflTransGen (StepBy P) start a

namespace ReachableBy

theorem reachable (h : ReachableBy P a) : Reachable a := by
  obtain ⟨cryptography, config, now, start, hstart, hrun⟩ := h
  refine ⟨cryptography, config, now, start, hstart, Relation.ReflTransGen.mono ?_ _ _ hrun⟩
  rintro a b ⟨operation, now, -, hb⟩
  exact ⟨operation, now, hb⟩

theorem of_create {cryptography : Cryptography} {config : Config} {start : Authority}
    (h : create cryptography config now = .ok start) : ReachableBy P start :=
  ⟨cryptography, config, now, start, h, .refl⟩

theorem tail (h : ReachableBy P a) (hstep : StepBy P a b) : ReachableBy P b := by
  obtain ⟨cryptography, config, now, start, hstart, hrun⟩ := h
  exact ⟨cryptography, config, now, start, hstart, hrun.tail hstep⟩

theorem change (h : ReachableBy P a) {c : DirectoryChange} (hc : P c) :
    ReachableBy P { a with directory := c.apply a.directory } :=
  h.tail ⟨.change c, ⟨0, 0⟩, hc, rfl⟩

/-- Any changes of the records that are allowed can be made in any state that is reached. -/
theorem changes (h : ReachableBy P a) {cs : List DirectoryChange} (hcs : ∀ c ∈ cs, P c) :
    ReachableBy P { a with directory := cs.foldl (fun d c => c.apply d) a.directory } :=
  changes_induction (fun h hc => h.change hc) h hcs

theorem of_generate {o : Outcome (Option IssuedCertificate)} (h : ReachableBy P a)
    (hgenerate : generate role now a = (o, b)) : ReachableBy P b :=
  h.tail ⟨.generate role, now, trivial, (congrArg Prod.snd hgenerate).symm⟩

/-- An authority with some records that has not issued anything. -/
theorem exists_stocked {cs : List DirectoryChange} {d : Directory} (hcs : ∀ c ∈ cs, P c)
    (hd : cs.foldl (fun d c => c.apply d) Directory.empty = d) :
    ∃ a, ReachableBy P a ∧ a.config = {} ∧ a.directory = d ∧ ∀ role, a.current? role = none :=
  exists_stocked_of of_create (fun h hc => h.change hc) hcs hd

end ReachableBy

/-- The states that acts lead to from an authority that has not issued anything; a request may
not have come to its end in them. -/
def ArisesBy (P : DirectoryChange → Prop) (a : Authority) : Prop :=
  ∃ cryptography config now start, create cryptography config now = .ok start ∧
    Relation.ReflTransGen (Act P) start a

theorem ArisesBy.consistent (h : ArisesBy P a) : a.Consistent := by
  obtain ⟨cryptography, config, now, start, hstart, hacts⟩ := h
  exact (leads_of_acts hacts).consistent (.of_create hstart)

theorem ReachableBy.arises (h : ReachableBy P a) : ArisesBy P a := by
  obtain ⟨cryptography, config, now, start, hstart, hrun⟩ := h
  refine ⟨cryptography, config, now, start, hstart, ?_⟩
  induction hrun with
  | refl => exact .refl
  | tail _ hstep ih =>
    obtain ⟨operation, now', hallows, rfl⟩ := hstep
    have hb := (leads_of_acts ih).consistent (Consistent.of_create hstart)
    exact ih.trans (Operation.apply_acts hallows now' _ hb)

namespace ArisesBy

/-- **What every act preserves holds in every state that arises.** -/
theorem invariant {I : Authority → Prop} (h : ArisesBy P a) (hstart : ∀ b, b.IsNew → I b)
    (hact : ∀ b c, ArisesBy P b → I b → Act P b c → I c) : I a := by
  obtain ⟨cryptography, config, now, start, hcreate, hacts⟩ := h
  induction hacts with
  | refl => exact hstart start (.of_create hcreate)
  | tail hbefore hlast ih => exact hact _ _ ⟨cryptography, config, now, start, hcreate, hbefore⟩ ih hlast

/-- What the changes that are allowed preserve, and no flag matters to, is so of the records. -/
theorem directory_invariant {I : Directory → Prop} (h : ArisesBy P a) (hempty : I .empty)
    (happly : ∀ d c, I d → P c → I (c.apply d))
    (hflag : ∀ d id dirty, I d → I (Directory.setDirty id dirty d).2) : I a.directory := by
  refine h.invariant (I := fun a => I a.directory) (fun b hnew => ?_) fun b c hb hd hact => ?_
  · rw [hnew.directory]
    exact hempty
  · obtain hsame | ⟨change, hchange, hd'⟩ | ⟨id, dirty, hd'⟩ := hact.directory hb.consistent
    · rwa [hsame]
    · rw [hd']
      exact happly _ change hd hchange
    · rw [hd']
      exact hflag _ id dirty hd

/-- **Every stored certificate was issued** in a state from which acts lead to this one. -/
theorem exists_issued {cert : IssuedCertificate} (h : ArisesBy P a)
    (hc : a.current? role = some cert) : ∃ b asked now b', ArisesBy P b ∧
      Relation.ReflTransGen (Act P) b a ∧ issue asked now b = (.ok cert, b') := by
  let I (a : Authority) : Prop := ∀ role cert, a.current? role = some cert →
    ∃ b asked now b', ArisesBy P b ∧ Relation.ReflTransGen (Act P) b a ∧
      issue asked now b = (.ok cert, b')
  refine h.invariant (I := I) (fun b hnew role cert hc => ?_)
    (fun b c hb ih hact role cert hc => ?_) role cert hc
  · rw [Authority.current?, hnew.certificates] at hc
    cases hc
  · obtain hbefore | ⟨asked, now, b', hissue⟩ := hact.current? hb.consistent hc
    · obtain ⟨m, asked, now, m', hm, hacts, hissue⟩ := ih role cert hbefore
      exact ⟨m, asked, now, m', hm, hacts.tail hact, hissue⟩
    · exact ⟨b, asked, now, b', hb, .single hact, hissue⟩

end ArisesBy

end Authority

end EntitlementAuthority
