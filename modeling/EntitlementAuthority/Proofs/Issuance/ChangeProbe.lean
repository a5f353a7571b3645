import EntitlementAuthority.Proofs.Issuance.Prediction

/-!
# Asking whether anything changed

Whether the certificate of a consumer has changed is asked of the records, whether it is issued
again is decided by its state. Both look at the certificate on their own, and they agree as long as
no stored certificate is revoked.

* `Authority.Served` — the states that ordinary operations lead to.
* `Authority.Served.isRevoked_eq_false` — no stored certificate is revoked in them.
* `Authority.state_eq_valid_iff` — when a certificate for content access is valid.
* `Authority.changedSince_eq_false_iff` — nothing changed if the stamps are early enough and the
  certificate is valid.
* `Authority.changedSince_agrees` — what the answer tells about a request for the certificate.
-/

namespace EntitlementAuthority

namespace Authority

variable {P : DirectoryChange → Prop} {a b : Authority} {c fresh : IssuedCertificate} {id : String}
  {role : Role} {x : ContentAccess} {since now : Instant}

/-! ### States that ordinary operations lead to -/

/-- The states that ordinary operations lead to from an authority that has not issued anything, if
the records are changed as it is allowed. -/
def Served (P : DirectoryChange → Prop) (a : Authority) : Prop :=
  ∃ cryptography config now₀ start, ∃ run : List (Instant × Operation),
    create cryptography config now₀ = .ok start ∧ (∀ y ∈ run, y.2.IsOrdinary ∧ y.2.Allows P) ∧
    run.foldl (fun b y => y.2.apply y.1 b) start = a

namespace Served

theorem of_create {cryptography : Cryptography} {config : Config} {start : Authority}
    (h : create cryptography config now = .ok start) : Served P start :=
  ⟨cryptography, config, now, start, [], h, fun _ hy => absurd hy List.not_mem_nil, rfl⟩

theorem step (h : Served P a) (operation : Operation) (hordinary : operation.IsOrdinary)
    (hallows : operation.Allows P) (now : Instant) : Served P (operation.apply now a) := by
  obtain ⟨cryptography, config, now₀, start, run, hstart, hrun, rfl⟩ := h
  refine ⟨cryptography, config, now₀, start, run ++ [(now, operation)], hstart, ?_, ?_⟩
  · rw [List.forall_mem_append, List.forall_mem_singleton]
    exact ⟨hrun, hordinary, hallows⟩
  · rw [List.foldl_append]
    rfl

theorem change (h : Served P a) {c : DirectoryChange} (hc : P c) :
    Served P { a with directory := c.apply a.directory } :=
  h.step (.change c) trivial hc ⟨0, 0⟩

/-- An authority with some records that has not issued anything. -/
theorem exists_stocked {cs : List DirectoryChange} {d : Directory} (hcs : ∀ c ∈ cs, P c)
    (hd : cs.foldl (fun d c => c.apply d) Directory.empty = d) :
    ∃ a, Served P a ∧ a.config = {} ∧ a.directory = d ∧ ∀ role, a.current? role = none :=
  exists_stocked_of of_create (fun h hc => h.change hc) hcs hd

theorem reachableBy (h : Served P a) : ReachableBy P a := by
  obtain ⟨cryptography, config, now₀, start, run, hstart, hrun, rfl⟩ := h
  suffices ∀ b, ReachableBy P b → ReachableBy P (run.foldl (fun b y => y.2.apply y.1 b) b) from
    this start (.of_create hstart)
  clear hstart
  induction run with
  | nil => exact fun b hb => hb
  | cons y run ih =>
    rw [List.forall_mem_cons] at hrun
    exact fun b hb => ih hrun.2 _ (hb.tail ⟨y.2, y.1, hrun.1.2, rfl⟩)

/-- Serials and certificates agree. -/
theorem serialsKept (h : Served P a) : ∃ past, SerialsKept past a := by
  obtain ⟨cryptography, config, now₀, start, run, hstart, hrun, rfl⟩ := h
  -- The state is the last one of its run.
  have hlast : (start :: later run start).getLast (List.cons_ne_nil _ _) =
      run.foldl (fun b y => y.2.apply y.1 b) start := by
    rw [List.getLast_eq_getLastD]
    exact getLastD_later run start
  have hmoment : start :: later run start = (start :: later run start).dropLast ++
      run.foldl (fun b y => y.2.apply y.1 b) start :: [] := by
    rw [← hlast]
    exact (List.dropLast_append_getLast _).symm
  exact ⟨_, serials_of_run hstart (fun y hy => (hrun y hy).1) hmoment⟩

/-- **No stored certificate is revoked.** -/
theorem isRevoked_eq_false (h : Served P a) (hc : a.current? role = some c) :
    a.isRevoked c = false := by
  obtain ⟨past, hkept⟩ := h.serialsKept
  obtain ⟨s, hs, hlive⟩ := hkept.current role c hc
  rw [isRevoked, hs]
  exact hlive

end Served

/-! ### The stored certificate -/

/-- A certificate bears the instant at which it was issued. -/
theorem updated_of_issue (h : issue role now a = (.ok fresh, b)) : fresh.updated = now := by
  obtain ⟨p, a₁, -, hsign⟩ := Request.bind_eq_ok.1 h
  obtain ⟨key, keys, rfl, -⟩ := sign_eq_ok hsign
  rfl

/-- How things stand with the certificate of a consumer, if it is not revoked. -/
theorem state_of_live (ha : a.Consistent) (hfind : ContentAccess.find a.directory id = .ok (some x))
    (hlive : ∀ c, a.current? (.contentAccess id) = some c → a.isRevoked c = false)
    (now : Instant) :
    ∃ s, a.state (.contentAccess id) now = .ok s ∧
      (s = .valid ↔ ∃ c, a.current? (.contentAccess id) = some c ∧ Serves x c now) := by
  have hconsumer : a.directory.consumer id = .ok x.consumer :=
    Directory.find_eq_ok.2 (find_eq_some hfind).1
  cases hc : a.current? (.contentAccess id) with
  | none =>
    refine ⟨.absent, ?_, iff_of_false (fun h => nomatch h) fun ⟨_, h, _⟩ => nomatch h⟩
    unfold state
    rw [hc]
  | some c =>
    rw [state_contentAccess hc hconsumer, standing_contentAccess ha hc (hlive c hc)]
    by_cases hother : c.environmentIds = x.consumer.environmentIds
    · rw [if_neg (not_not_intro hother)]
      refine ⟨_, rfl, ?_⟩
      cases hexpired : c.serial.isExpired now
      · exact iff_of_true rfl ⟨c, rfl, hexpired, hother⟩
      · refine iff_of_false (fun h => nomatch h) ?_
        rintro ⟨c', hc', hserves, -⟩
        cases hc'
        rw [hexpired] at hserves
        cases hserves
    · rw [if_pos hother]
      refine ⟨.stale, rfl, iff_of_false (fun h => nomatch h) ?_⟩
      rintro ⟨c', hc', -, hsame⟩
      cases hc'
      exact hother hsame

/-! ### The question -/

/-- Whoever has access to content gets an answer: nothing changed if the stamps of the records are
early enough, and so is that of a certificate that can still be handed out. -/
theorem changedSince_eq (hfind : ContentAccess.find a.directory id = .ok (some x))
    (since now : Instant) :
    ∃ changed, a.changedSince id since now = .ok changed ∧
      (changed = false ↔ x.owner.contentUpdated ≤ since ∧
        (∀ e ∈ x.environments, e.contentUpdated ≤ since) ∧
        ∃ c, a.current? (.contentAccess x.consumer.id) = some c ∧ c.updated ≤ since ∧
          Serves x c now) := by
  unfold changedSince
  rw [hfind, Outcome.ok_bind]
  refine ⟨_, rfl, ?_⟩
  rw [Bool.or_eq_false_iff, Bool.or_eq_false_iff, decide_eq_false_iff_not, Instant.not_lt,
    List.any_eq_false, and_assoc]
  simp only [decide_eq_true_eq, Instant.not_lt]
  refine and_congr_right fun _ => and_congr_right fun _ => ?_
  cases a.current? (.contentAccess x.consumer.id) with
  | none => exact iff_of_false (fun h => nomatch h) fun ⟨_, h, _⟩ => nomatch h
  | some c =>
    simp only [Option.some.injEq, exists_eq_left', Serves, Bool.or_eq_false_iff,
      decide_eq_false_iff_not, Instant.not_lt, bne_eq_false_iff_eq, and_assoc]

/-- Nothing changed for a certificate of the record that was found that can still be handed out. -/
theorem changedSince_of_serves (hfind : ContentAccess.find a.directory id = .ok (some x))
    (howner : x.owner.contentUpdated ≤ since)
    (henvironments : ∀ e ∈ x.environments, e.contentUpdated ≤ since)
    (hc : a.current? (.contentAccess x.consumer.id) = some c) (hupdated : c.updated ≤ since)
    (hserves : Serves x c now) : a.changedSince id since now = .ok false := by
  obtain ⟨changed, hchanged, hfalse⟩ := changedSince_eq hfind since now
  rw [hchanged, hfalse.2 ⟨howner, henvironments, c, hc, hupdated, hserves⟩]

/-- **Nothing changed if the stamps are early enough and the certificate is valid**, and only
then. -/
theorem changedSince_eq_false_iff (h : Served DirectoryChange.KeepsIds a)
    (hfind : ContentAccess.find a.directory id = .ok (some x)) (since now : Instant) :
    a.changedSince id since now = .ok false ↔
      x.owner.contentUpdated ≤ since ∧ (∀ e ∈ x.environments, e.contentUpdated ≤ since) ∧
        (∀ c, a.current? (.contentAccess id) = some c → c.updated ≤ since) ∧
        a.state (.contentAccess id) now = .ok .valid := by
  have hid := id_of_find h.reachableBy.keyed hfind
  obtain ⟨changed, hchanged, hunchanged⟩ := changedSince_eq hfind since now
  obtain ⟨s, hs, hvalid⟩ := state_of_live h.reachableBy.reachable.consistent hfind
    (fun c hc => h.isRevoked_eq_false hc) now
  rw [hchanged, hs, Except.ok.injEq, Except.ok.injEq, hunchanged, hvalid, hid]
  refine and_congr_right fun _ => and_congr_right fun _ => ⟨?_, ?_⟩
  · rintro ⟨c, hc, hupdated, hserves⟩
    refine ⟨fun c' hc' => ?_, c, hc, hserves⟩
    cases hc.symm.trans hc'
    exact hupdated
  · rintro ⟨hupdated, c, hc, hserves⟩
    exact ⟨c, hc, hupdated c hc, hserves⟩

/-! ### Requests for the certificate -/

/-- A request for the certificate hands it out as it is. -/
def HandsOut (a : Authority) (id : String) (now : Instant) (c : IssuedCertificate) : Prop :=
  a.current? (.contentAccess id) = some c ∧ plainContentAccess id now a = (.ok (some c), a)

/-- A request for the certificate issues a new one, which takes the place of the one before; if that
fails, so does the request. -/
def Reissues (a : Authority) (id : String) (now : Instant) : Prop :=
  (∃ fresh b, issue (.contentAccess id) now a = (.ok fresh, b) ∧
    plainContentAccess id now a = (.ok (some fresh), b.superseded fresh) ∧
    Replaces (.contentAccess id) fresh a (b.superseded fresh)) ∨
  ∃ e b, issue (.contentAccess id) now a = (.error e, b) ∧
    plainContentAccess id now a = (.error e, b)

/-- A consumer that has access to content is given what is asked for it. -/
theorem plainContentAccess_eq (hfind : ContentAccess.find a.directory id = .ok (some x)) :
    plainContentAccess id now a = (some <$> contentAccessCertificate x false now) a := by
  unfold plainContentAccess
  rw [Request.bind_ok (by rw [Request.read_apply, hfind])]

theorem handsOut_of_valid (hkeyed : a.directory.ConsumersKeyed)
    (hfind : ContentAccess.find a.directory id = .ok (some x))
    (hvalid : a.state (.contentAccess id) now = .ok .valid) : ∃ c, HandsOut a id now c := by
  cases hc : a.current? (.contentAccess id) with
  | none =>
    unfold state at hvalid
    rw [hc] at hvalid
    cases hvalid
  | some c =>
    have hkept : a.keptContentAccess x false now = .ok (some c) := by
      rw [keptContentAccess_eq_state hfind (id_of_find hkeyed hfind), handedOut, hvalid, hc]
      rfl
    refine ⟨c, hc, (plainContentAccess_eq hfind).trans (Request.map_ok some ?_)⟩
    unfold contentAccessCertificate
    rw [Request.bind_ok (by rw [Request.read_apply, hkept])]
    rfl

theorem reissues_of_not_valid (ha : a.Consistent) (hkeyed : a.directory.ConsumersKeyed)
    (hfind : ContentAccess.find a.directory id = .ok (some x))
    (hvalid : a.state (.contentAccess id) now ≠ .ok .valid) : Reissues a id now := by
  have hkept := keptContentAccess_eq_state hfind (id_of_find hkeyed hfind) now
  have hresult := contentAccessCertificate_result ha hfind false now
  rcases hanswer : contentAccessCertificate x false now a with ⟨o, b⟩
  rw [hanswer] at hresult
  cases hresult with
  | kept c h => exact absurd (handedOut_eq_some (hkept.symm.trans h)).1 hvalid
  | failed e b hissue =>
    exact .inr ⟨e, b, hissue, (plainContentAccess_eq hfind).trans (Request.map_error some hanswer)⟩
  | issued fresh b hnone hissue =>
    exact .inl ⟨fresh, b, hissue, (plainContentAccess_eq hfind).trans (Request.map_ok some hanswer),
      replaces_of_issue ha hkeyed hissue⟩

end Authority

/-! ### A consumer that asks before and after -/

namespace Withdrawn

open Authority

variable {a : Authority}

theorem stamps_access : access.owner.contentUpdated ≤ ⟨1, 0⟩ ∧
    ∀ e ∈ access.environments, e.contentUpdated ≤ ⟨1, 0⟩ := by
  decide

/-- The first certificate of the consumer, before and after. -/
theorem exists_first : ∃ a b fresh, Served DirectoryChange.KeepsIds a ∧ a.directory = directory ∧
    a.current? (.contentAccess "sample-consumer") = none ∧ Served DirectoryChange.KeepsIds b ∧
    b.directory = directory ∧ b.current? (.contentAccess "sample-consumer") = some fresh ∧
    fresh.updated = ⟨1, 0⟩ ∧ Serves access fresh ⟨2, 0⟩ := by
  have hkeeps : ∀ c ∈ changes, c.KeepsIds := by
    simp [changes, DirectoryChange.KeepsIds]
  have hrecords : changes.foldl (fun d c => c.apply d) Directory.empty = directory := rfl
  obtain ⟨a, ha, hconfig, hdirectory, hnone⟩ := Served.exists_stocked hkeeps hrecords
  have hfind := find_access hdirectory
  obtain ⟨fresh, b, h⟩ := exists_firstAccess ha.reachableBy.reachable.consistent hfind (hnone _)
    (hconfig ▸ fault?_access)
  have hb := ha.step (.plainContentAccess "sample-consumer") trivial trivial ⟨1, 0⟩
  have happly : Operation.apply ⟨1, 0⟩ (.plainContentAccess "sample-consumer") a = b :=
    congrArg Prod.snd (h.plainContentAccess_eq hfind)
  rw [happly] at hb
  have hserves : Serves access fresh ⟨2, 0⟩ := by
    refine ⟨?_, h.environmentIds_eq⟩
    rw [Serial.isExpired, h.expiration_eq, hconfig]
    rfl
  exact ⟨a, b, fresh, ha, hdirectory, hnone _, hb, h.directory_eq.trans hdirectory, h.current,
    h.updated_eq, hserves⟩

/-- Once the serial of the certificate is revoked by hand, nothing has changed for the records, and
yet the certificate is not valid. -/
theorem unchanged_yet_revoked : ∃ a : Authority, a.Reachable ∧
    ContentAccess.find a.directory "sample-consumer" = .ok (some access) ∧
    a.changedSince "sample-consumer" ⟨1, 0⟩ ⟨2, 0⟩ = .ok false ∧
    a.state (.contentAccess "sample-consumer") ⟨2, 0⟩ = .ok .superseded := by
  obtain ⟨-, a, fresh, -, -, -, ha, hdirectory, hcurrent, hupdated, hserves⟩ := exists_first
  have hreachable := ha.reachableBy.reachable
  obtain ⟨s, hs⟩ := hreachable.consistent.serials _ _ fresh hcurrent
  let b : Authority := { a with serials := a.serials.markRevoked fresh.serial.id }
  have hstep : Step a b := by
    refine ⟨.revokeSerial fresh.serial.id, ⟨1, 0⟩, ?_⟩
    rw [Operation.apply, onSerials, Request.within_apply, SerialLedger.revoke, hs]
  have hfind : ContentAccess.find b.directory "sample-consumer" = .ok (some access) :=
    find_access hdirectory
  have hstored : b.current? (.contentAccess "sample-consumer") = some fresh := hcurrent
  have hrevoked : b.isRevoked fresh = true := by
    rw [isRevoked, SerialLedger.get?_markRevoked, if_pos rfl, hs]
    rfl
  refine ⟨b, hreachable.trans (.single hstep), hfind, ?_, ?_⟩
  · exact changedSince_of_serves hfind stamps_access.1 stamps_access.2 hstored
      (hupdated ▸ Instant.le_refl _) hserves
  · have hconsumer : b.directory.consumer "sample-consumer" = .ok access.consumer :=
      Directory.find_eq_ok.2 (find_eq_some hfind).1
    rw [state_contentAccess hstored hconsumer, if_neg (not_not_intro hserves.2), standing, hrevoked]
    rfl

end Withdrawn

namespace RenamedAccess

open Authority

/-- For a consumer under another id nothing has changed, and yet its role has no certificate. -/
theorem unchanged_yet_absent : ∃ a : Authority, a.Reachable ∧
    ContentAccess.find a.directory "sample-consumer" = .ok (some access) ∧
    a.changedSince "sample-consumer" ⟨1, 0⟩ ⟨2, 0⟩ = .ok false ∧
    a.state (.contentAccess "sample-consumer") ⟨2, 0⟩ = .ok .absent := by
  obtain ⟨a, c, ha⟩ := exists_holds
  have hfind := find_access ha.directory_eq
  have hstamps : access.owner.contentUpdated ≤ ⟨1, 0⟩ ∧
      ∀ e ∈ access.environments, e.contentUpdated ≤ ⟨1, 0⟩ := by
    decide
  refine ⟨a, ha.reachable, hfind, ?_, ?_⟩
  · exact changedSince_of_serves hfind hstamps.1 hstamps.2 ha.stored
      (ha.updated ▸ Instant.le_refl _) ha.serves
  · unfold state
    rw [ha.asked]

end RenamedAccess

end EntitlementAuthority
