import EntitlementAuthority.Proofs.Issuance.Acts
import EntitlementAuthority.Proofs.Signature.KeyRing

/-!
# Whose key pair a certificate carries

All certificates that are issued for somebody carry the same key pair. The key ring knows consumers
by their uuids as they are, but products and owners by names with a word in front. So if everybody
is told apart, different parties can only share a key pair if one of them is a consumer whose uuid
reads like the name of a product or an owner.

* `Principal`, `Directory.principal?` — whom a certificate of a role is for.
* `Directory.keySubject?` — the name under which the key ring has somebody.
* `Directory.Apart` — everybody is told apart.
* `Directory.Borrows` — the uuid of a consumer is the name of a product or an owner.
* `Authority.issue_hasKey` — a certificate carries the key pair of whom it is for.
* `Authority.Issues`, `Authority.Issues.kept` — a run with the certificates that it issues, and what
  stays so along it.
* `Authority.key_eq_iff_of_issues` — which certificates carry the same key pair.
-/

namespace EntitlementAuthority

/-! ### Whom certificates are for -/

/-- Somebody whom certificates are issued for, by the id under which the records have it; anonymous
consumers by their uuids. -/
inductive Principal where
  | consumer (id : String)
  | anonymousConsumer (uuid : String)
  | product (id : String)
  | owner (id : String)
deriving DecidableEq, Repr

namespace Directory

variable {d d' : Directory} {p q : Principal} {s t : String}

/-- Whom a certificate of a role is for. That of an entitlement is for its consumer. -/
def principal? (d : Directory) (role : Role) : Option Principal :=
  match role.kind with
  | .entitlement => (d.entitlements.get? role.subject).map fun e => .consumer e.consumerId
  | .identity => some (.consumer role.subject)
  | .contentAccess => some (.consumer role.subject)
  | .anonymousContentAccess => some (.anonymousConsumer role.subject)
  | .product => some (.product role.subject)
  | .ueber => some (.owner role.subject)

/-- The uuid of a consumer, be it anonymous or not. -/
def uuid? (d : Directory) : Principal → Option String
  | .consumer id => (d.consumers.get? id).map (·.uuid)
  | .anonymousConsumer uuid => (d.anonymousConsumers.get? uuid).map (·.uuid)
  | _ => none

/-- The name of a product or of an owner, with a word in front that says which. -/
def prefixedName? (d : Directory) : Principal → Option String
  | .product id => (d.products.get? id).map fun p => "product:" ++ p.id
  | .owner id => (d.owners.get? id).map fun o => ueberName ++ ":" ++ o.key
  | _ => none

/-- The name under which the key ring has somebody. -/
def keySubject? (d : Directory) (p : Principal) : Option String :=
  (d.uuid? p).or (d.prefixedName? p)

/-- Everybody is told apart: consumers by their uuids, products by their ids and owners by their
keys. -/
structure Apart (d : Directory) : Prop where
  uuids : ∀ p q s, d.uuid? p = some s → d.uuid? q = some s → p = q
  products : ∀ id id' p p', d.products.get? id = some p → d.products.get? id' = some p' →
    p.id = p'.id → id = id'
  owners : ∀ id id' o o', d.owners.get? id = some o → d.owners.get? id' = some o' →
    o.key = o'.key → id = id'

/-- The uuid of a consumer reads like the name of a product or of an owner. -/
def Borrows (d : Directory) (p q : Principal) : Prop :=
  ∃ s, d.uuid? p = some s ∧ d.prefixedName? q = some s

/-- The words in front of the names of products and of owners are different. -/
theorem product_ne_owner (id key : String) : "product:" ++ id ≠ ueberName ++ ":" ++ key := by
  intro h
  have htoList := congrArg String.toList h
  simp [ueberName, String.toList_append] at htoList

theorem Apart.of_prefixedName (h : d.Apart) (hp : d.prefixedName? p = some s)
    (hq : d.prefixedName? q = some s) : p = q := by
  cases p with
  | product id =>
    obtain ⟨x, hx, rfl⟩ := Option.map_eq_some_iff.1 hp
    cases q with
    | product id' =>
      obtain ⟨y, hy, hname⟩ := Option.map_eq_some_iff.1 hq
      have hid := (String.append_right_inj "product:").1 hname
      rw [h.products id id' x y hx hy hid.symm]
    | owner id' =>
      obtain ⟨y, hy, hname⟩ := Option.map_eq_some_iff.1 hq
      exact absurd hname.symm (product_ne_owner x.id y.key)
    | _ => cases hq
  | owner id =>
    obtain ⟨x, hx, rfl⟩ := Option.map_eq_some_iff.1 hp
    cases q with
    | product id' =>
      obtain ⟨y, hy, hname⟩ := Option.map_eq_some_iff.1 hq
      exact absurd hname (product_ne_owner y.id x.key)
    | owner id' =>
      obtain ⟨y, hy, hname⟩ := Option.map_eq_some_iff.1 hq
      have hkey := (String.append_right_inj (ueberName ++ ":")).1 hname
      rw [h.owners id id' x y hx hy hkey.symm]
    | _ => cases hq
  | _ => cases hp

/-- The name under which the key ring has somebody is a uuid or has a word in front. -/
theorem keySubject?_eq_some_iff :
    d.keySubject? p = some s ↔ d.uuid? p = some s ∨ d.prefixedName? p = some s := by
  unfold keySubject?
  cases p <;> simp [uuid?, prefixedName?]

/-- **Who has the same name in the key ring**: nobody but a consumer with a borrowed name. -/
theorem Apart.keySubject_eq_iff (h : d.Apart) (hp : d.keySubject? p = some s)
    (hq : d.keySubject? q = some t) : s = t ↔ p = q ∨ d.Borrows p q ∨ d.Borrows q p := by
  constructor
  · rintro rfl
    rcases keySubject?_eq_some_iff.1 hp with hp | hp <;>
      rcases keySubject?_eq_some_iff.1 hq with hq | hq
    · exact .inl (h.uuids p q s hp hq)
    · exact .inr (.inl ⟨s, hp, hq⟩)
    · exact .inr (.inr ⟨s, hq, hp⟩)
    · exact .inl (h.of_prefixedName hp hq)
  · have hsame : ∀ name, d.keySubject? p = some name → d.keySubject? q = some name → s = t := by
      intro name hp' hq'
      rw [hp] at hp'
      rw [hq] at hq'
      exact (Option.some.inj hp').trans (Option.some.inj hq').symm
    rintro (rfl | ⟨name, huuid, hprefixed⟩ | ⟨name, huuid, hprefixed⟩)
    · exact hsame s hp hp
    · exact hsame name (keySubject?_eq_some_iff.2 (.inl huuid))
        (keySubject?_eq_some_iff.2 (.inr hprefixed))
    · exact hsame name (keySubject?_eq_some_iff.2 (.inr hprefixed))
        (keySubject?_eq_some_iff.2 (.inl huuid))

theorem keySubject?_consumer {id : String} {c : Consumer} (h : d.consumers.get? id = some c) :
    d.keySubject? (.consumer id) = some c.uuid := by
  simp [keySubject?, uuid?, h]

theorem keySubject?_anonymousConsumer {uuid : String} {c : AnonymousConsumer}
    (h : d.anonymousConsumers.get? uuid = some c) :
    d.keySubject? (.anonymousConsumer uuid) = some c.uuid := by
  simp [keySubject?, uuid?, h]

theorem keySubject?_product {id : String} {p : Product} (h : d.products.get? id = some p) :
    d.keySubject? (.product id) = some ("product:" ++ p.id) := by
  simp [keySubject?, uuid?, prefixedName?, h]

theorem keySubject?_owner {id : String} {o : Owner} (h : d.owners.get? id = some o) :
    d.keySubject? (.owner id) = some (ueberName ++ ":" ++ o.key) := by
  simp [keySubject?, uuid?, prefixedName?, h]

theorem keySubject?_setDirty (id : String) (dirty : Bool) (p : Principal) :
    (setDirty id dirty d).2.keySubject? p = d.keySubject? p := by
  obtain ⟨entitlements, hd, -⟩ := setDirty_result id dirty d
  rw [hd]
  cases p <;> rfl

end Directory

/-- A change of the records that leaves everybody the name in the key ring. -/
def DirectoryChange.KeepsNames (c : DirectoryChange) : Prop :=
  ∀ d p, (c.apply d).keySubject? p = d.keySubject? p

namespace Authority

variable {start a b : Authority} {role : Role} {now : Instant} {p q : Principal}
  {c c' fresh : IssuedCertificate} {issued : List (Principal × IssuedCertificate)} {α β : Type}

/-! ### Key pairs that are asked for -/

/-- The key pair of a plan belongs to whom the certificate is for. -/
theorem keySubject_of_plan {plan : Plan} (h : Authority.plan role now a = (.ok plan, b)) :
    ∃ p, a.directory.principal? role = some p ∧
      a.directory.keySubject? p = some plan.keySubject := by
  have h₁ : (Authority.plan role now a).1 = .ok plan := congrArg Prod.fst h
  obtain ⟨kind, subject⟩ := role
  cases kind with
  | entitlement =>
    obtain ⟨e, consumer, -, -, he, hconsumer, -, -, -, hkey, -⟩ := entitlementPlan_eq_ok h₁
    refine ⟨.consumer e.consumerId, ?_, ?_⟩
    · exact Option.map_eq_some_iff.2 ⟨e, Directory.find_eq_ok.1 he, rfl⟩
    · rw [hkey, Directory.keySubject?_consumer (Directory.find_eq_ok.1 hconsumer)]
  | identity =>
    obtain ⟨consumer, hconsumer, -, hkey⟩ := identityPlan_eq_ok h₁
    refine ⟨.consumer subject, rfl, ?_⟩
    rw [hkey, Directory.keySubject?_consumer (Directory.find_eq_ok.1 hconsumer)]
  | contentAccess =>
    obtain ⟨x, hfind, rfl⟩ := (contentAccessPlan_eq_ok rfl).1 h₁
    exact ⟨.consumer subject, rfl, Directory.keySubject?_consumer (find_eq_some hfind).1⟩
  | anonymousContentAccess =>
    obtain ⟨consumer, -, hconsumer, -, -, hkey, -⟩ := anonymousPlan_eq_ok h
    refine ⟨.anonymousConsumer subject, rfl, ?_⟩
    rw [hkey, Directory.keySubject?_anonymousConsumer (Directory.find_eq_ok.1 hconsumer)]
  | product =>
    obtain ⟨product, hproduct, -, hkey⟩ := productPlan_eq_ok h₁
    refine ⟨.product subject, rfl, ?_⟩
    rw [hkey, Directory.keySubject?_product (Directory.find_eq_ok.1 hproduct)]
  | ueber =>
    obtain ⟨owner, howner, -, hkey, -⟩ := ueberPlan_eq_ok h₁
    refine ⟨.owner subject, rfl, ?_⟩
    rw [hkey, Directory.keySubject?_owner (Directory.find_eq_ok.1 howner)]

theorem onKeys_eq_ok {r : Request KeyRing α} {x : α} (h : onKeys r a = (.ok x, b)) :
    r a.keys = (.ok x, b.keys) := by
  rw [onKeys, Request.within_apply] at h
  obtain ⟨hanswer, rfl⟩ := Prod.mk.inj h
  exact Prod.ext hanswer rfl

theorem certify_keys (r : CertificateRequest) (a : Authority) : (certify r a).2.keys = a.keys := by
  unfold certify
  cases a.ca.build r <;> rfl

/-- What is signed carries the key pair of its subject. -/
theorem sign_hasKey {plan : Plan} (h : sign plan now a = (.ok fresh, b)) :
    b.keys.HasKey plan.keySubject fresh.key := by
  unfold sign at h
  obtain ⟨-, a₁, -, h⟩ := Request.bind_eq_ok.1 h
  obtain ⟨payload, a₂, -, h⟩ := Request.bind_eq_ok.1 h
  obtain ⟨key, a₃, hkey, h⟩ := Request.bind_eq_ok.1 h
  obtain ⟨serial, a₄, hserial, h⟩ := Request.bind_eq_ok.1 h
  obtain ⟨certificate, a₅, hcertificate, h⟩ := Request.bind_eq_ok.1 h
  cases h
  -- once the pair is taken, no other is drawn
  have h₄ : a₃.keys = a₄.keys := congrArg (fun answer => answer.2.keys) hserial
  have h₅ : a₄.keys = b.keys :=
    (certify_keys _ a₄).symm.trans (congrArg (fun answer => answer.2.keys) hcertificate)
  rw [← h₅, ← h₄]
  exact KeyRing.keyFor_hasKey (onKeys_eq_ok hkey)

/-- **A certificate carries the key pair of whom it is for.** -/
theorem issue_hasKey (h : issue role now a = (.ok fresh, b)) :
    ∃ p s, a.directory.principal? role = some p ∧ a.directory.keySubject? p = some s ∧
      b.keys.HasKey s fresh.key := by
  obtain ⟨plan, a₁, hplan, hsign⟩ := Request.bind_eq_ok.1 h
  obtain ⟨p, hp, hs⟩ := keySubject_of_plan hplan
  exact ⟨p, plan.keySubject, hp, hs, sign_hasKey hsign⟩

/-! ### Rings that grow -/

/-- A request may add key pairs, but takes none away. -/
def GrowsKeys (r : Request Authority α) : Prop :=
  ∀ a : Authority, a.keys.Grows (r a).2.keys

theorem GrowsKeys.of_eq {r : Request Authority α} (h : ∀ a, (r a).2.keys = a.keys) :
    GrowsKeys r := by
  intro a
  rw [h]
  exact .refl a.keys

theorem GrowsKeys.bind {r : Request Authority α} {f : α → Request Authority β} (hr : GrowsKeys r)
    (hf : ∀ x, GrowsKeys (f x)) : GrowsKeys (r >>= f) := by
  intro a
  have hfirst := hr a
  rcases hs : r a with ⟨o, b⟩
  rw [hs] at hfirst
  cases o with
  | error e =>
    rw [Request.bind_error hs]
    exact hfirst
  | ok x =>
    rw [Request.bind_ok hs]
    exact hfirst.trans (hf x b)

theorem sign_growsKeys (plan : Plan) (now : Instant) : GrowsKeys (sign plan now) := by
  unfold sign
  refine .bind (.of_eq fun _ => rfl) fun _ => ?_
  refine .bind (.of_eq fun a => ?_) fun payload => ?_
  · rw [signPayload_eq]
  · refine .bind (fun a => KeyRing.keyFor_grows plan.keySubject a.keys) fun key => ?_
    refine .bind (.of_eq fun _ => rfl) fun serial => ?_
    exact .bind (.of_eq fun a => certify_keys _ a) fun _ => .of_eq fun _ => rfl

theorem issue_growsKeys (role : Role) (now : Instant) : GrowsKeys (issue role now) := by
  refine .bind (.of_eq fun a => ?_) fun plan => sign_growsKeys plan now
  have hplan := plan_result role now a
  generalize plan role now a = answer at hplan
  cases hplan <;> rfl

/-- **No act takes key pairs away.** -/
theorem Act.growsKeys {P : DirectoryChange → Prop} (h : Act P a b) : a.keys.Grows b.keys := by
  cases h with
  | issued role now fresh b h =>
    have hgrows := issue_growsKeys role now a
    rw [h] at hgrows
    exact hgrows
  | refused role now e b h =>
    have hgrows := issue_growsKeys role now a
    rw [h] at hgrows
    exact hgrows
  | _ => exact .refl a.keys

/-- An act leaves everybody the name in the key ring if the changes do that are made. -/
theorem Act.keySubject? (ha : a.Consistent) (h : Act DirectoryChange.KeepsNames a b)
    (p : Principal) : b.directory.keySubject? p = a.directory.keySubject? p := by
  obtain hd | ⟨change, hkeeps, hd⟩ | ⟨id, dirty, hd⟩ := h.directory ha
  · rw [hd]
  · rw [hd, hkeeps]
  · rw [hd, Directory.keySubject?_setDirty]

/-! ### Runs -/

/-- A run, with certificates that it issues and whom they are for, the last one first. Between them
anything may happen that leaves everybody the name in the key ring. -/
inductive Issues (start : Authority) : List (Principal × IssuedCertificate) → Authority → Prop
  | start : Issues start [] start
  | acted {issued : List (Principal × IssuedCertificate)} {a b : Authority}
      (h : Issues start issued a) (hact : Act DirectoryChange.KeepsNames a b) :
      Issues start issued b
  | issued {issued : List (Principal × IssuedCertificate)} {a b : Authority} {role : Role}
      {now : Instant} {fresh : IssuedCertificate} {p : Principal} (h : Issues start issued a)
      (hissue : issue role now a = (.ok fresh, b)) (hp : a.directory.principal? role = some p) :
      Issues start ((p, fresh) :: issued) (b.superseded fresh)

/-- What stays so along a run: everybody has the name of the start in the key ring, and each
certificate carries the key pair that the ring has under the name of whom it is for. -/
structure Kept (start : Authority) (issued : List (Principal × IssuedCertificate))
    (a : Authority) : Prop where
  consistent : a.Consistent
  names : ∀ p, a.directory.keySubject? p = start.directory.keySubject? p
  keys : ∀ x ∈ issued, ∃ s, start.directory.keySubject? x.1 = some s ∧ a.keys.HasKey s x.2.key

theorem Kept.act (h : Kept start issued a) (hact : Act DirectoryChange.KeepsNames a b) :
    Kept start issued b where
  consistent := hact.leads.consistent h.consistent
  names p := (hact.keySubject? h.consistent p).trans (h.names p)
  keys x hx := by
    obtain ⟨s, hs, hkey⟩ := h.keys x hx
    exact ⟨s, hs, hkey.mono hact.growsKeys⟩

theorem Issues.kept (hstart : start.Consistent) (h : Issues start issued a) :
    Kept start issued a := by
  induction h with
  | start => exact ⟨hstart, fun _ => rfl, fun _ h => absurd h List.not_mem_nil⟩
  | acted _ hact ih => exact ih.act hact
  | @issued issued a b role now fresh p _ hissue hp ih =>
    have hact : Act DirectoryChange.KeepsNames a (b.superseded fresh) :=
      .issued role now fresh b hissue
    have hkept := ih.act hact
    refine ⟨hkept.consistent, hkept.names, List.forall_mem_cons.2 ⟨?_, hkept.keys⟩⟩
    obtain ⟨p', s, hp', hs, hkey⟩ := issue_hasKey hissue
    rw [hp] at hp'
    obtain rfl := Option.some.inj hp'
    exact ⟨s, (ih.names p).symm.trans hs, hkey⟩

/-- Certificates carry the same key pair exactly if those whom they are for have the same name in the
key ring. -/
theorem Issues.key_eq_iff (hstart : start.Consistent) (h : Issues start issued a)
    (hp : (p, c) ∈ issued) (hq : (q, c') ∈ issued) : c.key = c'.key ↔
      ∃ s, start.directory.keySubject? p = some s ∧ start.directory.keySubject? q = some s := by
  have hkept := h.kept hstart
  obtain ⟨s, hs, hkey⟩ := hkept.keys _ hp
  obtain ⟨t, ht, hkey'⟩ := hkept.keys _ hq
  dsimp only at hs ht hkey hkey'
  rw [hkey.key_eq_iff hkey']
  constructor
  · rintro rfl
    exact ⟨s, hs, ht⟩
  · rintro ⟨name, hname, hname'⟩
    rw [hs] at hname
    rw [ht] at hname'
    exact (Option.some.inj hname).trans (Option.some.inj hname').symm

/-- **Who shares a key pair.** If everybody is told apart, two certificates carry the same key pair
exactly if they are for the same party, or the one is for a consumer whose uuid reads like the name
of the product or of the owner that the other is for. -/
theorem key_eq_iff_of_issues (hstart : start.Consistent) (hapart : start.directory.Apart)
    (h : Issues start issued a) (hp : (p, c) ∈ issued) (hq : (q, c') ∈ issued) :
    c.key = c'.key ↔
      p = q ∨ start.directory.Borrows p q ∨ start.directory.Borrows q p := by
  have hkept := h.kept hstart
  obtain ⟨s, hs, -⟩ := hkept.keys _ hp
  obtain ⟨t, ht, -⟩ := hkept.keys _ hq
  rw [h.key_eq_iff hstart hp hq, ← hapart.keySubject_eq_iff hs ht]
  dsimp only at hs ht
  simp only [hs, ht, Option.some.injEq]
  exact ⟨fun ⟨_, hname, hname'⟩ => hname.trans hname'.symm, fun hsame => ⟨t, hsame, rfl⟩⟩

end Authority

/-! ### A consumer and a product -/

namespace BorrowedName

open Authority

/-- An owner with a consumer, and a product. -/
def changes (uuid productId : String) : List DirectoryChange :=
  [.addOwner (Sample.owner ⟨0, 0⟩), .addConsumer (Sample.consumer uuid false ⟨0, 0⟩),
    .addProduct { Sample.system 0 with id := productId }]

/-- The records of these. -/
def records (uuid productId : String) : Directory :=
  (changes uuid productId).foldl (fun d c => c.apply d) .empty

variable {uuid productId s : String} {p : Principal} {d : Directory}

/-- In a table with one entry, nothing stands under other keys. -/
theorem get?_single {α : Type} {k k' : String} {v v' : α} :
    ((Table.empty : Table String α).insert k v).get? k' = some v' ↔ k' = k ∧ v' = v := by
  rw [Table.get?_insert, Table.get?_empty]
  split
  · rename_i hk
    simp [hk, eq_comm]
  · rename_i hk
    simp [Ne.symm hk]

theorem uuid?_records : (records uuid productId).uuid? p = some s ↔
    p = .consumer "sample-consumer" ∧ s = uuid := by
  cases p with
  | consumer id =>
    show ((Table.empty.insert _ _).get? id).map _ = some s ↔ _
    simp only [Option.map_eq_some_iff, get?_single, Principal.consumer.injEq]
    constructor
    · rintro ⟨c, ⟨rfl, rfl⟩, rfl⟩
      exact ⟨rfl, rfl⟩
    · rintro ⟨rfl, rfl⟩
      exact ⟨_, ⟨rfl, rfl⟩, rfl⟩
  | _ =>
    constructor
    · intro h
      cases h
    · rintro ⟨h, -⟩
      cases h

/-- Where there is one of each, everybody is told apart. -/
theorem apart_records (uuid productId : String) : (records uuid productId).Apart where
  uuids _ _ _ hp hq := (uuid?_records.1 hp).1.trans (uuid?_records.1 hq).1.symm
  products _ _ _ _ hp hp' _ := (get?_single.1 hp).1.trans (get?_single.1 hp').1.symm
  owners _ _ _ _ ho ho' _ := (get?_single.1 ho).1.trans (get?_single.1 ho').1.symm

/-- What is needed for signing a plan. -/
def IsSignable (p : Plan) : Prop :=
  validateSubject p.subject p.alternateName p.validity = .ok () ∧
    Text.isBlank p.keySubject = false ∧ p.validity.checkRange = .ok ()

theorem exists_issue_of_plan {role : Role} {now : Instant} {p : Plan} {a b : Authority}
    (hplan : plan role now a = (.ok p, b)) (hp : IsSignable p) :
    ∃ fresh c, issue role now a = (.ok fresh, c) := by
  obtain ⟨hsubject, hkey, hrange⟩ := hp
  obtain ⟨fresh, c, hsign⟩ := sign_ok hsubject hkey hrange now b
  exact ⟨fresh, c, (Request.bind_ok hplan).trans hsign⟩

/-- The certificate that says who the consumer is and that of the product can be issued one after
the other. -/
theorem exists_issues (uuid productId : String) {p q : Plan}
    (hp : identityPlan {} (records uuid productId) "sample-consumer" ⟨0, 0⟩ = .ok p)
    (hq : productPlan {} (records uuid productId) productId ⟨0, 0⟩ = .ok q)
    (hsignable : IsSignable p ∧ IsSignable q) :
    ∃ start a c c', Reachable start ∧ start.directory = records uuid productId ∧
      Issues start [(.product productId, c'), (.consumer "sample-consumer", c)] a := by
  have hrecords : (changes uuid productId).foldl (fun d c => c.apply d) Directory.empty =
    records uuid productId := rfl
  obtain ⟨start, hstart, hconfig, hdirectory, -⟩ := exists_stocked hrecords
  have hplan : plan ⟨.identity, "sample-consumer"⟩ ⟨0, 0⟩ start = (.ok p, start) := by
    show (identityPlan start.config start.directory _ _, start) = _
    rw [hconfig, hdirectory]
    exact congrArg (·, start) hp
  obtain ⟨c, b, hc⟩ := exists_issue_of_plan hplan hsignable.1
  obtain ⟨hconfig', hdirectory'⟩ := issue_fixed hc
  -- there is no entitlement whose flag could change
  have hsame : (b.superseded c).directory = records uuid productId := by
    obtain h | h := superseded_records c b
    · rw [h, hdirectory', hdirectory]
    · rw [h, hdirectory', hdirectory, Directory.setDirty_of_none false rfl]
  have hplan' : plan ⟨.product, productId⟩ ⟨0, 0⟩ (b.superseded c) = (.ok q, b.superseded c) := by
    show (productPlan b.config (b.superseded c).directory _ _, b.superseded c) = _
    rw [hconfig', hconfig, hsame, hq]
  obtain ⟨c', b', hc'⟩ := exists_issue_of_plan hplan' hsignable.2
  exact ⟨start, _, c, c', hstart, hdirectory, .issued (.issued .start hc rfl) hc' rfl⟩

/-- A consumer whose uuid is no name of a product does not share its key pair with a product. -/
theorem key_eq_iff_of_issues_sample : ∃ start a c c', Reachable start ∧ start.directory.Apart ∧
    Issues start [(.product "100", c'), (.consumer "sample-consumer", c)] a ∧ c.key ≠ c'.key := by
  obtain ⟨start, a, c, c', hstart, hdirectory, hissues⟩ :=
    exists_issues "sample-uuid" "100" rfl rfl ⟨⟨rfl, rfl, rfl⟩, ⟨rfl, rfl, rfl⟩⟩
  have hapart : start.directory.Apart := hdirectory ▸ apart_records _ _
  refine ⟨start, a, c, c', hstart, hapart, hissues, ?_⟩
  rw [ne_eq, key_eq_iff_of_issues hstart.consistent hapart hissues
    (List.mem_cons_of_mem _ (List.mem_singleton_self _)) List.mem_cons_self, hdirectory]
  rintro (h | ⟨s, huuid, hname⟩ | ⟨s, huuid, -⟩)
  · cases h
  · rw [(uuid?_records.1 huuid).2] at hname
    exact absurd (Option.some.inj hname) (by decide)
  · cases huuid

/-- A consumer whose uuid is the name of a product carries the key pair of that product, although
everybody is told apart and nobody has a blank uuid. -/
theorem key_shared_with_product : ∃ start a c c', Reachable start ∧ start.directory.Apart ∧
    (∀ p s, start.directory.uuid? p = some s → Text.isBlank s = false) ∧
    Issues start [(.product "69", c'), (.consumer "sample-consumer", c)] a ∧ c.key = c'.key := by
  obtain ⟨start, a, c, c', hstart, hdirectory, hissues⟩ :=
    exists_issues "product:69" "69" rfl rfl ⟨⟨rfl, rfl, rfl⟩, ⟨rfl, rfl, rfl⟩⟩
  refine ⟨start, a, c, c', hstart, hdirectory ▸ apart_records _ _, ?_, hissues, ?_⟩
  · intro p s huuid
    rw [hdirectory, uuid?_records] at huuid
    rw [huuid.2]
    rfl
  · rw [hissues.key_eq_iff hstart.consistent
      (List.mem_cons_of_mem _ (List.mem_singleton_self _)) List.mem_cons_self, hdirectory]
    exact ⟨"product:69", rfl, rfl⟩

end BorrowedName

end EntitlementAuthority
