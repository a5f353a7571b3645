import EntitlementAuthority.Issuance.Requests
import Mathlib.Logic.Relation

/-!
# Runs of the authority

Whatever is asked of the authority, and whatever changes among the records that it issues
certificates from, one after the other and in any order.

* `Authority.Step`, `Authority.Reachable` — one operation, and the states that any number of them
  lead to from an authority that has not issued anything.
* `Authority.IsNew` — what every run starts from.
-/

namespace EntitlementAuthority

namespace Authority

/-- One operation at some instant. -/
def Step (a b : Authority) : Prop :=
  ∃ operation now, b = Operation.apply now operation a

/-- The states that operations lead to from an authority that has not issued anything. -/
def Reachable (a : Authority) : Prop :=
  ∃ cryptography config now start, create cryptography config now = .ok start ∧
    Relation.ReflTransGen Step start a

theorem Reachable.of_create {cryptography : Cryptography} {config : Config} {now : Instant}
    {start : Authority} (h : create cryptography config now = .ok start) : Reachable start :=
  ⟨cryptography, config, now, start, h, Relation.ReflTransGen.refl⟩

theorem Reachable.trans {a b : Authority} (h : Reachable a) (hs : Relation.ReflTransGen Step a b) :
    Reachable b := by
  obtain ⟨cryptography, config, now, start, hstart, hrun⟩ := h
  exact ⟨cryptography, config, now, start, hstart, hrun.trans hs⟩

/-- What is so after any change of a record that is allowed is so after any number of them. -/
theorem changes_induction {P : DirectoryChange → Prop} {Q : Authority → Prop}
    (hchange : ∀ {a c}, Q a → P c → Q { a with directory := c.apply a.directory }) {a : Authority}
    (h : Q a) {cs : List DirectoryChange} (hcs : ∀ c ∈ cs, P c) :
    Q { a with directory := cs.foldl (fun d c => c.apply d) a.directory } := by
  induction cs generalizing a with
  | nil => exact h
  | cons c cs ih =>
    rw [List.forall_mem_cons] at hcs
    exact ih (hchange h hcs.1) hcs.2

theorem Reachable.change {a : Authority} (h : Reachable a) (c : DirectoryChange) :
    Reachable { a with directory := c.apply a.directory } :=
  h.trans (Relation.ReflTransGen.single ⟨.change c, ⟨0, 0⟩, rfl⟩)

/-- Any changes of the records can be made in any reachable state. -/
theorem Reachable.changes {a : Authority} (h : Reachable a) (cs : List DirectoryChange) :
    Reachable { a with directory := cs.foldl (fun d c => c.apply d) a.directory } :=
  changes_induction (P := fun _ => True) (fun h _ => h.change _) h fun _ _ => trivial

/-- An authority without records that has not issued anything. -/
structure IsNew (a : Authority) : Prop where
  directory : a.directory = .empty
  serials : a.serials = .empty
  certificates : a.certificates = .empty
  payloads : a.payloads = .ofStore .empty
  anonymousContent : a.anonymousContent.entries = []

theorem AnonymousCache.entries_of_create {capacity lifetime : Nat} {cache : AnonymousCache}
    (h : AnonymousCache.create capacity lifetime = .ok cache) : cache.entries = [] := by
  unfold AnonymousCache.create at h
  split at h
  · cases h
  · cases h
    rfl

theorem IsNew.of_create {cryptography : Cryptography} {config : Config} {now : Instant}
    {a : Authority} (h : create cryptography config now = .ok a) : a.IsNew := by
  unfold create at h
  obtain ⟨ca, -, h⟩ := Outcome.bind_eq_ok.1 h
  obtain ⟨anonymousContent, hcache, h⟩ := Outcome.bind_eq_ok.1 h
  cases h
  exact ⟨rfl, rfl, rfl, rfl, AnonymousCache.entries_of_create hcache⟩

/-- An authority that has not issued anything, before any record is added. -/
theorem exists_start : ∃ start, create .numbered {} ⟨0, 0⟩ = .ok start ∧ start.config = {} ∧
    start.directory = .empty ∧ start.certificates = .empty :=
  ⟨_, rfl, rfl, rfl, rfl⟩

/-- Some authority with some records has not issued anything. -/
theorem exists_stocked_of {P : DirectoryChange → Prop} {Q : Authority → Prop}
    (hcreate : ∀ {cryptography config now start}, create cryptography config now = .ok start →
      Q start)
    (hchange : ∀ {a c}, Q a → P c → Q { a with directory := c.apply a.directory })
    {cs : List DirectoryChange} {d : Directory} (hcs : ∀ c ∈ cs, P c)
    (hd : cs.foldl (fun d c => c.apply d) Directory.empty = d) :
    ∃ a, Q a ∧ a.config = {} ∧ a.directory = d ∧ ∀ role, a.current? role = none := by
  obtain ⟨start, hstart, hconfig, hdirectory, hcertificates⟩ := exists_start
  have h := changes_induction hchange (hcreate hstart) hcs
  rw [hdirectory, hd] at h
  refine ⟨_, h, hconfig, rfl, fun role => ?_⟩
  show start.certificates.get? _ _ = none
  rw [hcertificates]
  rfl

theorem exists_stocked {cs : List DirectoryChange} {d : Directory}
    (hd : cs.foldl (fun d c => c.apply d) Directory.empty = d) :
    ∃ a, Reachable a ∧ a.config = {} ∧ a.directory = d ∧ ∀ role, a.current? role = none :=
  exists_stocked_of (P := fun _ => True) Reachable.of_create (fun h _ => h.change _)
    (fun _ _ => trivial) hd

end Authority

end EntitlementAuthority
