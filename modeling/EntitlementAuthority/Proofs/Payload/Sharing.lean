import EntitlementAuthority.Issuance.Sample
import EntitlementAuthority.Proofs.Body.Views
import EntitlementAuthority.Proofs.Catalog.Arch
import EntitlementAuthority.Proofs.Payload.KeyInput

/-!
# Shared payloads

Consumers of one owner with the same payload key are given the same payload. The theorems here say
for which of them it is the one that each would have got alone.

* `owedPayload` — the body of the payload that a consumer would get alone.
* `ContentAccess.payloadBody_eq_iff` — two payloads are the same exactly if every content that the
  owner has is in both or in neither, under the same path and with the same flag.
* `payloadBody_eq_iff_of_sameKey` — under one readable key only the architectures of the machines
  decide; the key holds them as a set together with those that the machines support besides.
-/

namespace EntitlementAuthority

/-- Whether a content is for the architecture of the machine. -/
def Consumer.fits (c : Consumer) (content : Content) : Bool :=
  Arch.isCompatible (Arch.parseList content.arches) c.arch

namespace ContentAccess

/-- A consumer with its owner and the environments that the directory has for it. -/
def ofConsumer (d : Directory) (owner : Owner) (c : Consumer) : ContentAccess :=
  ⟨c, owner, d.environmentsOf c⟩

/-- Whether two consumers would be shown a content under the same path and with the same flag. -/
def PlacesAlike (config : Config) (d : Directory) (x y : ContentAccess) (pc : ProductContent) :
    Prop :=
  (x.view config).promoted.path pc.content = (y.view config).promoted.path pc.content ∧
    (x.view config).contentEnabled (everything d x.owner) pc =
      (y.view config).contentEnabled (everything d x.owner) pc

variable {config : Config} {d : Directory} {x y : ContentAccess}

/-- Simple access leaves only the architecture to decide. -/
theorem shows_view (c : Content) : (x.view config).shows c = x.consumer.fits c := by
  have hentitled : (x.view config).isEntitled c = true := rfl
  have hunhidden : (x.view config).isUnhidden c = true := rfl
  rw [ContentView.shows, hentitled, hunhidden, Bool.true_and, Bool.true_and]
  rfl

theorem payloadBody_eq_iff_contentModels (h : x.owner = y.owner) :
    x.payloadBody config d = y.payloadBody config d ↔
      (x.view config).contentModels (everything d x.owner) (everything d x.owner) =
        (y.view config).contentModels (everything d x.owner) (everything d x.owner) := by
  simp only [payloadBody, EntitlementBody.contentOnly, ContentView.mapProduct, ← h,
    EntitlementBody.mk.injEq, ProductModel.mk.injEq, List.cons.injEq, true_and, and_true]

/-- **Two payloads are the same** exactly if every content that the owner has is in both or in
neither, under the same path and with the same flag. -/
theorem payloadBody_eq_iff (h : x.owner = y.owner) :
    x.payloadBody config d = y.payloadBody config d ↔
      ∀ pc ∈ d.activeContent x.owner.id, x.consumer.fits pc.content = y.consumer.fits pc.content ∧
        (x.consumer.fits pc.content = true → PlacesAlike config d x y pc) := by
  have honce : firstContents [] (everything d x.owner).contents = d.activeContent x.owner.id :=
    firstContents_mergeContents _
  rw [payloadBody_eq_iff_contentModels h, ContentView.contentModels_eq_iff, honce]
  simp only [ContentView.ShowsAlike, shows_view, PlacesAlike]

/-- Consumers in the same environments are shown every content in the same place. -/
theorem placesAlike_of_environmentIds_eq {owner : Owner} {c₁ c₂ : Consumer}
    (h : c₁.environmentIds = c₂.environmentIds) (pc : ProductContent) :
    PlacesAlike config d (ofConsumer d owner c₁) (ofConsumer d owner c₂) pc := by
  have henvironments : d.environmentsOf c₁ = d.environmentsOf c₂ := by
    rw [Directory.environmentsOf, h, Directory.environmentsOf]
  have hpromoted : ((ofConsumer d owner c₁).view config).promoted =
      ((ofConsumer d owner c₂).view config).promoted := by
    simp only [view, ofConsumer, henvironments]
  have hin : ((ofConsumer d owner c₁).view config).hasEnvironments =
      ((ofConsumer d owner c₂).view config).hasEnvironments := by
    simp only [ContentView.hasEnvironments, view, ofConsumer, Option.any_some, h]
  refine ⟨by rw [hpromoted], ?_⟩
  rw [ContentView.contentEnabled, ContentView.contentEnabled, hin, hpromoted]
  rfl

end ContentAccess

/-- The body of the payload that a consumer would get alone. -/
def owedPayload (config : Config) (d : Directory) (owner : Owner) (c : Consumer) :
    EntitlementBody :=
  (ContentAccess.ofConsumer d owner c).payloadBody config d

/-! ### Owners with one content -/

/-- A content for some architectures. -/
def contentFor (n : Nat) (arches : Option String) : ProductContent :=
  let pc := Sample.content n
  { pc with content := { pc.content with arches } }

/-- A pool of an owner with some contents. -/
def poolWith (ownerId : String) (contents : List ProductContent) : Pool :=
  { Sample.pool 0 ⟨0, 0⟩ with ownerId, product := { Sample.system 0 with contents } }

/-- The records of an owner with one content. -/
def oneContent (ownerId : String) (pc : ProductContent) : Directory :=
  Directory.empty.addPool (poolWith ownerId [pc])

theorem activeContent_oneContent (ownerId : String) (pc : ProductContent) :
    (oneContent ownerId pc).activeContent ownerId = [pc] := by
  have hpools : (oneContent ownerId pc).pools.values = [poolWith ownerId [pc]] := rfl
  have howned : ([poolWith ownerId [pc]].filter fun p => p.ownerId == ownerId) =
      [poolWith ownerId [pc]] := by
    simp [poolWith]
  unfold Directory.activeContent
  rw [hpools, howned]
  rfl

/-! ### Consumers with the same key -/

section SameKey

variable {config : Config} {owner : Owner} {c₁ c₂ : Consumer}

/-- In a readable key, the architecture of the machine has no comma. -/
theorem IsReadableKey.machine {c : Consumer} {environmentIds : List String}
    (h : IsReadableKey c.allArches environmentIds) {a : String}
    (ha : Arch.machine c.arch = some a) : ',' ∉ a.toList := by
  obtain ⟨htrim, hne⟩ := Arch.trim_machine ha
  obtain ⟨s, hs, rfl⟩ := Option.map_eq_some_iff.1 ha
  obtain ⟨harch, -⟩ := Option.filter_eq_some_iff.1 hs
  have hmem : s ∈ c.allArches := by
    unfold Consumer.allArches
    rw [harch]
    exact List.mem_append_left _ List.mem_cons_self
  have hset : Text.lower (Text.trim s) ∈ archSet c.allArches := by
    refine mem_archSet_iff.2 ⟨s, hmem, Bool.eq_false_iff.2 ?_, rfl⟩
    intro hblank
    exact hne (Text.trim_eq_empty_iff.2 hblank)
  intro hcomma
  exact (h.1 _ hset).1 (Text.mem_lower (by decide) (by decide) hcomma)

theorem owedPayload_eq_iff (d : Directory) :
    owedPayload config d owner c₁ = owedPayload config d owner c₂ ↔
      ∀ pc ∈ d.activeContent owner.id, c₁.fits pc.content = c₂.fits pc.content ∧
        (c₁.fits pc.content = true → ContentAccess.PlacesAlike config d
          (.ofConsumer d owner c₁) (.ofConsumer d owner c₂) pc) :=
  ContentAccess.payloadBody_eq_iff rfl

/-- In the same environments, only the machines decide. -/
theorem owedPayload_eq_iff_of_environmentIds_eq (h : c₁.environmentIds = c₂.environmentIds)
    (d : Directory) :
    owedPayload config d owner c₁ = owedPayload config d owner c₂ ↔
      ∀ pc ∈ d.activeContent owner.id, c₁.fits pc.content = c₂.fits pc.content := by
  rw [owedPayload_eq_iff]
  constructor
  · intro h pc hpc
    exact (h pc hpc).1
  · intro hfits pc hpc
    exact ⟨hfits pc hpc, fun _ => ContentAccess.placesAlike_of_environmentIds_eq h pc⟩

/-- Machines that are alike are owed the same, whatever the owner has, and others are not. -/
theorem owedPayload_eq_iff_alike (henvironments : c₁.environmentIds = c₂.environmentIds)
    (h₁ : IsReadableKey c₁.allArches c₁.environmentIds)
    (h₂ : IsReadableKey c₂.allArches c₂.environmentIds) :
    (∀ d, owedPayload config d owner c₁ = owedPayload config d owner c₂) ↔
      Arch.Alike c₁.arch c₂.arch := by
  rw [Arch.alike_iff (fun a => h₁.machine) (fun a => h₂.machine)]
  constructor
  · intro h value
    have hone := (owedPayload_eq_iff_of_environmentIds_eq henvironments _).1
      (h (oneContent owner.id (contentFor 0 value)))
    rw [activeContent_oneContent] at hone
    exact hone (contentFor 0 value) List.mem_cons_self
  · intro h d
    refine (owedPayload_eq_iff_of_environmentIds_eq henvironments d).2 ?_
    intro pc _
    exact h pc.content.arches

end SameKey

/-! ### A host and a guest -/

namespace SharedKey

/-- An owner whose consumers need no entitlements. -/
def owner : Owner :=
  { Sample.owner ⟨0, 0⟩ with accessMode := .orgEnvironment }

/-- A consumer that says of which architecture it is and which one it supports besides. -/
def consumer (id machine supported : String) : Consumer :=
  { Sample.consumer id false ⟨0, 0⟩ with
    id
    facts := Table.ofList [("uname.machine", machine), ("supported_architectures", supported)] }

/-- The records of the owner: one content for each of two architectures. -/
def directory : Directory :=
  Directory.empty.addOwner owner |>.addPool
    (poolWith owner.id [contentFor 0 (some "x86_64"), contentFor 1 (some "i686")])

end SharedKey

/-- **What consumers with the same key share.** Their payloads are the same exactly if every
content that the owner has fits both machines or neither, and those that fit are placed alike. If
the keys are readable, the consumers are in the same environments and only the machines decide; the
payloads are then the same for whatever the owner has exactly if the machines are alike. -/
theorem payloadBody_eq_iff_of_sameKey (config : Config) (owner : Owner) {c₁ c₂ : Consumer}
    (hkey : payloadKeyInput c₁.allArches c₁.environmentIds =
      payloadKeyInput c₂.allArches c₂.environmentIds) :
    (∀ d, owedPayload config d owner c₁ = owedPayload config d owner c₂ ↔
        ∀ pc ∈ d.activeContent owner.id, c₁.fits pc.content = c₂.fits pc.content ∧
          (c₁.fits pc.content = true → ContentAccess.PlacesAlike config d
            (.ofConsumer d owner c₁) (.ofConsumer d owner c₂) pc)) ∧
      (IsReadableKey c₁.allArches c₁.environmentIds →
        IsReadableKey c₂.allArches c₂.environmentIds →
        c₁.environmentIds = c₂.environmentIds ∧
          (∀ d, owedPayload config d owner c₁ = owedPayload config d owner c₂ ↔
            ∀ pc ∈ d.activeContent owner.id, c₁.fits pc.content = c₂.fits pc.content) ∧
          ((∀ d, owedPayload config d owner c₁ = owedPayload config d owner c₂) ↔
            Arch.Alike c₁.arch c₂.arch)) := by
  refine ⟨owedPayload_eq_iff, ?_⟩
  intro h₁ h₂
  obtain ⟨-, henvironments⟩ := payloadKeyInput_inj h₁ h₂ hkey
  exact ⟨henvironments, owedPayload_eq_iff_of_environmentIds_eq henvironments,
    owedPayload_eq_iff_alike henvironments h₁ h₂⟩

open SharedKey

theorem payloadBody_eq_iff_of_sameKey_x86 :
    (payloadKeyInput (consumer "a" "i686" "i386").allArches [] =
        payloadKeyInput (consumer "b" "i386" "i686").allArches []) ∧
      ∀ d, owedPayload {} d owner (consumer "a" "i686" "i386") =
        owedPayload {} d owner (consumer "b" "i386" "i686") := by
  have hkey : payloadKeyInput (consumer "a" "i686" "i386").allArches [] =
      payloadKeyInput (consumer "b" "i386" "i686").allArches [] := by decide
  refine ⟨hkey, ?_⟩
  obtain ⟨-, hreadable⟩ := payloadBody_eq_iff_of_sameKey {} owner hkey
  obtain ⟨-, -, halike⟩ := hreadable (by decide) (by decide)
  exact halike.2 (by decide)

/-- A machine of one architecture that supports another, and one the other way round, have the same
key but are owed different payloads. -/
theorem payloadBody_ne_of_sameKey :
    (consumer "a" "x86_64" "i686").ownerId = owner.id ∧
      (consumer "b" "i686" "x86_64").ownerId = owner.id ∧
      payloadKeyInput (consumer "a" "x86_64" "i686").allArches [] =
        payloadKeyInput (consumer "b" "i686" "x86_64").allArches [] ∧
      owedPayload {} directory owner (consumer "a" "x86_64" "i686") ≠
        owedPayload {} directory owner (consumer "b" "i686" "x86_64") := by
  refine ⟨rfl, rfl, ?_, ?_⟩
  · decide
  · decide

end EntitlementAuthority
