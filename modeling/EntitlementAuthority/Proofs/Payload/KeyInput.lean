import EntitlementAuthority.Payload.Key
import EntitlementAuthority.Proofs.Bytes.Text
import EntitlementAuthority.Proofs.Text.Normal
import EntitlementAuthority.Proofs.Text.Sorted
import Mathlib.Data.Set.Defs

/-!
# What a payload key says

The text under which payloads are kept joins two lists by separators. As long as no item holds a
separator, both lists can be read off it again.

* `IsReadableKey` — no item holds a separator.
* `payloadKeyInput_inj` — readable keys are the same only for the same architectures and the same
  environments.
* `archNames` — the architectures of a list as a set, said without sorting them.
* `payloadKeyInput_eq_iff` — of architectures the key says which there are, of environments it says
  their order as well.
-/

namespace EntitlementAuthority

/-- What stands between the architectures and the environments. -/
def environmentsMarker : String := "-environments:"

/-- No architecture and no environment holds what separates them in a payload key. -/
def IsReadableKey (arches environmentIds : List String) : Prop :=
  (∀ a ∈ archSet arches, ',' ∉ a.toList ∧ Text.containsText environmentsMarker a = false) ∧
    ∀ e ∈ environmentIds, Text.IsListable e

instance (arches environmentIds : List String) : Decidable (IsReadableKey arches environmentIds) :=
  inferInstanceAs (Decidable (_ ∧ _))

theorem ne_empty_of_mem_archSet {arches : List String} {a : String} (h : a ∈ archSet arches) :
    a ≠ "" := by
  rw [archSet, Text.mem_sortedSet, List.mem_filter] at h
  intro he
  rw [he] at h
  exact Bool.false_ne_true h.2

theorem IsReadableKey.listable {arches environmentIds : List String}
    (h : IsReadableKey arches environmentIds) : ∀ a ∈ archSet arches, Text.IsListable a := by
  intro a ha
  exact ⟨ne_empty_of_mem_archSet ha, (h.1 a ha).1⟩

theorem environmentsMarker_toList :
    environmentsMarker.toList = '-' :: "environments:".toList := by decide

/-- The marker is not part of the joined architectures. -/
theorem IsReadableKey.not_infix {arches environmentIds : List String}
    (h : IsReadableKey arches environmentIds) :
    ¬ environmentsMarker.toList <:+: (Text.joinWith "," (archSet arches)).toList := by
  intro hin
  have hin : environmentsMarker.toList <:+:
      List.intercalate [','] ((archSet arches).map String.toList) := by
    rw [Text.joinWith, String.toList_ofList] at hin
    exact hin
  obtain ⟨f, hf, hin⟩ := Text.infix_of_infix_intercalate (by decide) (by decide) hin
  obtain ⟨a, ha, rfl⟩ := List.mem_map.1 hf
  have hno := (h.1 a ha).2
  rw [Text.containsText_iff.2 hin] at hno
  exact absurd hno (by decide)

/-- The two halves of a readable key are those at the first marker. -/
theorem IsReadableKey.cutAt? {arches environmentIds : List String}
    (h : IsReadableKey arches environmentIds) :
    Text.cutAt? environmentsMarker.toList
        ((Text.joinWith "," (archSet arches)).toList ++
          (environmentsMarker.toList ++ (Text.joinWith "," environmentIds).toList)) =
      some ((Text.joinWith "," (archSet arches)).toList,
        (Text.joinWith "," environmentIds).toList) := by
  have hnot := h.not_infix
  rw [environmentsMarker_toList] at hnot ⊢
  exact Text.cutAt?_append _ (by decide) hnot

theorem payloadKeyInput_toList (arches environmentIds : List String) :
    (payloadKeyInput arches environmentIds).toList = "arches:".toList ++
      ((Text.joinWith "," (archSet arches)).toList ++
        (environmentsMarker.toList ++ (Text.joinWith "," environmentIds).toList)) := by
  simp only [payloadKeyInput, environmentsMarker, String.toList_append, List.append_assoc]

/-- Readable keys are the same only for the same architectures and environments. -/
theorem payloadKeyInput_inj {arches arches' environmentIds environmentIds' : List String}
    (h : IsReadableKey arches environmentIds) (h' : IsReadableKey arches' environmentIds')
    (he : payloadKeyInput arches environmentIds = payloadKeyInput arches' environmentIds') :
    archSet arches = archSet arches' ∧ environmentIds = environmentIds' := by
  have hchars := congrArg String.toList he
  rw [payloadKeyInput_toList, payloadKeyInput_toList] at hchars
  have hcut := congrArg (Text.cutAt? environmentsMarker.toList) (List.append_cancel_left hchars)
  rw [h.cutAt?, h'.cutAt?] at hcut
  simp only [Option.some.injEq, Prod.mk.injEq, String.toList_inj] at hcut
  exact ⟨Text.joinWith_comma_inj h.listable h'.listable hcut.1,
    Text.joinWith_comma_inj h.2 h'.2 hcut.2⟩

/-! ### Architectures as a set -/

/-- The architectures that a list names, trimmed and in lower case; blank items name none. -/
def archNames (arches : List String) : Set String :=
  {name | ∃ a ∈ arches, Text.isBlank a = false ∧ Text.lower (Text.trim a) = name}

section ArchNames

variable {arches arches' : List String}

theorem mem_archSet_iff {name : String} : name ∈ archSet arches ↔ name ∈ archNames arches := by
  have hblank : ∀ a, (Text.lower (Text.trim a)).isEmpty = Text.isBlank a := fun a => by
    rw [Bool.eq_iff_iff, String.isEmpty_iff, Text.lower_eq_empty_iff, Text.trim_eq_empty_iff]
  simp only [archSet, archNames, Text.mem_sortedSet, List.mem_filter, List.mem_map,
    Set.mem_ofPred_eq, Bool.not_eq_true']
  constructor
  · rintro ⟨⟨a, ha, rfl⟩, hname⟩
    exact ⟨a, ha, hblank a ▸ hname, rfl⟩
  · rintro ⟨a, ha, hname, rfl⟩
    exact ⟨⟨a, ha, rfl⟩, (hblank a).trans hname⟩

/-- Lists name the same architectures exactly if they are the same once sorted out. -/
theorem archSet_eq_iff : archSet arches = archSet arches' ↔ archNames arches = archNames arches' := by
  constructor
  · intro h
    ext name
    rw [← mem_archSet_iff, h, mem_archSet_iff]
  · intro h
    refine (Text.sortedSet_increasing _).eq_of_mem_iff (Text.sortedSet_increasing _) fun name => ?_
    show name ∈ archSet arches ↔ name ∈ archSet arches'
    rw [mem_archSet_iff, h, mem_archSet_iff]

/-- Neither order nor case nor blanks nor repetitions of architectures count. -/
theorem payloadKeyInput_congr (h : archNames arches = archNames arches')
    (environmentIds : List String) :
    payloadKeyInput arches environmentIds = payloadKeyInput arches' environmentIds := by
  rw [payloadKeyInput, archSet_eq_iff.2 h, ← payloadKeyInput]

end ArchNames

/-! ### Digests of keys -/

/-- The digest tells two texts apart, unless they are the same. -/
def Sha256.TellsApart (s t : String) : Prop :=
  Sha256.digest (Bytes.ofText s) = Sha256.digest (Bytes.ofText t) → s = t

/-- Of two texts that the digest tells apart, the keys are the same only if the texts are. -/
theorem payloadKey_eq_iff {version : Nat}
    {arches arches' environmentIds environmentIds' : List String}
    (h : Sha256.TellsApart (payloadKeyInput arches environmentIds)
      (payloadKeyInput arches' environmentIds')) :
    payloadKey version arches environmentIds = payloadKey version arches' environmentIds' ↔
      payloadKeyInput arches environmentIds = payloadKeyInput arches' environmentIds' := by
  constructor
  · intro hkey
    exact h (Bytes.toHex_injective (String.append_right_inj _ |>.1 hkey))
  · intro hinput
    rw [payloadKey, hinput, ← payloadKey]

/-- **What a payload key says.** Two readable keys are made from the same text exactly if the
environments are the same in the same order and the architectures are the same as a set. The keys
themselves are then the same as well, and no others are as long as the digest tells their texts
apart. -/
theorem payloadKeyInput_eq_iff {arches arches' environmentIds environmentIds' : List String}
    (h : IsReadableKey arches environmentIds) (h' : IsReadableKey arches' environmentIds') :
    (payloadKeyInput arches environmentIds = payloadKeyInput arches' environmentIds' ↔
        environmentIds = environmentIds' ∧ archNames arches = archNames arches') ∧
      (Sha256.TellsApart (payloadKeyInput arches environmentIds)
          (payloadKeyInput arches' environmentIds') →
        ∀ version, payloadKey version arches environmentIds =
            payloadKey version arches' environmentIds' ↔
          environmentIds = environmentIds' ∧ archNames arches = archNames arches') := by
  have hinput : payloadKeyInput arches environmentIds = payloadKeyInput arches' environmentIds' ↔
      environmentIds = environmentIds' ∧ archNames arches = archNames arches' := by
    constructor
    · intro he
      obtain ⟨harches, henvironments⟩ := payloadKeyInput_inj h h' he
      exact ⟨henvironments, archSet_eq_iff.1 harches⟩
    · rintro ⟨rfl, harches⟩
      exact payloadKeyInput_congr harches _
  exact ⟨hinput, fun happart version => (payloadKey_eq_iff happart).trans hinput⟩

/-- The same architectures, spelled in two ways: only the order of the environments counts. -/
theorem payloadKeyInput_eq_iff_spellings :
    IsReadableKey [" X86_64", "", "noarch", "x86_64\u00a0"] ["env-2", "env-1"] ∧
      IsReadableKey ["NoArch", "x86_64"] ["env-2", "env-1"] ∧
      IsReadableKey ["NoArch", "x86_64"] ["env-1", "env-2"] ∧
      payloadKey 1 [" X86_64", "", "noarch", "x86_64\u00a0"] ["env-2", "env-1"] =
        payloadKey 1 ["NoArch", "x86_64"] ["env-2", "env-1"] ∧
      payloadKeyInput [" X86_64", "", "noarch", "x86_64\u00a0"] ["env-2", "env-1"] ≠
        payloadKeyInput ["NoArch", "x86_64"] ["env-1", "env-2"] := by
  have hspelled : IsReadableKey [" X86_64", "", "noarch", "x86_64\u00a0"] ["env-2", "env-1"] := by
    decide +kernel
  have hplain : IsReadableKey ["NoArch", "x86_64"] ["env-2", "env-1"] := by decide
  have hswapped : IsReadableKey ["NoArch", "x86_64"] ["env-1", "env-2"] := by decide
  have hnames : archNames [" X86_64", "", "noarch", "x86_64\u00a0"] =
      archNames ["NoArch", "x86_64"] := archSet_eq_iff.1 (by decide +kernel)
  refine ⟨hspelled, hplain, hswapped, ?_, ?_⟩
  · obtain ⟨hinput, hkey⟩ := payloadKeyInput_eq_iff hspelled hplain
    exact (hkey (fun _ => hinput.2 ⟨rfl, hnames⟩) 1).2 ⟨rfl, hnames⟩
  · intro he
    exact absurd ((payloadKeyInput_eq_iff hspelled hswapped).1.1 he).1 (by decide)

end EntitlementAuthority
