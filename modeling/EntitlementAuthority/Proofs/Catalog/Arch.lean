import EntitlementAuthority.Catalog.Arch
import EntitlementAuthority.Proofs.Text.Normal

/-!
# Machines that are served alike

* `Arch.machine` — the architecture of a machine as it is compared.
* `Arch.Alike` — machines of one architecture, of the x86 family or of universal architectures.
* `Arch.alike_iff` — they are the machines that contents cannot tell apart.
-/

namespace EntitlementAuthority.Arch

/-- The architecture of a machine as it is compared with those of contents, if it is known. -/
def machine (arch : Option String) : Option String :=
  (Text.nonBlank? arch).map Text.trim

/-- Two architectures that the same architectures serve. -/
def Kin (a b : String) : Prop :=
  a = b ∨ (isX86 a = true ∧ isX86 b = true) ∨ (a ∈ universal ∧ b ∈ universal)

instance (a b : String) : Decidable (Kin a b) :=
  inferInstanceAs (Decidable (_ ∨ _))

/-- Machines of kin architectures, or two whose architectures are not known. -/
def AlikeMachines : Option String → Option String → Prop
  | none, none => True
  | some a, some b => Kin a b
  | none, some _ => False
  | some _, none => False

instance : (m m' : Option String) → Decidable (AlikeMachines m m')
  | none, none => inferInstanceAs (Decidable True)
  | some a, some b => inferInstanceAs (Decidable (Kin a b))
  | none, some _ => inferInstanceAs (Decidable False)
  | some _, none => inferInstanceAs (Decidable False)

/-- Two machines that the same contents serve. -/
def Alike (arch arch' : Option String) : Prop :=
  AlikeMachines (machine arch) (machine arch')

instance (arch arch' : Option String) : Decidable (Alike arch arch') :=
  inferInstanceAs (Decidable (AlikeMachines _ _))

theorem isCompatible_eq (content : List String) (arch : Option String) :
    isCompatible content arch =
      (machine arch).all fun a => content.isEmpty || content.any fun c => serves c a := by
  unfold isCompatible machine
  cases Text.nonBlank? arch <;> rfl

/-! ### Architectures -/

theorem serves_iff {c a : String} :
    serves c a = true ↔ c = a ∨ c ∈ universal ∨ (isX86 c = true ∧ isX86 a = true) := by
  simp [serves, or_assoc]

theorem isX86_eq_false_of_universal {a : String} (h : a ∈ universal) : isX86 a = false := by
  rcases List.mem_cons.1 h with rfl | h
  · decide
  · obtain rfl := List.mem_singleton.1 h
    decide

theorem Kin.symm {a b : String} (h : Kin a b) : Kin b a := by
  rcases h with rfl | ⟨ha, hb⟩ | ⟨ha, hb⟩
  · exact .inl rfl
  · exact .inr (.inl ⟨hb, ha⟩)
  · exact .inr (.inr ⟨hb, ha⟩)

theorem Kin.serves_of_serves {a b c : String} (h : Kin a b) (hc : serves c a = true) :
    serves c b = true := by
  rcases h with rfl | ⟨ha, hb⟩ | ⟨ha, hb⟩
  · exact hc
  · rw [serves_iff] at hc ⊢
    rcases hc with rfl | hc | ⟨hc, -⟩
    · exact .inr (.inr ⟨ha, hb⟩)
    · exact .inr (.inl hc)
    · exact .inr (.inr ⟨hc, hb⟩)
  · rw [serves_iff] at hc ⊢
    rcases hc with rfl | hc | ⟨-, hx86⟩
    · exact .inr (.inl ha)
    · exact .inr (.inl hc)
    · rw [isX86_eq_false_of_universal ha] at hx86
      cases hx86

theorem Kin.serves_eq {a b : String} (h : Kin a b) (c : String) : serves c a = serves c b := by
  rw [Bool.eq_iff_iff]
  exact ⟨h.serves_of_serves, h.symm.serves_of_serves⟩

/-- Architectures that serve each other's machines are kin. -/
theorem kin_of_serves {a b : String} (hab : serves a b = true) (hba : serves b a = true) :
    Kin a b := by
  rw [serves_iff] at hab hba
  rcases hab with rfl | ha | hx86
  · exact .inl rfl
  · rcases hba with rfl | hb | ⟨hx86, hx86'⟩
    · exact .inl rfl
    · exact .inr (.inr ⟨ha, hb⟩)
    · exact .inr (.inl ⟨hx86', hx86⟩)
  · exact .inr (.inl hx86)

/-- No architecture is served by everything. -/
theorem exists_not_serves (a : String) :
    ∃ c, Text.IsListable c ∧ Text.trim c = c ∧ serves c a = false := by
  by_cases ha : a = "x86_64"
  · refine ⟨"ppc64", by decide, by decide, ?_⟩
    rw [ha]
    decide
  · refine ⟨"x86_64", by decide, by decide, ?_⟩
    rw [← Bool.not_eq_true, serves_iff]
    rintro (h | h | ⟨h, -⟩)
    · exact ha h.symm
    · exact absurd h (by decide)
    · exact absurd h (by decide)

theorem parseList_trimmed {c : String} (h : Text.IsListable c) (htrim : Text.trim c = c) :
    parseList (some c) = [c] := by
  unfold parseList
  rw [Option.getD_some, Text.listItems_trimmed h htrim]
  rfl

/-! ### Machines -/

theorem trim_machine {arch : Option String} {a : String} (h : machine arch = some a) :
    Text.trim a = a ∧ a ≠ "" := by
  obtain ⟨s, hs, rfl⟩ := Option.map_eq_some_iff.1 h
  obtain ⟨-, hblank⟩ := Option.filter_eq_some_iff.1 hs
  refine ⟨Text.trim_trim s, ?_⟩
  intro hempty
  rw [Text.trim_eq_empty_iff.1 hempty] at hblank
  exact absurd hblank (by decide)

/-- A content for one architecture. -/
theorem isCompatible_one {c : String} (h : Text.IsListable c) (htrim : Text.trim c = c)
    (arch : Option String) :
    isCompatible (parseList (some c)) arch = (machine arch).all fun a => serves c a := by
  rw [isCompatible_eq, parseList_trimmed h htrim]
  simp

theorem isCompatible_eq_of_alike {arch arch' : Option String} (h : Alike arch arch')
    (content : List String) : isCompatible content arch = isCompatible content arch' := by
  rw [isCompatible_eq, isCompatible_eq]
  unfold Alike at h
  generalize machine arch = m at h
  generalize machine arch' = m' at h
  cases m with
  | none =>
    cases m' with
    | none => rfl
    | some b => exact h.elim
  | some a =>
    cases m' with
    | none => exact h.elim
    | some b =>
      have hserves : (fun c => serves c a) = fun c => serves c b := funext h.serves_eq
      rw [Option.all_some, Option.all_some, hserves]

/-- Not every content is for a machine whose architecture is known. -/
theorem exists_not_isCompatible {arch : Option String} {a : String} (h : machine arch = some a) :
    ∃ value, isCompatible (parseList value) arch = false := by
  obtain ⟨c, hlistable, htrim, hc⟩ := exists_not_serves a
  refine ⟨some c, ?_⟩
  rw [isCompatible_one hlistable htrim, h, Option.all_some, hc]

theorem isCompatible_of_unknown {arch : Option String} (h : machine arch = none)
    (content : List String) : isCompatible content arch = true := by
  rw [isCompatible_eq, h]
  rfl

/-- **Alike are the machines that contents cannot tell apart.** A machine whose architecture holds a
comma is left out: no content can be for it alone. -/
theorem alike_iff {arch arch' : Option String} (h : ∀ a, machine arch = some a → ',' ∉ a.toList)
    (h' : ∀ a, machine arch' = some a → ',' ∉ a.toList) :
    Alike arch arch' ↔
      ∀ value, isCompatible (parseList value) arch = isCompatible (parseList value) arch' := by
  constructor
  · intro halike value
    exact isCompatible_eq_of_alike halike (parseList value)
  · intro hsame
    unfold Alike
    cases hm : machine arch with
    | none =>
      cases hm' : machine arch' with
      | none => trivial
      | some b =>
        obtain ⟨value, hvalue⟩ := exists_not_isCompatible hm'
        rw [← hsame value, isCompatible_of_unknown hm] at hvalue
        cases hvalue
    | some a =>
      cases hm' : machine arch' with
      | none =>
        obtain ⟨value, hvalue⟩ := exists_not_isCompatible hm
        rw [hsame value, isCompatible_of_unknown hm'] at hvalue
        cases hvalue
      | some b =>
        have hone : ∀ c, Text.IsListable c → Text.trim c = c → serves c a = serves c b := by
          intro c hlistable htrim
          have hc := hsame (some c)
          rw [isCompatible_one hlistable htrim, isCompatible_one hlistable htrim, hm, hm'] at hc
          exact hc
        obtain ⟨htrim, hne⟩ := trim_machine hm
        obtain ⟨htrim', hne'⟩ := trim_machine hm'
        refine kin_of_serves ?_ ?_
        · rw [← hone a ⟨hne, h a hm⟩ htrim]
          exact serves_iff.2 (.inl rfl)
        · rw [hone b ⟨hne', h' b hm'⟩ htrim']
          exact serves_iff.2 (.inl rfl)

end EntitlementAuthority.Arch
