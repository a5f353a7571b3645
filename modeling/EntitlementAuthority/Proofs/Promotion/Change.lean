import EntitlementAuthority.Proofs.Issuance.Run
import Mathlib.Data.List.Basic

/-!
# Changes of promotions

Promotions are made and taken back, each at some instant. What they leave behind can be told by the
stamps of the environments.

* `PromotionChange` — a promotion that is made or taken back.
* `PromotionChange.run` — the records after several of them.
* `PromotionChange.LaterThan` — what changes after an instant leave behind.
* `PromotionChange.LaterThan.environmentsOf_eq` — environments without later stamps are unchanged.
-/

namespace EntitlementAuthority

namespace Directory

variable {d : Directory} {id : String} (f : Environment → Environment)

theorem find_eq_ok {α : Type} {what : String} {records : Table String α} {x : α} :
    find what records id = .ok x ↔ records.get? id = some x := by
  unfold find
  cases records.get? id <;> simp

theorem updateEnvironment_of_some {e : Environment} (h : d.environments.get? id = some e) :
    updateEnvironment id f d =
      (.ok (), { d with environments := d.environments.insert id (f e) }) := by
  have hread : d.environment id = .ok e := find_eq_ok.2 h
  unfold updateEnvironment
  rw [Request.bind_ok (by rw [Request.read_apply, hread])]
  rfl

theorem updateEnvironment_of_none (h : d.environments.get? id = none) :
    updateEnvironment id f d = (.error (.notFound ("environment" ++ " " ++ id)), d) := by
  have hread : d.environment id = .error (.notFound ("environment" ++ " " ++ id)) := by
    unfold Directory.environment Directory.find
    rw [h]
  unfold updateEnvironment
  rw [Request.bind_error (by rw [Request.read_apply, hread])]

end Directory

/-- A promotion that is made or taken back. -/
structure PromotionChange where
  environmentId : String
  contentId : String
  /-- The promotion that is made; none if there shall be none. -/
  promotion : Option Promotion
  moment : Instant

namespace PromotionChange

variable {c : PromotionChange} {cs : List PromotionChange} {d d' d'' : Directory} {t : Instant}
  {consumer : Consumer}

/-- The environment after the change. -/
def on (c : PromotionChange) (e : Environment) : Environment :=
  match c.promotion with
  | some p => e.promote c.contentId p.enabled c.moment
  | none => e.demote c.contentId c.moment

/-- The change as a change of the records. -/
def change (c : PromotionChange) : DirectoryChange :=
  .updateEnvironment c.environmentId c.on

/-- The records after several changes. -/
def run (cs : List PromotionChange) (d : Directory) : Directory :=
  cs.foldl (fun d c => c.change.apply d) d

/-- A change stamps the environment or does nothing. -/
theorem on_eq_or (c : PromotionChange) (e : Environment) :
    c.on e = e ∨ (c.on e).contentUpdated = c.moment := by
  unfold on
  cases c.promotion with
  | some p => exact .inr rfl
  | none =>
    dsimp only
    unfold Environment.demote
    split
    · exact .inr rfl
    · exact .inl rfl

/-- What changes after an instant leave behind: each environment is as it was or has a later
stamp. -/
structure LaterThan (t : Instant) (d d' : Directory) : Prop where
  others : ∃ environments, d' = { d with environments }
  stamped : ∀ id, d'.environments.get? id = d.environments.get? id ∨
    ∃ e, d'.environments.get? id = some e ∧ t < e.contentUpdated

theorem LaterThan.refl (t : Instant) (d : Directory) : LaterThan t d d :=
  ⟨⟨_, rfl⟩, fun _ => .inl rfl⟩

theorem LaterThan.pools_eq (h : LaterThan t d d') : d'.pools = d.pools := by
  obtain ⟨environments, rfl⟩ := h.others
  rfl

theorem LaterThan.trans (h : LaterThan t d d') (h' : LaterThan t d' d'') : LaterThan t d d'' where
  others := by
    obtain ⟨environments, rfl⟩ := h.others
    exact h'.others
  stamped := fun id => by
    rcases h'.stamped id with hsame | hlater
    · rw [hsame]
      exact h.stamped id
    · exact .inr hlater

/-- One change at most sets the stamp of one environment to its own instant. -/
theorem apply_change (c : PromotionChange) (d : Directory) :
    ∃ environments, c.change.apply d = { d with environments } ∧
      ∀ id, environments.get? id = d.environments.get? id ∨
        ∃ e, environments.get? id = some e ∧ e.contentUpdated = c.moment := by
  cases h : d.environments.get? c.environmentId with
  | none =>
    exact ⟨d.environments, congrArg Prod.snd (Directory.updateEnvironment_of_none c.on h),
      fun _ => .inl rfl⟩
  | some e =>
    refine ⟨d.environments.insert c.environmentId (c.on e),
      congrArg Prod.snd (Directory.updateEnvironment_of_some c.on h), fun id => ?_⟩
    rw [Table.get?_insert]
    split
    · rename_i hid
      subst hid
      rcases c.on_eq_or e with hsame | hstamp
      · exact .inl (by rw [hsame, h])
      · exact .inr ⟨_, rfl, hstamp⟩
    · exact .inl rfl

theorem laterThan_run (h : ∀ c ∈ cs, t < c.moment) (d : Directory) : LaterThan t d (run cs d) := by
  induction cs generalizing d with
  | nil => exact .refl t d
  | cons c cs ih =>
    -- the first change, and then the others on the records that it leaves
    obtain ⟨environments, happly, hstamped⟩ := c.apply_change d
    have hfirst : LaterThan t d (c.change.apply d) := by
      refine ⟨⟨environments, happly⟩, fun id => ?_⟩
      rw [happly]
      rcases hstamped id with hsame | ⟨e, he, hmoment⟩
      · exact .inl hsame
      · exact .inr ⟨e, he, hmoment ▸ h c List.mem_cons_self⟩
    exact hfirst.trans (ih (fun c' hc' => h c' (List.mem_cons_of_mem c hc')) _)

/-- If no environment of a consumer has a later stamp, all are as they were. -/
theorem LaterThan.environmentsOf_eq (h : LaterThan t d d')
    (hnone : ∀ e ∈ d'.environmentsOf consumer, ¬ t < e.contentUpdated) :
    d'.environmentsOf consumer = d.environmentsOf consumer := by
  refine List.filterMap_congr fun id hid => ?_
  rcases h.stamped id with hsame | ⟨e, he, hlater⟩
  · exact hsame
  · exact absurd hlater (hnone e (List.mem_filterMap.2 ⟨id, hid, he⟩))

/-- No stamp is later than the last change. -/
theorem stamps_run (h : ∀ c ∈ cs, c.moment < t)
    (hd : ∀ e ∈ d.environmentsOf consumer, e.contentUpdated < t) :
    ∀ e ∈ (run cs d).environmentsOf consumer, e.contentUpdated < t := by
  induction cs generalizing d with
  | nil => exact hd
  | cons c cs ih =>
    refine ih (fun c' hc' => h c' (List.mem_cons_of_mem c hc')) fun e he => ?_
    obtain ⟨environments, happly, hstamped⟩ := c.apply_change d
    change e ∈ (c.change.apply d).environmentsOf consumer at he
    rw [happly] at he
    obtain ⟨id, hid, he⟩ := List.mem_filterMap.1 he
    rcases hstamped id with hsame | ⟨e', he', hmoment⟩
    · exact hd e (List.mem_filterMap.2 ⟨id, hid, hsame ▸ he⟩)
    · obtain rfl : e' = e := Option.some.inj (he'.symm.trans he)
      rw [hmoment]
      exact h c List.mem_cons_self

end PromotionChange

end EntitlementAuthority
