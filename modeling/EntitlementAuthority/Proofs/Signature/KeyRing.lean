import EntitlementAuthority.Signature.KeyRing
import Mathlib.Data.List.Basic

/-!
# Who has which key pair

Key pairs are only ever added to a ring, so a subject keeps the pair that was drawn for it, and no
other subject gets the same one.

* `KeyRing.HasKey` — a pair was drawn for a subject.
* `KeyRing.Grows` — pairs may have been added.
* `KeyRing.HasKey.key_eq_iff` — different subjects have different pairs.
* `KeyRing.HasKey.mono` — pairs stay with their subjects.
* `KeyRing.keyFor_hasKey`, `KeyRing.keyFor_grows` — asking for a pair does no more than that.
-/

namespace EntitlementAuthority.KeyRing

variable {r r' r'' : KeyRing} {s s' : String} {k k' : KeyPair}

/-- A key pair was drawn for a subject. -/
def HasKey (r : KeyRing) (s : String) (k : KeyPair) : Prop :=
  ∃ n, r.subjects.idxOf? s = some n ∧ k = r.drawn n

/-- Key pairs may have been added behind the others. -/
structure Grows (r r' : KeyRing) : Prop where
  cryptography : r'.cryptography = r.cryptography
  algorithm : r'.algorithm = r.algorithm
  subjects : r.subjects <+: r'.subjects

theorem Grows.refl (r : KeyRing) : r.Grows r :=
  ⟨rfl, rfl, List.prefix_rfl⟩

theorem Grows.trans (h : r.Grows r') (h' : r'.Grows r'') : r.Grows r'' :=
  ⟨h'.cryptography.trans h.cryptography, h'.algorithm.trans h.algorithm,
    h.subjects.trans h'.subjects⟩

/-- **A subject has one key pair, and no other subject has the same.** -/
theorem HasKey.key_eq_iff (h : r.HasKey s k) (h' : r.HasKey s' k') : k = k' ↔ s = s' := by
  obtain ⟨n, hn, rfl⟩ := h
  obtain ⟨m, hm, rfl⟩ := h'
  constructor
  · intro hkey
    -- no pair is drawn twice, so that it tells the place of its subject
    obtain rfl : n = m := Nat.succ.inj (r.cryptography.draw_injective r.algorithm hkey)
    obtain ⟨_, hs, -⟩ := List.idxOf?_eq_some_iff.1 hn
    obtain ⟨_, hs', -⟩ := List.idxOf?_eq_some_iff.1 hm
    exact hs.symm.trans hs'
  · rintro rfl
    rw [hn] at hm
    rw [Option.some.inj hm]

/-- A subject keeps its key pair. -/
theorem HasKey.mono (h : r.HasKey s k) (hgrows : r.Grows r') : r'.HasKey s k := by
  obtain ⟨n, hn, rfl⟩ := h
  obtain ⟨more, hmore⟩ := hgrows.subjects
  refine ⟨n, ?_, ?_⟩
  · unfold List.idxOf? at hn ⊢
    rw [← hmore, List.findIdx?_append, hn, Option.some_or]
  · rw [drawn, drawn, hgrows.cryptography, hgrows.algorithm]

theorem keyFor_grows (subject : String) (r : KeyRing) : r.Grows (keyFor subject r).2 := by
  unfold keyFor
  split
  · exact .refl r
  · split
    · exact .refl r
    · exact ⟨rfl, rfl, List.prefix_append _ _⟩

/-- Whoever asks for a key pair gets the one that the subject has from then on. -/
theorem keyFor_hasKey (h : keyFor s r = (.ok k, r')) : r'.HasKey s k := by
  unfold keyFor at h
  split at h
  · cases h
  · split at h
    · rename_i n hn
      cases h
      exact ⟨n, hn, rfl⟩
    · rename_i hnone
      cases h
      refine ⟨r.size, ?_, rfl⟩
      -- the subject is new, so it is found where it was added
      unfold List.idxOf? at hnone ⊢
      rw [List.findIdx?_append, hnone, Option.none_or]
      simp [size]

end EntitlementAuthority.KeyRing
