import EntitlementAuthority.Der.Identifier
import Mathlib.Algebra.GroupWithZero.Nat

/-!
# Object identifiers in DER, written and read back

* `Oid.readArcs?_base128` — an arc is read back, whatever stands behind it.
* `Oid.IsShort`, `Oid.ofDerContents?_derContents` — so is an identifier without large arcs.
-/

namespace EntitlementAuthority

namespace Der

/-- A number with few digits has few digits in front of the last one. -/
theorem length_leadingDigits_le {n k : Nat} (h : n < 128 ^ k) :
    (leadingDigits n).length ≤ k := by
  induction n using leadingDigits.induct generalizing k with
  | case1 =>
    rw [leadingDigits, if_pos rfl]
    exact Nat.zero_le k
  | case2 n hn ih =>
    cases k with
    | zero => exact absurd (Nat.lt_one_iff.1 h) hn
    | succ k =>
      rw [Nat.pow_succ] at h
      rw [leadingDigits, if_neg hn, List.length_append]
      exact Nat.succ_le_succ (ih (by omega))

end Der

namespace Oid

variable {n : Nat}

/-- A digit that is not the last one is added to the value. -/
theorem readArcs?_digit (acc digits : Nat) {d : Nat} (hd : d < 128) (rest : Bytes)
    (h : acc * 128 + d < 2 ^ 64) :
    readArcs? acc digits (UInt8.ofNat (128 + d) :: rest) =
      readArcs? (acc * 128 + d) (digits + 1) rest := by
  have hdigit : (UInt8.ofNat (128 + d)).toNat = 128 + d := by
    rw [UInt8.toNat_ofNat']
    omega
  have hgoes : (128 : UInt8) ≤ UInt8.ofNat (128 + d) := by
    rw [UInt8.le_iff_toNat_le, hdigit]
    exact Nat.le_add_right 128 d
  have hvalue : (acc * 128 + (128 + d) % 128) % Nat.pow 2 64 = acc * 128 + d := by
    rw [Nat.pow_eq]
    omega
  rw [readArcs?, if_pos hgoes, hdigit, hvalue]

/-- The last digit ends the arc. -/
theorem readArcs?_lastDigit (acc : Nat) {digits d : Nat} (hdigits : digits ≤ 8) (hd : d < 128)
    (rest : Bytes) (h : acc * 128 + d < 2 ^ 64) :
    readArcs? acc digits (UInt8.ofNat d :: rest) =
      (readArcs? 0 0 rest).map ((acc * 128 + d) :: ·) := by
  have hdigit : (UInt8.ofNat d).toNat = d := by
    rw [UInt8.toNat_ofNat']
    omega
  have hends : ¬ (128 : UInt8) ≤ UInt8.ofNat d := by
    rw [UInt8.le_iff_toNat_le, hdigit]
    exact Nat.not_le.2 hd
  have hvalue : (acc * 128 + d % 128) % Nat.pow 2 64 = acc * 128 + d := by
    rw [Nat.pow_eq]
    omega
  rw [readArcs?, if_neg hends, if_neg (Nat.not_lt.2 hdigits), hdigit, hvalue]

/-- The digits in front of the last one come to their value. -/
theorem readArcs?_leadingDigits (h : n < 2 ^ 64) (digits : Nat) (rest : Bytes) :
    readArcs? 0 digits (Der.leadingDigits n ++ rest) =
      readArcs? n (digits + (Der.leadingDigits n).length) rest := by
  induction n using Der.leadingDigits.induct generalizing rest with
  | case1 =>
    rw [Der.leadingDigits, if_pos rfl]
    rfl
  | case2 n hn ih =>
    have hlast : n % 128 < 128 := Nat.mod_lt n (by decide)
    have hsplit : n / 128 * 128 + n % 128 = n := Nat.div_add_mod' n 128
    rw [Der.leadingDigits, if_neg hn, List.append_assoc, ih (by omega), List.singleton_append,
      readArcs?_digit _ _ hlast _ (by omega), hsplit, List.length_append, Nat.add_assoc]
    rfl

/-- **An arc is read back** if it has 63 bits at most. -/
theorem readArcs?_base128 (h : n < 2 ^ 63) (rest : Bytes) :
    readArcs? 0 0 (Der.base128 n ++ rest) = (readArcs? 0 0 rest).map (n :: ·) := by
  have hlast : n % 128 < 128 := Nat.mod_lt n (by decide)
  have hsplit : n / 128 * 128 + n % 128 = n := Nat.div_add_mod' n 128
  have hdigits : 0 + (Der.leadingDigits (n / 128)).length ≤ 8 := by
    rw [Nat.zero_add]
    exact Der.length_leadingDigits_le (by omega)
  rw [Der.base128, List.append_assoc, readArcs?_leadingDigits (by omega), List.singleton_append,
    readArcs?_lastDigit _ hdigits hlast _ (by omega), hsplit]

theorem readArcs?_flatMap {arcs : List Nat} (h : ∀ n ∈ arcs, n < 2 ^ 63) :
    readArcs? 0 0 (arcs.flatMap Der.base128) = some arcs := by
  induction arcs with
  | nil => rfl
  | cons n arcs ih =>
    rw [List.forall_mem_cons] at h
    rw [List.flatMap_cons, readArcs?_base128 h.1, ih h.2]
    rfl

/-- The first two arcs fit into one byte, and the others have 63 bits at most. -/
def IsShort : Oid → Prop
  | ⟨a :: b :: arcs⟩ => b < 40 ∧ 40 * a + b < 128 ∧ arcs ≠ [] ∧ ∀ n ∈ arcs, n < 2 ^ 63
  | _ => False

instance : (o : Oid) → Decidable o.IsShort
  | ⟨a :: b :: arcs⟩ =>
    inferInstanceAs (Decidable (b < 40 ∧ 40 * a + b < 128 ∧ arcs ≠ [] ∧ ∀ n ∈ arcs, n < 2 ^ 63))
  | ⟨[_]⟩ => isFalse id
  | ⟨[]⟩ => isFalse id

/-- **Such an identifier is read back.** -/
theorem ofDerContents?_derContents {o : Oid} (h : o.IsShort) :
    ofDerContents? o.derContents = some o := by
  obtain ⟨_ | ⟨a, _ | ⟨b, arcs⟩⟩⟩ := o
  · exact h.elim
  · exact h.elim
  · obtain ⟨hb, hfirst, hne, h⟩ := h
    have hbyte : Der.base128 (40 * a + b) = [UInt8.ofNat (40 * a + b)] := by
      rw [Der.base128, Nat.div_eq_of_lt hfirst, Nat.mod_eq_of_lt hfirst, Der.leadingDigits,
        if_pos rfl]
      rfl
    have hvalue : (UInt8.ofNat (40 * a + b)).toNat = 40 * a + b := by
      rw [UInt8.toNat_ofNat']
      omega
    have harcs := readArcs?_flatMap h
    show ofDerContents? (Der.base128 (40 * a + b) ++ arcs.flatMap Der.base128) = _
    cases hflat : arcs.flatMap Der.base128 with
    | nil =>
      rw [hflat] at harcs
      exact absurd (Option.some.inj harcs).symm hne
    | cons byte bytes =>
      rw [hflat] at harcs
      have hdiv : (40 * a + b) / 40 = a := by omega
      have hmod : (40 * a + b) % 40 = b := by omega
      rw [hbyte, List.singleton_append, ofDerContents?, harcs, hvalue, hdiv, hmod]
      · rfl
      · exact nofun

end Oid

end EntitlementAuthority
