import EntitlementAuthority.Time.Calendar

/-!
# Instants

A moment in Universal Time with nanoseconds. A leap second is the second before it with a
fraction of a whole second or more, so instants are compared by seconds and then by fraction.

* `Instant` — seconds since 1 January 1970 and nanoseconds.
* `Instant.addSeconds` — the instant some whole seconds later or earlier.
* `Instant.civil` — the calendar reading of an instant.
-/

namespace EntitlementAuthority

/-- A moment in Universal Time. -/
structure Instant where
  /-- Whole seconds since 1 January 1970, leap seconds not counted. -/
  seconds : Int
  /-- Nanoseconds into that second; a thousand million or more within a leap second. -/
  nanos : Nat
deriving DecidableEq, Repr

namespace Instant

/-- Earlier: an earlier second, or the same second with a smaller fraction. -/
protected def lt (a b : Instant) : Prop :=
  a.seconds < b.seconds ∨ (a.seconds = b.seconds ∧ a.nanos < b.nanos)

/-- Not later. -/
protected def le (a b : Instant) : Prop :=
  a.seconds < b.seconds ∨ (a.seconds = b.seconds ∧ a.nanos ≤ b.nanos)

instance : LT Instant := ⟨Instant.lt⟩
instance : LE Instant := ⟨Instant.le⟩

instance (a b : Instant) : Decidable (a < b) :=
  inferInstanceAs (Decidable (_ ∨ _))

instance (a b : Instant) : Decidable (a ≤ b) :=
  inferInstanceAs (Decidable (_ ∨ _))

theorem lt_iff {a b : Instant} :
    a < b ↔ a.seconds < b.seconds ∨ (a.seconds = b.seconds ∧ a.nanos < b.nanos) := Iff.rfl

theorem le_iff {a b : Instant} :
    a ≤ b ↔ a.seconds < b.seconds ∨ (a.seconds = b.seconds ∧ a.nanos ≤ b.nanos) := Iff.rfl

theorem not_lt {a b : Instant} : ¬ a < b ↔ b ≤ a := by
  rw [lt_iff, le_iff]
  omega

theorem not_le {a b : Instant} : ¬ a ≤ b ↔ b < a := by
  rw [lt_iff, le_iff]
  omega

theorem lt_trans {a b c : Instant} (hab : a < b) (hbc : b < c) : a < c := by
  rw [lt_iff] at *
  omega

theorem lt_of_lt_of_le {a b c : Instant} (hab : a < b) (hbc : b ≤ c) : a < c := by
  rw [lt_iff] at *
  rw [le_iff] at hbc
  omega

theorem le_trans {a b c : Instant} (hab : a ≤ b) (hbc : b ≤ c) : a ≤ c := by
  rw [le_iff] at *
  omega

theorem le_refl (a : Instant) : a ≤ a := by
  rw [le_iff]
  omega

theorem le_of_lt {a b : Instant} (h : a < b) : a ≤ b := by
  rw [lt_iff] at h
  rw [le_iff]
  omega

theorem lt_of_le_of_lt {a b c : Instant} (hab : a ≤ b) (hbc : b < c) : a < c := by
  rw [le_iff] at hab
  rw [lt_iff] at *
  omega

theorem lt_irrefl (a : Instant) : ¬ a < a :=
  not_lt.2 (le_refl a)

/-- The earlier of two instants; of equal ones the first. -/
def earlier (a b : Instant) : Instant :=
  if b < a then b else a

/-- The instant `n` seconds later, or earlier if `n` is negative. A shift leaves a leap second
with the fraction it has. -/
def addSeconds (a : Instant) (n : Int) : Instant :=
  if n = 0 ∨ a.nanos < 1000000000 then ⟨a.seconds + n, a.nanos⟩
  else if 0 < n then ⟨a.seconds + n, a.nanos - 1000000000⟩
  else ⟨a.seconds + n + 1, a.nanos - 1000000000⟩

/-- The instant `n` days later. -/
def addDays (a : Instant) (n : Int) : Instant :=
  a.addSeconds (n * 86400)

/-- Nanoseconds from `earlier` to `later`. -/
def nanosBetween (earlier later : Instant) : Int :=
  (later.seconds - earlier.seconds) * 1000000000 + (later.nanos - earlier.nanos)

/-- The calendar reading of an instant. -/
structure Civil where
  date : Time.Date
  hour : Nat
  minute : Nat
  /-- Sixty within a leap second. -/
  second : Nat
  nanos : Nat

/-- Reads an instant off the calendar and the clock. -/
def civil (a : Instant) : Civil :=
  let ofDay := (a.seconds % 86400).toNat
  let leap := if a.nanos < 1000000000 then 0 else 1
  { date := Time.Date.ofDays (a.seconds / 86400)
    hour := ofDay / 3600
    minute := ofDay / 60 % 60
    second := ofDay % 60 + leap
    nanos := a.nanos - leap * 1000000000 }

/-- The instant with the given reading, minus an offset from Universal Time in seconds. -/
def ofCivil (c : Civil) (offset : Int) : Instant :=
  let leap := c.second / 60
  ⟨c.date.toDays * 86400 + c.hour * 3600 + c.minute * 60 + (c.second - leap) - offset,
    c.nanos + leap * 1000000000⟩

end Instant

end EntitlementAuthority
