import EntitlementAuthority.Json.Text

/-!
# Whole numbers in JSON, written and read back

* `Json.IsDecimal` — the digits of a number without leading zeros; `Json.isDecimal_repr` says that
  numbers are written this way.
* `Json.IsWhole.lexNumber?` — a whole number is read up to its last digit.
* `Json.int?_ofInt`, `Json.int64?_ofInt` — and stands for itself.
-/

namespace EntitlementAuthority.Json

variable {digits rest : Bytes} {n : Nat}

/-! ### Digits -/

/-- The digits of a number; a zero stands in front only if it is the number. -/
structure IsDecimal (digits : Bytes) (n : Nat) : Prop where
  value : digitsValue? digits = some n
  canonical : digits = [0x30] ∨ ∃ b more, digits = b :: more ∧ b ≠ 0x30

theorem digitsValue?_eq_some :
    digitsValue? digits = some n ↔
      (∀ b ∈ digits, isDigit b = true) ∧
        digits.foldl (fun n b => n * 10 + (b.toNat - 0x30)) 0 = n := by
  unfold digitsValue?
  rw [Option.ite_none_right_eq_some, Option.some.injEq, List.all_eq_true]

/-- The digits of a number below ten. -/
theorem isDecimal_digit (h : n < 10) :
    IsDecimal (Bytes.ofText n.repr) n ∧ (Bytes.ofText n.repr).length = 1 := by
  have hall : ∀ m : Fin 10, digitsValue? (Bytes.ofText m.val.repr) = some m.val ∧
      (Bytes.ofText m.val.repr = [0x30] ∨ (Bytes.ofText m.val.repr).headD 0x30 ≠ 0x30) ∧
      (Bytes.ofText m.val.repr).length = 1 := by decide
  obtain ⟨hvalue, hcanonical, hlength⟩ := hall ⟨n, h⟩
  refine ⟨⟨hvalue, hcanonical.imp id fun hhead => ?_⟩, hlength⟩
  obtain ⟨b, hb⟩ := List.length_eq_one_iff.1 hlength
  exact ⟨b, [], hb, by rwa [hb] at hhead⟩

/-- One more digit behind those of a positive number. -/
theorem IsDecimal.append {last : Bytes} {d : Nat} (h : IsDecimal digits n) (hpos : 0 < n)
    (hlast : IsDecimal last d) (hlength : last.length = 1) :
    IsDecimal (digits ++ last) (n * 10 + d) := by
  obtain ⟨b, rfl⟩ := List.length_eq_one_iff.1 hlength
  obtain ⟨hdigits, hvalue⟩ := digitsValue?_eq_some.1 h.value
  obtain ⟨hb, hd⟩ := digitsValue?_eq_some.1 hlast.value
  rw [List.foldl_cons, List.foldl_nil, Nat.zero_mul, Nat.zero_add] at hd
  refine ⟨digitsValue?_eq_some.2 ⟨?_, ?_⟩, ?_⟩
  · exact List.forall_mem_append.2 ⟨hdigits, hb⟩
  · rw [List.foldl_append, hvalue, List.foldl_cons, List.foldl_nil, hd]
  · rcases h.canonical with rfl | ⟨b', more, rfl, hb'⟩
    · -- a single zero does not stand for a positive number
      rw [← hvalue] at hpos
      exact absurd hpos (by decide)
    · exact .inr ⟨b', more ++ [b], rfl, hb'⟩

/-- **Numbers are written without leading zeros.** -/
theorem isDecimal_repr (n : Nat) : IsDecimal (Bytes.ofText n.repr) n := by
  induction n using Nat.strongRecOn with
  | ind n ih =>
    by_cases h : n < 10
    · exact (isDecimal_digit h).1
    · -- all digits but the last are those of the tenth part
      have happend : Bytes.ofText n.repr =
          Bytes.ofText (n / 10).repr ++ Bytes.ofText (n % 10).repr := by
        rw [← Bytes.ofText_append, ← Nat.repr_eq_repr_append_repr (by omega)]
      obtain ⟨hlast, hlength⟩ := isDecimal_digit (n := n % 10) (by omega)
      have hn := (ih (n / 10) (by omega)).append (by omega) hlast hlength
      rwa [← happend, Nat.div_add_mod'] at hn

/-- The digits of a whole number, behind a sign if it is negative. -/
inductive IsWhole : Bytes → Int → Prop
  | natural {digits : Bytes} {n : Nat} (h : IsDecimal digits n) : IsWhole digits n
  | negative {digits : Bytes} {n : Nat} (h : IsDecimal digits n) (hpos : 0 < n) :
      IsWhole (0x2D :: digits) (-n)

theorem isWhole_toString (n : Int) : IsWhole (Bytes.ofText (toString n)) n := by
  rw [Int.toString_eq_repr, Int.repr_eq_if]
  split
  · have hn := IsWhole.natural (isDecimal_repr n.toNat)
    rwa [Int.toNat_of_nonneg ‹_›] at hn
  · have hn := IsWhole.negative (isDecimal_repr (-n).toNat) (by omega)
    rw [Int.toNat_of_nonneg (by omega), Int.neg_neg] at hn
    rwa [Bytes.ofText_append]

/-! ### Reading the digits -/

/-- A text that does not go on with a number that stands in front of it. -/
def EndsNumber : Bytes → Prop
  | [] => True
  | b :: _ => isDigit b = false ∧ b ≠ 0x2E ∧ b ≠ 0x65 ∧ b ≠ 0x45

theorem lexWhole?_append (h : IsDecimal digits n) (hrest : EndsNumber rest) :
    lexWhole? (digits ++ rest) = some (digits, rest) := by
  rcases h.canonical with rfl | ⟨b, more, rfl, hb⟩
  · rfl
  · -- the first digit is not a zero, so the reader goes on as long as there are digits
    have hdigits := (digitsValue?_eq_some.1 h.value).1
    have hmore : ∀ b' ∈ more, isDigit b' = true :=
      fun b' hb' => hdigits b' (List.mem_cons_of_mem b hb')
    have hstop : rest.takeWhile isDigit = [] ∧ rest.dropWhile isDigit = rest := by
      cases rest with
      | nil => exact ⟨rfl, rfl⟩
      | cons b' rest => simp [hrest.1]
    rw [List.cons_append, lexWhole?, if_neg hb, if_pos (hdigits b List.mem_cons_self),
      List.takeWhile_append_of_pos hmore, List.dropWhile_append_of_pos hmore, hstop.1, hstop.2,
      List.append_nil]

theorem lexFraction?_of_endsNumber (h : EndsNumber rest) : lexFraction? rest = some ([], rest) := by
  cases rest with
  | nil => rfl
  | cons b rest => rw [lexFraction?, if_neg h.2.1]

theorem lexExponent?_of_endsNumber (h : EndsNumber rest) : lexExponent? rest = some ([], rest) := by
  cases rest with
  | nil => rfl
  | cons b rest => rw [lexExponent?.eq_def]; dsimp only; rw [if_neg (not_or.2 h.2.2)]

/-- The digits of a number behind its sign are read. -/
theorem lexNumber?_of_lexSign {input : Bytes} (sign : Bytes)
    (hsign : lexSign input = (sign, digits ++ rest)) (h : IsDecimal digits n)
    (hrest : EndsNumber rest) :
    lexNumber? input = some (sign ++ digits, rest) := by
  unfold lexNumber?
  rw [hsign]
  dsimp only
  rw [lexWhole?_append h hrest]
  dsimp only
  rw [lexFraction?_of_endsNumber hrest]
  dsimp only
  rw [lexExponent?_of_endsNumber hrest]
  dsimp only
  rw [List.append_nil, List.append_nil]

/-- The first byte of a number is a digit. -/
theorem IsDecimal.eq_cons (h : IsDecimal digits n) :
    ∃ b more, digits = b :: more ∧ isDigit b = true := by
  have hdigits := (digitsValue?_eq_some.1 h.value).1
  rcases h.canonical with rfl | ⟨b, more, rfl, -⟩
  · exact ⟨0x30, [], rfl, rfl⟩
  · exact ⟨b, more, rfl, hdigits b List.mem_cons_self⟩

theorem ne_minus_of_isDigit {b : UInt8} (h : isDigit b = true) : b ≠ 0x2D := by
  rintro rfl
  exact absurd h (by decide)

/-- **A whole number is read** up to its last digit. -/
theorem IsWhole.lexNumber? {n : Int} (h : IsWhole digits n) (hrest : EndsNumber rest) :
    lexNumber? (digits ++ rest) = some (digits, rest) := by
  cases h with
  | natural h =>
    obtain ⟨b, more, hcons, hb⟩ := h.eq_cons
    refine lexNumber?_of_lexSign [] ?_ h hrest
    rw [hcons, List.cons_append, lexSign, if_neg (ne_minus_of_isDigit hb)]
  | negative h _ => exact lexNumber?_of_lexSign [0x2D] rfl h hrest

/-! ### What numbers stand for -/

theorem IsWhole.int? {n : Int} (h : IsWhole digits n) : int? (.number digits) = some n := by
  cases h with
  | natural h =>
    obtain ⟨b, more, rfl, hb⟩ := h.eq_cons
    rw [Json.int?, if_neg (ne_minus_of_isDigit hb), h.value]
    rfl
  | @negative digits m h hpos =>
    obtain ⟨k, rfl⟩ := Nat.exists_eq_succ_of_ne_zero (Nat.pos_iff_ne_zero.1 hpos)
    rw [Json.int?, if_pos rfl, h.value]
    rfl

/-- **A whole number stands for itself.** -/
theorem int?_ofInt (n : Int) : (ofInt n).int? = some n :=
  (isWhole_toString n).int?

/-- The numbers of 64 bits with a sign. -/
def IsInt64 (n : Int) : Prop :=
  -(Nat.pow 2 63 : Int) ≤ n ∧ n < Nat.pow 2 63

instance (n : Int) : Decidable (IsInt64 n) :=
  inferInstanceAs (Decidable (_ ∧ _))

theorem int64?_ofInt {n : Int} (h : IsInt64 n) : (ofInt n).int64? = some n := by
  unfold int64? intBetween?
  rw [int?_ofInt, Option.filter_some, if_pos]
  rw [decide_eq_true h.1, decide_eq_true h.2]
  rfl

end EntitlementAuthority.Json
