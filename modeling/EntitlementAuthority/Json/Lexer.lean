import EntitlementAuthority.Json.Basic
import EntitlementAuthority.Text.Fields

/-!
# Tokens of JSON texts

* `Json.lexString?` — a string up to its closing quote, its escapes checked for their form.
* `Json.lexNumber?` — the longest number at the front.
* `Json.lex?` — all tokens of a text.
-/

namespace EntitlementAuthority.Json

/-! ### Classes of bytes -/

/-- Space, tab, line feed and carriage return stand between tokens. -/
def isBlank (b : UInt8) : Bool :=
  b == 0x20 || b == 0x09 || b == 0x0A || b == 0x0D

/-- An ASCII digit. -/
def isDigit (b : UInt8) : Bool :=
  0x30 ≤ b && b ≤ 0x39

/-- A hexadecimal digit of either case. -/
def isHexDigit (b : UInt8) : Bool :=
  isDigit b || (0x41 ≤ b && b ≤ 0x46) || (0x61 ≤ b && b ≤ 0x66)

/-- The characters that form an escape of two: quote, backslash, slash and `bfnrt`. -/
def isShortEscape (b : UInt8) : Bool :=
  b == 0x22 || b == 0x5C || b == 0x2F || b == 0x62 || b == 0x66 || b == 0x6E || b == 0x72
    || b == 0x74

/-! ### Strings -/

/-- A string behind its opening quote: what stands before the closing quote, and what stands
behind it. Control characters and unknown escapes are refused. -/
def lexString? : Bytes → Option (Bytes × Bytes)
  | [] => none
  | b :: rest =>
    if b = 0x22 then some ([], rest)
    else if b = 0x5C then
      match rest with
      | [] => none
      | c :: rest =>
        if isShortEscape c then
          (lexString? rest).map fun (raw, after) => (b :: c :: raw, after)
        else if c = 0x75 then
          match rest with
          | h1 :: h2 :: h3 :: h4 :: rest =>
            if isHexDigit h1 && isHexDigit h2 && isHexDigit h3 && isHexDigit h4 then
              (lexString? rest).map fun (raw, after) =>
                (b :: c :: h1 :: h2 :: h3 :: h4 :: raw, after)
            else none
          | _ => none
        else none
    else if b < 0x20 then none
    else (lexString? rest).map fun (raw, after) => (b :: raw, after)

theorem length_of_lexString? {input raw after : Bytes} (h : lexString? input = some (raw, after)) :
    after.length < input.length := by
  fun_induction lexString? input generalizing raw with
  | case1 => simp at h
  | case2 =>
    simp only [Option.some.injEq, Prod.mk.injEq] at h
    obtain ⟨-, rfl⟩ := h
    exact Nat.lt_succ_self _
  | case3 => simp at h
  | case4 | case5 | case10 =>
    rename_i ih
    obtain ⟨⟨r, a⟩, hr, heq⟩ := Option.map_eq_some_iff.1 h
    simp only [Prod.mk.injEq] at heq
    have := ih (heq.2 ▸ hr)
    simp only [List.length_cons]
    omega
  | case6 => simp at h
  | case7 => simp at h
  | case8 => simp at h
  | case9 => simp at h

/-! ### Numbers -/

/-- The whole part of a number: a zero, or digits that do not begin with one. -/
def lexWhole? : Bytes → Option (Bytes × Bytes)
  | [] => none
  | b :: rest =>
    if b = 0x30 then some ([b], rest)
    else if isDigit b then some (b :: rest.takeWhile isDigit, rest.dropWhile isDigit)
    else none

/-- One or more digits behind a mark that has been read. -/
def lexDigits? (mark : Bytes) (input : Bytes) : Option (Bytes × Bytes) :=
  let digits := input.takeWhile isDigit
  if digits.isEmpty then none else some (mark ++ digits, input.dropWhile isDigit)

/-- The fraction of a number, which may be missing. -/
def lexFraction? : Bytes → Option (Bytes × Bytes)
  | [] => some ([], [])
  | b :: rest => if b = 0x2E then lexDigits? [b] rest else some ([], b :: rest)

/-- The exponent of a number, which may be missing. -/
def lexExponent? : Bytes → Option (Bytes × Bytes)
  | [] => some ([], [])
  | b :: rest =>
    if b = 0x65 ∨ b = 0x45 then
      match rest with
      | [] => none
      | s :: rest' =>
        if s = 0x2B ∨ s = 0x2D then lexDigits? [b, s] rest' else lexDigits? [b] rest
    else some ([], b :: rest)

/-- The sign of a number, which may be missing. -/
def lexSign : Bytes → Bytes × Bytes
  | [] => ([], [])
  | b :: rest => if b = 0x2D then ([b], rest) else ([], b :: rest)

/-- A number: a sign, a whole part, a fraction and an exponent. -/
def lexNumber? (input : Bytes) : Option (Bytes × Bytes) :=
  let (sign, input) := lexSign input
  match lexWhole? input with
  | none => none
  | some (whole, input) =>
    match lexFraction? input with
    | none => none
    | some (fraction, input) =>
      match lexExponent? input with
      | none => none
      | some (exponent, input) => some (sign ++ whole ++ fraction ++ exponent, input)

theorem length_dropWhile_le (p : UInt8 → Bool) (input : Bytes) :
    (input.dropWhile p).length ≤ input.length :=
  (List.dropWhile_suffix p).length_le

theorem length_of_lexWhole? {input digits after : Bytes}
    (h : lexWhole? input = some (digits, after)) : after.length < input.length := by
  unfold lexWhole? at h
  split at h
  · simp at h
  · rename_i b rest
    have := length_dropWhile_le isDigit rest
    split at h
    · simp only [Option.some.injEq, Prod.mk.injEq] at h
      simp [← h.2]
    · split at h
      · simp only [Option.some.injEq, Prod.mk.injEq] at h
        rw [← h.2, List.length_cons]
        omega
      · simp at h

theorem length_of_lexDigits? {mark input digits after : Bytes}
    (h : lexDigits? mark input = some (digits, after)) : after.length ≤ input.length := by
  unfold lexDigits? at h
  dsimp only at h
  split at h
  · simp at h
  · simp only [Option.some.injEq, Prod.mk.injEq] at h
    rw [← h.2]
    exact length_dropWhile_le isDigit input

theorem length_of_lexFraction? {input digits after : Bytes}
    (h : lexFraction? input = some (digits, after)) : after.length ≤ input.length := by
  unfold lexFraction? at h
  split at h
  · simp_all
  · split at h
    · exact Nat.le_succ_of_le (length_of_lexDigits? h)
    · simp only [Option.some.injEq, Prod.mk.injEq] at h
      exact Nat.le_of_eq (congrArg List.length h.2.symm)

theorem length_of_lexExponent? {input digits after : Bytes}
    (h : lexExponent? input = some (digits, after)) : after.length ≤ input.length := by
  unfold lexExponent? at h
  split at h
  · simp_all
  · split at h
    · split at h
      · simp at h
      · split at h
        · exact Nat.le_succ_of_le (Nat.le_succ_of_le (length_of_lexDigits? h))
        · exact Nat.le_succ_of_le (length_of_lexDigits? h)
    · simp only [Option.some.injEq, Prod.mk.injEq] at h
      exact Nat.le_of_eq (congrArg List.length h.2.symm)

theorem length_lexSign_le (input : Bytes) : (lexSign input).2.length ≤ input.length := by
  unfold lexSign
  split
  · exact Nat.le_refl _
  · split
    · exact Nat.le_succ _
    · exact Nat.le_refl _

theorem length_of_lexNumber? {input digits after : Bytes}
    (h : lexNumber? input = some (digits, after)) : after.length < input.length := by
  unfold lexNumber? at h
  have hs := length_lexSign_le input
  split at h
  rename_i sign rest heq
  rw [heq] at hs
  dsimp only at h hs
  split at h
  · simp at h
  · rename_i hw
    have hw := length_of_lexWhole? hw
    split at h
    · simp at h
    · rename_i hf
      have hf := length_of_lexFraction? hf
      split at h
      · simp at h
      · rename_i he
        have he := length_of_lexExponent? he
        simp only [Option.some.injEq, Prod.mk.injEq] at h
        rw [← h.2]
        omega

/-! ### Whole texts -/

/-- The tokens that are one byte. -/
def punctuation? (b : UInt8) : Option Token :=
  if b = 0x5B then some .openArray
  else if b = 0x5D then some .closeArray
  else if b = 0x7B then some .openObject
  else if b = 0x7D then some .closeObject
  else if b = 0x2C then some .comma
  else if b = 0x3A then some .colon
  else none

/-- The words of JSON. -/
def words : List (Bytes × Token) :=
  [(Bytes.ofText "null", .null), (Bytes.ofText "true", .bool true),
    (Bytes.ofText "false", .bool false)]

/-- A word at the front. -/
def lexWord? (input : Bytes) : List (Bytes × Token) → Option (Token × Bytes)
  | [] => none
  | (word, token) :: more =>
    match Text.stripFront? word input with
    | some rest => some (token, rest)
    | none => lexWord? input more

/-- A word or a number at the front. -/
def lexPlain? (input : Bytes) : Option (Token × Bytes) :=
  match lexWord? input words with
  | some found => some found
  | none =>
    match lexNumber? input with
    | some (digits, rest) => some (.number digits, rest)
    | none => none

/-- The first token behind blanks that have been read. -/
def lexToken? : Bytes → Option (Token × Bytes)
  | [] => none
  | b :: rest =>
    match punctuation? b with
    | some token => some (token, rest)
    | none =>
      if b = 0x22 then
        match lexString? rest with
        | some (raw, after) => some (.string raw, after)
        | none => none
      else lexPlain? (b :: rest)

theorem length_of_lexWord? {input after : Bytes} {token : Token} {known : List (Bytes × Token)}
    (hknown : ∀ w ∈ known, w.1 ≠ []) (h : lexWord? input known = some (token, after)) :
    after.length < input.length := by
  induction known with
  | nil => simp [lexWord?] at h
  | cons w known ih =>
    obtain ⟨word, t⟩ := w
    unfold lexWord? at h
    split at h
    · rename_i hrest
      simp only [Option.some.injEq, Prod.mk.injEq] at h
      have hlen := congrArg List.length (Text.eq_append_of_stripFront? hrest)
      have hpos := List.length_pos_iff.2 (hknown _ List.mem_cons_self)
      rw [List.length_append] at hlen
      rw [← h.2]
      dsimp only at hpos
      omega
    · exact ih (fun w hw => hknown w (List.mem_cons_of_mem _ hw)) h

theorem words_ne_nil : ∀ w ∈ words, w.1 ≠ [] := by
  decide

/-- A token takes at least one byte. -/
theorem length_of_lexToken? {input after : Bytes} {token : Token}
    (h : lexToken? input = some (token, after)) : after.length < input.length := by
  unfold lexToken? at h
  split at h
  · simp at h
  · rename_i b rest
    split at h
    · simp only [Option.some.injEq, Prod.mk.injEq] at h
      rw [← h.2]
      exact Nat.lt_succ_self _
    · split at h
      · split at h
        · rename_i hs
          simp only [Option.some.injEq, Prod.mk.injEq] at h
          rw [← h.2]
          exact Nat.lt_succ_of_lt (length_of_lexString? hs)
        · simp at h
      · unfold lexPlain? at h
        split at h
        · rename_i hw
          rw [h] at hw
          exact length_of_lexWord? words_ne_nil hw
        · split at h
          · rename_i hn
            simp only [Option.some.injEq, Prod.mk.injEq] at h
            rw [← h.2]
            exact length_of_lexNumber? hn
          · simp at h

/-- All tokens of a text, behind the reversed ones that have been read. -/
def lexFrom? (found : List Token) (input : Bytes) : Option (List Token) :=
  match input with
  | [] => some found.reverse
  | b :: rest =>
    if isBlank b then lexFrom? found rest
    else
      match _h : lexToken? (b :: rest) with
      | none => none
      | some (token, after) => lexFrom? (token :: found) after
termination_by input.length
decreasing_by
  · exact Nat.lt_succ_self _
  · exact length_of_lexToken? _h

/-- All tokens of a text. -/
def lex? (input : Bytes) : Option (List Token) :=
  lexFrom? [] input

end EntitlementAuthority.Json
