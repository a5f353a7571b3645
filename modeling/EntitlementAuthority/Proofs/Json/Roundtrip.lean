import EntitlementAuthority.Json.Reader
import EntitlementAuthority.Proofs.Json.Numbers
import EntitlementAuthority.Proofs.Json.Strings

/-!
# JSON values, written and read back

* `Json.Written` — the values that are made of texts and whole numbers.
* `Json.Written.lexes` — the tokens of such a value are found in its text.
* `Json.ofTokens?_tokens` — a value is read back from its tokens.
* `Json.Written.read?_render` — and from its text.
-/

namespace EntitlementAuthority.Json

variable {v : Json} {token : Token} {tokens tokens' : List Token} {rest : Bytes}

/-! ### Numbers in texts -/

/-- The bytes that a number can begin with. -/
def StartsNumber (b : UInt8) : Prop :=
  isDigit b = true ∨ b = 0x2D

theorem IsWhole.eq_cons {digits : Bytes} {n : Int} (h : IsWhole digits n) :
    ∃ b more, digits = b :: more ∧ StartsNumber b := by
  cases h with
  | natural h =>
    obtain ⟨b, more, hcons, hb⟩ := h.eq_cons
    exact ⟨b, more, hcons, .inl hb⟩
  | negative h _ => exact ⟨_, _, rfl, .inr rfl⟩

theorem StartsNumber.ne {b x : UInt8} (h : StartsNumber b) (hdigit : isDigit x = false)
    (hminus : x ≠ 0x2D) : b ≠ x := by
  rintro rfl
  rcases h with h | h
  · exact absurd h (hdigit ▸ Bool.false_ne_true)
  · exact hminus h

theorem StartsNumber.isBlank {b : UInt8} (h : StartsNumber b) : isBlank b = false := by
  simp only [Json.isBlank, Bool.or_eq_false_iff, beq_eq_false_iff_ne]
  exact ⟨⟨⟨h.ne rfl (by decide), h.ne rfl (by decide)⟩, h.ne rfl (by decide)⟩,
    h.ne rfl (by decide)⟩

theorem StartsNumber.punctuation? {b : UInt8} (h : StartsNumber b) : punctuation? b = none := by
  rw [Json.punctuation?, if_neg (h.ne rfl (by decide)), if_neg (h.ne rfl (by decide)),
    if_neg (h.ne rfl (by decide)), if_neg (h.ne rfl (by decide)), if_neg (h.ne rfl (by decide)),
    if_neg (h.ne rfl (by decide))]

/-- No word begins like a number. -/
theorem StartsNumber.lexWord? {b : UInt8} (h : StartsNumber b) (rest : Bytes) :
    lexWord? (b :: rest) words = none := by
  have hnull : Text.stripFront? (Bytes.ofText "null") (b :: rest) = none :=
    if_neg (h.ne rfl (by decide)).symm
  have htrue : Text.stripFront? (Bytes.ofText "true") (b :: rest) = none :=
    if_neg (h.ne rfl (by decide)).symm
  have hfalse : Text.stripFront? (Bytes.ofText "false") (b :: rest) = none :=
    if_neg (h.ne rfl (by decide)).symm
  simp only [words, Json.lexWord?, hnull, htrue, hfalse]

/-! ### Tokens of texts -/

/-- Tokens that are found at the front of their text, whatever has been read before. -/
def Lexes (tokens : List Token) (rest : Bytes) : Prop :=
  ∀ found, lexFrom? found (tokens.flatMap Token.bytes ++ rest) =
    lexFrom? (tokens.reverse ++ found) rest

namespace Lexes

theorem append (h : Lexes tokens (tokens'.flatMap Token.bytes ++ rest)) (h' : Lexes tokens' rest) :
    Lexes (tokens ++ tokens') rest := by
  intro found
  rw [List.flatMap_append, List.append_assoc, h, h', List.reverse_append, List.append_assoc]

theorem single {b : UInt8} {more : Bytes} (hbytes : token.bytes = b :: more)
    (hb : isBlank b = false) (h : lexToken? (token.bytes ++ rest) = some (token, rest)) :
    Lexes [token] rest := by
  intro found
  rw [hbytes, List.cons_append] at h
  rw [List.flatMap_singleton, hbytes, List.cons_append, lexFrom?.eq_def]
  dsimp only
  rw [hb, if_neg Bool.false_ne_true]
  split
  · rename_i heq
    rw [h] at heq
    cases heq
  · rename_i heq
    rw [h] at heq
    cases heq
    rfl

theorem cons (h : Lexes [token] (tokens.flatMap Token.bytes ++ rest)) (h' : Lexes tokens rest) :
    Lexes (token :: tokens) rest :=
  append h h'

/-- A token that is one byte. -/
theorem punctuation {b : UInt8} (hbytes : token.bytes = [b]) (h : punctuation? b = some token)
    (hb : isBlank b = false) (rest : Bytes) : Lexes [token] rest := by
  refine single hbytes hb ?_
  rw [hbytes, List.cons_append, List.nil_append, lexToken?, h]

theorem null (rest : Bytes) : Lexes [.null] rest :=
  single (b := 0x6E) rfl rfl rfl

theorem bool (b : Bool) (rest : Bytes) : Lexes [.bool b] rest := by
  cases b with
  | true => exact single (b := 0x74) rfl rfl rfl
  | false => exact single (b := 0x66) rfl rfl rfl

theorem string (s : String) (rest : Bytes) : Lexes [.string (escape s)] rest := by
  refine single rfl (by decide) ?_
  show lexToken? (0x22 :: (escape s ++ [0x22] ++ rest)) = _
  rw [List.append_assoc, List.singleton_append, lexToken?, lexString?_escape]
  rfl

theorem number (n : Int) (h : EndsNumber rest) :
    Lexes [.number (Bytes.ofText (toString n))] rest := by
  have hwhole := isWhole_toString n
  obtain ⟨b, more, hcons, hb⟩ := hwhole.eq_cons
  refine single hcons hb.isBlank ?_
  have hlex := hwhole.lexNumber? h
  show lexToken? (Bytes.ofText (toString n) ++ rest) = _
  rw [hcons, List.cons_append] at hlex ⊢
  rw [lexToken?, hb.punctuation?]
  dsimp only
  rw [if_neg (hb.ne rfl (by decide)), lexPlain?, hb.lexWord?]
  dsimp only
  rw [hlex]

end Lexes

/-! ### Written values -/

/-- A text that can follow a value: nothing, a comma or the end of an array or object. -/
def EndsValue : Bytes → Prop
  | [] => True
  | b :: _ => b = 0x2C ∨ b = 0x5D ∨ b = 0x7D

theorem endsValue_comma (rest : Bytes) : EndsValue (0x2C :: rest) :=
  .inl rfl

theorem EndsValue.endsNumber (h : EndsValue rest) : EndsNumber rest := by
  cases rest with
  | nil => trivial
  | cons b rest => rcases h with rfl | rfl | rfl <;> exact ⟨rfl, by decide, by decide, by decide⟩

/-- The values that are made of texts and whole numbers. -/
inductive Written : Json → Prop
  | null : Written .null
  | bool (b : Bool) : Written (.bool b)
  | int (n : Int) : Written (ofInt n)
  | text (s : String) : Written (ofText s)
  | array (items : List Json) (h : ∀ v ∈ items, Written v) : Written (.array items)
  | object (members : List (String × Json)) (h : ∀ m ∈ members, Written m.2) :
      Written (.object (members.map fun (name, v) => (escape name, v)))

theorem lexes_tokensOfItems (items : List Json)
    (h : ∀ v ∈ items, ∀ rest, EndsValue rest → Lexes v.tokens rest) (hrest : EndsValue rest) :
    Lexes (tokensOfItems items) rest := by
  match items with
  | [] => exact fun _ => rfl
  | [v] => exact h v (List.mem_singleton_self v) rest hrest
  | v :: w :: items =>
    have hitems := lexes_tokensOfItems (w :: items)
      (fun v' hv' => h v' (List.mem_cons_of_mem v hv')) hrest
    have hcomma : Lexes (.comma :: tokensOfItems (w :: items)) rest :=
      .cons (.punctuation rfl rfl rfl _) hitems
    exact (h v List.mem_cons_self _ (endsValue_comma _)).append hcomma

theorem lexes_tokensOfMembers (members : List (String × Json))
    (h : ∀ m ∈ members, ∀ rest, EndsValue rest → Lexes m.2.tokens rest) (hrest : EndsValue rest) :
    Lexes (tokensOfMembers (members.map fun (name, v) => (escape name, v))) rest := by
  match members with
  | [] => exact fun _ => rfl
  | [(name, v)] =>
    have hv := h _ (List.mem_singleton_self _) rest hrest
    exact .cons (.string name _) (.cons (.punctuation rfl rfl rfl _) hv)
  | (name, v) :: m :: members =>
    have hmembers := lexes_tokensOfMembers (m :: members)
      (fun m' hm' => h m' (List.mem_cons_of_mem _ hm')) hrest
    have hcomma := Lexes.cons (Lexes.punctuation rfl rfl rfl _ : Lexes [.comma] _) hmembers
    have hv := (h _ List.mem_cons_self _ (endsValue_comma _)).append hcomma
    exact .cons (.string name _) (.cons (.punctuation rfl rfl rfl _) hv)

/-- The tokens of a written value are found in its text. -/
theorem Written.lexes (h : Written v) (hrest : EndsValue rest) : Lexes v.tokens rest := by
  induction h generalizing rest with
  | null => exact .null rest
  | bool b => exact .bool b rest
  | int n => exact .number n hrest.endsNumber
  | text s => exact .string s rest
  | array items h ih =>
    -- the closing bracket ends the last item
    have hclose : Lexes [.closeArray] rest := .punctuation rfl rfl rfl rest
    have hend : EndsValue (0x5D :: rest) := Or.inr (.inl rfl)
    have hitems := lexes_tokensOfItems items (fun v hv rest hrest => ih v hv hrest) hend
    exact .cons (.punctuation rfl rfl rfl _) (.append hitems hclose)
  | object members h ih =>
    have hclose : Lexes [.closeObject] rest := .punctuation rfl rfl rfl rest
    have hend : EndsValue (0x7D :: rest) := Or.inr (.inr rfl)
    have hmembers := lexes_tokensOfMembers members (fun m hm rest hrest => ih m hm hrest) hend
    exact .cons (.punctuation rfl rfl rfl _) (.append hmembers hclose)

/-! ### Values of tokens -/

open Reading

/-- The first item of an array is read like every other value. -/
theorem foldlM_tokensOfItems_first {items : List Json} (h : items ≠ [])
    (containers : List Container) :
    (tokensOfItems items).foldlM step? ⟨containers, .firstItem⟩ =
      (tokensOfItems items).foldlM step? ⟨containers, .value⟩ := by
  obtain ⟨token, more, hcons, hne⟩ :
      ∃ token more, tokensOfItems items = token :: more ∧ token ≠ .closeArray := by
    match items with
    | [] => exact absurd rfl h
    | [v] => cases v <;> exact ⟨_, _, rfl, by simp⟩
    | v :: _ :: _ => cases v <;> exact ⟨_, _, rfl, by simp⟩
  have hstep : step? ⟨containers, .firstItem⟩ token = step? ⟨containers, .value⟩ token := by
    cases token <;> first | rfl | exact absurd rfl hne
  rw [hcons, List.foldlM_cons, List.foldlM_cons, hstep]

/-- The first name of an object is read like every other name. -/
theorem foldlM_tokensOfMembers_first {members : List (Bytes × Json)} (h : members ≠ [])
    (containers : List Container) :
    (tokensOfMembers members).foldlM step? ⟨containers, .firstName⟩ =
      (tokensOfMembers members).foldlM step? ⟨containers, .name⟩ := by
  match members with
  | [] => exact absurd rfl h
  | [_] => rfl
  | _ :: _ :: _ => rfl

theorem foldlM_single (r : Reading) (token : Token) : [token].foldlM step? r = r.step? token := by
  rw [List.foldlM_cons]
  exact bind_pure _

-- a value may have any containers around it, so that those of its own can be added in the induction
mutual

/-- The tokens of a value complete it where one is awaited. -/
theorem foldlM_tokens (v : Json) (containers : List Container) :
    v.tokens.foldlM step? ⟨containers, .value⟩ = finish v containers := by
  match v with
  | .null | .bool _ | .number _ | .string _ => exact foldlM_single _ _
  | .array [] => exact foldlM_single ⟨.array [] :: containers, .firstItem⟩ .closeArray
  | .array (v :: items) =>
    have hitems := foldlM_tokensOfItems (v :: items) [] containers (List.cons_ne_nil v items)
    rw [← foldlM_tokensOfItems_first (List.cons_ne_nil v items)] at hitems
    rw [tokens, List.foldlM_cons]
    show List.foldlM step? ⟨.array [] :: containers, .firstItem⟩
      (tokensOfItems (v :: items) ++ [Token.closeArray]) = _
    rw [List.foldlM_append, hitems, Option.bind_eq_bind, Option.bind_some, foldlM_single]
    show finish (.array ((v :: items).reverse ++ []).reverse) containers = _
    rw [List.append_nil, List.reverse_reverse]
  | .object [] => exact foldlM_single ⟨.object [] :: containers, .firstName⟩ .closeObject
  | .object (m :: members) =>
    have hmembers :=
      foldlM_tokensOfMembers (m :: members) [] containers (List.cons_ne_nil m members)
    rw [← foldlM_tokensOfMembers_first (List.cons_ne_nil m members)] at hmembers
    rw [tokens, List.foldlM_cons]
    show List.foldlM step? ⟨.object [] :: containers, .firstName⟩
      (tokensOfMembers (m :: members) ++ [Token.closeObject]) = _
    rw [List.foldlM_append, hmembers, Option.bind_eq_bind, Option.bind_some, foldlM_single]
    show finish (.object ((m :: members).reverse ++ []).reverse) containers = _
    rw [List.append_nil, List.reverse_reverse]

theorem foldlM_tokensOfItems (items done : List Json) (outer : List Container) (hne : items ≠ []) :
    (tokensOfItems items).foldlM step? ⟨.array done :: outer, .value⟩ =
      some ⟨.array (items.reverse ++ done) :: outer, .separator⟩ := by
  match items with
  | [] => exact absurd rfl hne
  | [v] => exact foldlM_tokens v _
  | v :: w :: items =>
    have hitems := foldlM_tokensOfItems (w :: items) (v :: done) outer (List.cons_ne_nil w items)
    show (v.tokens ++ .comma :: tokensOfItems (w :: items)).foldlM step? _ = _
    rw [List.foldlM_append, foldlM_tokens v]
    show (tokensOfItems (w :: items)).foldlM step? _ = _
    rw [hitems, List.reverse_cons (a := v), List.append_assoc, List.singleton_append]

theorem foldlM_tokensOfMembers (members done : List (Bytes × Json)) (outer : List Container)
    (hne : members ≠ []) :
    (tokensOfMembers members).foldlM step? ⟨.object done :: outer, .name⟩ =
      some ⟨.object (members.reverse ++ done) :: outer, .separator⟩ := by
  match members with
  | [] => exact absurd rfl hne
  | [(name, v)] => exact foldlM_tokens v (.named done name :: outer)
  | (name, v) :: m :: members =>
    have hmembers := foldlM_tokensOfMembers (m :: members) ((name, v) :: done) outer
      (List.cons_ne_nil m members)
    show List.foldlM step? ⟨.named done name :: outer, .value⟩
      (v.tokens ++ Token.comma :: tokensOfMembers (m :: members)) = _
    rw [List.foldlM_append, foldlM_tokens v]
    show (tokensOfMembers (m :: members)).foldlM step? _ = _
    rw [hmembers, List.reverse_cons (a := (name, v)), List.append_assoc, List.singleton_append]

end

/-- **A value is read back from its tokens.** -/
theorem ofTokens?_tokens (v : Json) : ofTokens? v.tokens = some v := by
  rw [ofTokens?, Reading.start, foldlM_tokens]
  rfl

/-- **A value is read back from its text.** -/
theorem Written.read?_render (h : Written v) : read? v.render = some v := by
  have hall : Lexes v.tokens [] := h.lexes trivial
  have hlexes := hall []
  rw [List.append_nil, List.append_nil, lexFrom?] at hlexes
  rw [read?, lex?, render, hlexes, List.reverse_reverse]
  exact ofTokens?_tokens v

end EntitlementAuthority.Json
