/-
ProvenoGateway/JsonPath.lean

Positions in JSON values, and integer literals, as a library of its own.

A position is a path of keys and indices; where an object has several members
of one key, the position is in the last of them, which is the one a reader
keeps.  Reading a syntax tree as a value moves no position (`follow_toValue`).

An integer literal is a run of digits with or without a minus sign, of any
length; `IntegerLiteral.number` is what a reader makes of it (`number_text`),
and is a 64-bit integer exactly when the literal is `Held`.
-/
import ProvenoGateway.JsonValue

namespace OrdMap

variable {κ : Type} [LinearOrder κ] {α β : Type}

theorem get_map (f : α → β) (m : OrdMap κ α) (k : κ) : (m.map f).get k = (m.get k).map f := by
  have hlist : ∀ l : List (κ × α),
      lookupList k (l.map fun e => (e.1, f e.2)) = (lookupList k l).map f := by
    intro l
    induction l with
    | nil => rfl
    | cons e rest ih =>
      rw [List.map_cons, lookupList, lookupList]
      split_ifs
      · rfl
      · exact ih
  exact hlist m.entries

theorem ofList_entries (m : OrdMap κ α) : ofList m.entries = m := by
  apply ext_get
  intro k
  show lookupList k (ofList m.entries).entries = lookupList k m.entries
  rw [entries_ofList m.sorted]

end OrdMap

namespace Json

/-! ### Positions -/

inductive Step
  | key (k : String)
  | item (i : Nat)

/-- The value at a position. -/
def follow : Json → List Step → Option Json
  | v, [] => some v
  | obj members, .key k :: path => ((OrdMap.ofList members).get k).bind fun v => v.follow path
  | arr items, .item i :: path => items[i]?.bind fun v => v.follow path
  | _, _ => none

/-- There is nothing below a null. -/
theorem isNull_of_follow {v w : Json} {path : List Step} (h : v.follow path = some w)
    (hw : w.isNull = false) : v.isNull = false := by
  rcases v with - | b | n | s | items | members
  · rcases path with - | ⟨s, path⟩
    · obtain rfl := Option.some.inj h
      exact hw
    · cases s <;> cases h
  all_goals rfl

theorem toMembers_map {double : String → Option String} {ms ns : List (String × Json)}
    (h : toMembers double ms = some ns) :
    (ms.map fun m => (m.1, m.2.toValue double)) = ns.map fun m => (m.1, some m.2) := by
  induction ms generalizing ns with
  | nil =>
    cases h
    rfl
  | cons m ms ih =>
    obtain ⟨k, v⟩ := m
    simp only [toMembers, Option.bind_eq_bind, Option.bind_eq_some_iff, Option.some.injEq] at h
    obtain ⟨w, hw, rest, hrest, rfl⟩ := h
    rw [List.map_cons, List.map_cons, ih hrest, hw]

theorem toValues_map {double : String → Option String} {vs ws : List Json}
    (h : toValues double vs = some ws) : vs.map (fun v => v.toValue double) = ws.map some := by
  induction vs generalizing ws with
  | nil =>
    cases h
    rfl
  | cons v vs ih =>
    simp only [toValues, Option.bind_eq_bind, Option.bind_eq_some_iff, Option.some.injEq] at h
    obtain ⟨w, hw, rest, hrest, rfl⟩ := h
    rw [List.map_cons, List.map_cons, ih hrest, hw]

/-- Members are read under their keys. -/
theorem get_toMembers {double : String → Option String} {ms ns : List (String × Json)} {k : String}
    {v : Json} (h : toMembers double ms = some ns) (hv : (OrdMap.ofList ms).get k = some v) :
    ∃ w, (OrdMap.ofList ns).get k = some w ∧ v.toValue double = some w := by
  have hmap := congrArg (fun l => (OrdMap.ofList l).get k) (toMembers_map h)
  simp only [← OrdMap.map_ofList, OrdMap.get_map] at hmap
  rw [hv] at hmap
  obtain ⟨w, hw, hsome⟩ := Option.map_eq_some_iff.mp hmap.symm
  exact ⟨w, hw, hsome.symm⟩

theorem getElem_toValues {double : String → Option String} {vs ws : List Json} {i : Nat}
    {v : Json} (h : toValues double vs = some ws) (hv : vs[i]? = some v) :
    ∃ w, ws[i]? = some w ∧ v.toValue double = some w := by
  have hmap := congrArg (fun l => l[i]?) (toValues_map h)
  simp only [List.getElem?_map] at hmap
  rw [hv] at hmap
  obtain ⟨w, hw, hsome⟩ := Option.map_eq_some_iff.mp hmap.symm
  exact ⟨w, hw, hsome.symm⟩

/-- The value at a position is the reading of the tree at that position. -/
theorem follow_toValue {double : String → Option String} {path : List Step} {v v' w : Json}
    (hpath : v.follow path = some w) (hv : v.toValue double = some v') :
    ∃ w', v'.follow path = some w' ∧ w.toValue double = some w' := by
  induction path generalizing v v' with
  | nil =>
    obtain rfl := Option.some.inj hpath
    exact ⟨v', rfl, hv⟩
  | cons s path ih =>
    rcases v with - | b | n | t | items | members
    case arr =>
      rcases s with k | i
      · cases hpath
      · obtain ⟨x, hx, hpath⟩ := Option.bind_eq_some_iff.mp hpath
        obtain ⟨ws, hws, rfl⟩ := Option.map_eq_some_iff.mp hv
        obtain ⟨y, hy, hxy⟩ := getElem_toValues hws hx
        obtain ⟨w', hw', hw⟩ := ih hpath hxy
        refine ⟨w', ?_, hw⟩
        rw [follow, hy]
        exact hw'
    case obj =>
      rcases s with k | i
      · obtain ⟨x, hx, hpath⟩ := Option.bind_eq_some_iff.mp hpath
        obtain ⟨ns, hns, rfl⟩ := Option.map_eq_some_iff.mp hv
        obtain ⟨y, hy, hxy⟩ := get_toMembers hns hx
        obtain ⟨w', hw', hw⟩ := ih hpath hxy
        refine ⟨w', ?_, hw⟩
        rw [follow, sortMembers, OrdMap.ofList_entries, hy]
        exact hw'
      · cases hpath
    all_goals
      cases s <;> cases hpath

/-! ### Integer literals -/

/-- A run of digits without a leading zero, and its sign. -/
structure IntegerLiteral where
  negative : Bool
  digits : List Char
  nonempty : digits ≠ []
  isDigit : ∀ c ∈ digits, c.isDigit = true
  trimmed : ¬ (digits.head? = some '0' ∧ 1 < digits.length)

namespace IntegerLiteral

variable (l : IntegerLiteral)

def natAbs : Nat := Nat.ofDigitChars 10 l.digits 0

/-- The integer it spells. -/
def value : Int := if l.negative then -l.natAbs else l.natAbs

def chars : List Char := if l.negative then '-' :: l.digits else l.digits

def text : String := String.ofList l.chars

/-- What a reader makes of it. -/
def number : JsonNumber := integer l.negative l.digits

/-- The literal of a 64-bit integer; `-0` is none. -/
def Held : Prop := -2 ^ 63 ≤ l.value ∧ l.value < 2 ^ 64 ∧ ¬ (l.negative = true ∧ l.value = 0)

instance decidableHeld : Decidable l.Held := inferInstanceAs (Decidable (_ ∧ _ ∧ ¬ (_ ∧ _)))

theorem value_of_negative (h : l.negative = true) : l.value = -l.natAbs := by
  rw [value, h, if_pos rfl]

theorem value_of_nonneg (h : l.negative = false) : l.value = l.natAbs := by
  rw [value, h, if_neg Bool.false_ne_true]

/-- A held literal is read as its integer. -/
theorem number_of_held (h : l.Held) :
    (∃ n : UInt64, l.number = .posInt n ∧ (n.toNat : Int) = l.value) ∨
    ∃ i : NegInt64, l.number = .negInt i ∧ i.val = l.value := by
  obtain ⟨hlo, hhi, hzero⟩ := h
  rcases hneg : l.negative with - | -
  · rw [value_of_nonneg l hneg] at hhi ⊢
    have hlt : l.natAbs < 2 ^ 64 := by omega
    refine Or.inl ⟨UInt64.ofNat l.natAbs, ?_, ?_⟩
    · show integer l.negative l.digits = _
      rw [hneg]
      exact if_pos hlt
    · rw [UInt64.toNat_ofNat_of_lt' hlt]
  · rw [value_of_negative l hneg] at hlo hzero ⊢
    have hbound : 0 < l.natAbs ∧ l.natAbs ≤ 2 ^ 63 := by
      constructor
      · exact Nat.pos_of_ne_zero fun h0 => hzero ⟨hneg, by rw [h0]; rfl⟩
      · omega
    refine Or.inr ⟨⟨-l.natAbs, by omega, by omega⟩, ?_, rfl⟩
    show integer l.negative l.digits = _
    rw [hneg]
    exact dif_pos hbound

/-- Any other literal is read as a double. -/
theorem number_of_not_held (h : ¬ l.Held) : l.number = .float l.text := by
  show integer l.negative l.digits = .float (String.ofList l.chars)
  rcases hneg : l.negative with - | -
  · have hge : ¬ l.natAbs < 2 ^ 64 := by
      intro hlt
      apply h
      refine ⟨?_, ?_, fun hn => ?_⟩
      · rw [value_of_nonneg l hneg]; omega
      · rw [value_of_nonneg l hneg]; omega
      · rw [hneg] at hn
        exact Bool.false_ne_true hn.1
    rw [chars, hneg, if_neg Bool.false_ne_true]
    exact if_neg hge
  · have hout : ¬ (0 < l.natAbs ∧ l.natAbs ≤ 2 ^ 63) := by
      rintro ⟨hpos, hle⟩
      apply h
      refine ⟨?_, ?_, fun hn => ?_⟩
      · rw [value_of_negative l hneg]; omega
      · rw [value_of_negative l hneg]; omega
      · have hzero := hn.2
        rw [value_of_negative l hneg] at hzero
        omega
    rw [chars, hneg, if_pos rfl]
    exact dif_neg hout

theorem unsigned_digits {rest : List Char} (hr : NumberEnds rest) :
    unsigned l.negative (l.digits ++ rest) = some (l.number, rest) := by
  unfold unsigned
  rw [digits_append l.nonempty l.isDigit hr]
  simp only [Option.bind_eq_bind, Option.bind_some, if_neg l.trimmed, fraction_of_ends hr,
    exponent_of_ends hr, and_self, if_true]
  rfl

theorem dash_notMem_digits : '-' ∉ l.digits :=
  fun h => absurd (l.isDigit '-' h) (by decide)

/-- The literal in a text, whatever follows it that is not part of a number. -/
theorem number_text {rest : List Char} (hr : NumberEnds rest) :
    Json.number (l.chars ++ rest) = some (l.number, rest) := by
  have hread := l.unsigned_digits hr
  rcases hneg : l.negative with - | -
  · rw [hneg] at hread
    rw [chars, hneg, if_neg Bool.false_ne_true]
    unfold Json.number
    split
    case h_1 rest' h =>
      have hmem : '-' ∈ l.digits := by
        rcases hd : l.digits with - | ⟨c, cs⟩
        · exact absurd hd l.nonempty
        · rw [hd, List.cons_append, List.cons.injEq] at h
          rw [h.1]
          exact List.mem_cons_self
      exact absurd hmem l.dash_notMem_digits
    case h_2 => exact hread
  · rw [hneg] at hread
    rw [chars, hneg, if_pos rfl]
    exact hread

theorem chars_start : ∃ c cs, l.chars = c :: cs ∧ (c.isDigit = true ∨ c = '-') := by
  rcases hneg : l.negative with - | -
  · rcases hd : l.digits with - | ⟨c, cs⟩
    · exact absurd hd l.nonempty
    · refine ⟨c, cs, ?_, Or.inl (l.isDigit c (hd ▸ List.mem_cons_self))⟩
      rw [chars, hneg, if_neg Bool.false_ne_true, hd]
  · refine ⟨'-', l.digits, ?_, Or.inr rfl⟩
    rw [chars, hneg, if_pos rfl]

/-- The literal as a value of a text. -/
theorem value_chars (fuel : Nat) {rest : List Char} (hr : NumberEnds rest) :
    Json.value (fuel + 1) (l.chars ++ rest) = some (num l.number, rest) := by
  have hread := l.number_text hr
  obtain ⟨c, cs, hcs, hc⟩ := l.chars_start
  obtain ⟨hs, h₁, h₂, h₃, h₄, h₅, h₆⟩ := number_start hc
  rw [hcs, List.cons_append] at hread ⊢
  rw [Json.value, skipSpace_cons hs]
  simp only [if_neg h₁, if_neg h₂, if_neg h₃, if_neg h₄, if_neg h₅, if_neg h₆, hread,
    Option.bind_eq_bind, Option.bind_some]

/-- The text of an object whose one member is the literal. -/
def memberText (key : String) : String :=
  String.ofList ('{' :: (quote key ++ ':' :: (l.chars ++ ['}'])))

theorem parse_memberText (key : String) :
    parse (l.memberText key) = some (obj [(key, num l.number)]) := by
  have hmembers : ∀ fuel, members (fuel + 2) (quote key ++ ':' :: (l.chars ++ ['}'])) =
      some ([(key, num l.number)], []) := by
    intro fuel
    have hread := l.value_chars fuel (numberEnds_brace [])
    simp only [quote, List.cons_append, List.append_assoc, List.nil_append]
    rw [members, skipSpace_cons (by decide)]
    simp only [string_quote, Option.bind_eq_bind, Option.bind_some,
      skipSpace_cons (by decide : isSpace ':' = false), hread,
      skipSpace_cons (by decide : isSpace '}' = false), if_true]
  have hvalue : ∀ fuel, Json.value (fuel + 3) ('{' :: (quote key ++ ':' :: (l.chars ++ ['}']))) =
      some (obj [(key, num l.number)], []) := by
    intro fuel
    have hm := hmembers fuel
    simp only [quote, List.cons_append] at hm ⊢
    rw [Json.value, skipSpace_cons (by decide)]
    simp only [if_true, skipSpace_cons (by decide : isSpace '"' = false)]
    split
    case h_1 heq => exact absurd (List.cons.inj heq).1 (by decide)
    case h_2 =>
      rw [hm]
      rfl
  rw [parse, memberText, String.toList_ofList]
  have hlen : ∃ fuel, ('{' :: (quote key ++ ':' :: (l.chars ++ ['}']))).length + 1 = fuel + 3 := by
    refine ⟨(quote key ++ (l.chars ++ ['}'])).length, ?_⟩
    simp only [List.length_cons, List.length_append, List.length_nil]
    omega
  obtain ⟨fuel, hfuel⟩ := hlen
  rw [hfuel, hvalue]
  rfl

/-- A text spells at most one integer. -/
theorem value_eq_of_text_eq {l l' : IntegerLiteral} (h : l.text = l'.text) :
    l.value = l'.value := by
  have hchars : l.chars = l'.chars := String.ofList_injective h
  have hsign : ∀ {a b : IntegerLiteral}, a.negative = true → b.negative = false →
      a.chars ≠ b.chars := by
    intro a b ha hb hab
    rw [chars, chars, ha, hb, if_pos rfl, if_neg Bool.false_ne_true] at hab
    exact b.dash_notMem_digits (hab ▸ List.mem_cons_self)
  rcases hneg : l.negative with - | - <;> rcases hneg' : l'.negative with - | -
  · rw [chars, chars, hneg, hneg'] at hchars
    rw [value_of_nonneg l hneg, value_of_nonneg l' hneg', natAbs, natAbs]
    rw [show l.digits = l'.digits from hchars]
  · exact absurd hchars.symm (hsign hneg' hneg)
  · exact absurd hchars (hsign hneg hneg')
  · rw [chars, chars, hneg, hneg'] at hchars
    rw [value_of_negative l hneg, value_of_negative l' hneg', natAbs, natAbs]
    rw [(List.cons.inj hchars).2]

/-- A literal has no decimal point and no exponent. -/
theorem notMem_text {c : Char} (hdigit : c.isDigit = false) (hdash : c ≠ '-') :
    c ∉ l.text.toList := by
  intro h
  have hmem : c ∈ l.chars := by rwa [text, String.toList_ofList] at h
  have hcases : c = '-' ∨ c ∈ l.digits := by
    rw [chars] at hmem
    split at hmem
    · exact List.mem_cons.mp hmem
    · exact Or.inr hmem
  rcases hcases with h | h
  · exact hdash h
  · exact absurd (l.isDigit c h) (by rw [hdigit]; exact Bool.false_ne_true)

/-- The literal of a natural number. -/
def ofNat (n : Nat) : IntegerLiteral where
  negative := false
  digits := Nat.toDigits 10 n
  nonempty := Nat.toDigits_ne_nil
  isDigit := isDigit_toDigits
  trimmed := toDigits_no_leading_zero n

theorem value_ofNat (n : Nat) : (ofNat n).value = n := by
  show ((Nat.ofDigitChars 10 (Nat.toDigits 10 n) 0 : Nat) : Int) = n
  rw [Nat.ofDigitChars_ten_toDigits]

end IntegerLiteral

end Json
