/-
ProvenoGateway/JsonParse.lean

The JSON reader, and the round trip

    Json.parse (Json.print v) = some v      (v without a `float`)

The reader accepts the JSON grammar: white space between tokens, strings with
every escape (surrogate pairs included, lone surrogates refused), numbers
without leading zeros.  It works on a list of characters with a fuel that
bounds the number of values still to be opened; the length of the text is
always enough, since every value writes at least one character.

The round trip is proved with an arbitrary text after the value, because that
is what the induction over arrays and objects needs.  The only thing asked of
that text is that it does not continue a number.
-/
import Mathlib.Data.List.TakeWhile
import ProvenoGateway.Json

namespace Json

/-! ### Lexical pieces -/

def isSpace (c : Char) : Bool := c = ' ' || c = '\n' || c = '\t' || c = '\r'

def skipSpace (cs : List Char) : List Char := cs.dropWhile isSpace

/-- Four hexadecimal digits. -/
def hex4 : List Char → Option (Nat × List Char)
  | a :: b :: c :: d :: rest => do
      let a ← Hex.val a
      let b ← Hex.val b
      let c ← Hex.val c
      let d ← Hex.val d
      some (((a * 16 + b) * 16 + c) * 16 + d, rest)
  | _ => none

/-- The rest of a `\u` escape: one code unit, or two that form a surrogate
pair.  A lone surrogate is refused. -/
def unicodeEscape (cs : List Char) : Option (Char × List Char) := do
  let (hi, rest) ← hex4 cs
  if 0xd800 ≤ hi ∧ hi < 0xdc00 then
    match rest with
    | '\\' :: 'u' :: rest => do
        let (lo, rest) ← hex4 rest
        if 0xdc00 ≤ lo ∧ lo < 0xe000 then
          some (Char.ofNat (0x10000 + (hi - 0xd800) * 0x400 + (lo - 0xdc00)), rest)
        else none
    | _ => none
  else if 0xdc00 ≤ hi ∧ hi < 0xe000 then none
  else some (Char.ofNat hi, rest)

/-- The character an escape stands for, read after its backslash. -/
def unescape : List Char → Option (Char × List Char)
  | [] => none
  | c :: rest =>
      if c = '"' then some ('"', rest)
      else if c = '\\' then some ('\\', rest)
      else if c = '/' then some ('/', rest)
      else if c = 'b' then some (Char.ofNat 0x08, rest)
      else if c = 't' then some (Char.ofNat 0x09, rest)
      else if c = 'n' then some (Char.ofNat 0x0a, rest)
      else if c = 'f' then some (Char.ofNat 0x0c, rest)
      else if c = 'r' then some (Char.ofNat 0x0d, rest)
      else if c = 'u' then unicodeEscape rest
      else none

/-- The characters of a string up to its closing quote, which is consumed. -/
def stringChars : Nat → List Char → Option (List Char × List Char)
  | 0, _ => none
  | _ + 1, [] => none
  | fuel + 1, c :: rest =>
      if c = '"' then some ([], rest)
      else if c = '\\' then do
        let (x, rest) ← unescape rest
        let (xs, rest) ← stringChars fuel rest
        some (x :: xs, rest)
      else if c.toNat < 0x20 then none
      else do
        let (xs, rest) ← stringChars fuel rest
        some (c :: xs, rest)

/-- A string, after its opening quote. -/
def string (cs : List Char) : Option (String × List Char) := do
  let (s, rest) ← stringChars (cs.length + 1) cs
  some (String.ofList s, rest)

/-- A nonempty run of digits. -/
def digits (cs : List Char) : Option (List Char × List Char) :=
  let ds := cs.takeWhile Char.isDigit
  if ds = [] then none else some (ds, cs.dropWhile Char.isDigit)

/-- The fraction of a number, empty if there is none. -/
def fraction : List Char → Option (List Char × List Char)
  | '.' :: rest => do
      let (ds, rest) ← digits rest
      some ('.' :: ds, rest)
  | cs => some ([], cs)

/-- The exponent of a number, empty if there is none. -/
def exponent : List Char → Option (List Char × List Char)
  | c :: rest =>
      if c = 'e' ∨ c = 'E' then
        match rest with
        | s :: rest' =>
            if s = '+' ∨ s = '-' then do
              let (ds, rest) ← digits rest'
              some (c :: s :: ds, rest)
            else do
              let (ds, rest) ← digits rest
              some (c :: ds, rest)
        | [] => none
      else some ([], c :: rest)
  | [] => some ([], [])

/-- The number an integer literal denotes.  `-0` and a literal outside the
64-bit ranges are not 64-bit integers. -/
def integer (negative : Bool) (ds : List Char) : JsonNumber :=
  let n := Nat.ofDigitChars 10 ds 0
  if negative then
    if h : 0 < n ∧ n ≤ 2 ^ 63 then .negInt ⟨-(n : Int), by omega, by omega⟩
    else .float (String.ofList ('-' :: ds))
  else
    if n < 2 ^ 64 then .posInt (UInt64.ofNat n)
    else .float (String.ofList ds)

/-- An unsigned number literal. -/
def unsigned (negative : Bool) (cs : List Char) : Option (JsonNumber × List Char) := do
  let (ds, rest) ← digits cs
  if ds.head? = some '0' ∧ 1 < ds.length then none
  else do
    let (frac, rest) ← fraction rest
    let (exp, rest) ← exponent rest
    if frac = [] ∧ exp = [] then some (integer negative ds, rest)
    else
      let sign := if negative then ['-'] else []
      some (.float (String.ofList (sign ++ ds ++ frac ++ exp)), rest)

def number : List Char → Option (JsonNumber × List Char)
  | '-' :: rest => unsigned true rest
  | cs => unsigned false cs

/-- The rest of a keyword. -/
def keyword (word : List Char) (v : Json) (cs : List Char) : Option (Json × List Char) :=
  if word <+: cs then some (v, cs.drop word.length) else none

/-! ### Values -/

mutual

/-- One value, with what follows it. -/
def value : Nat → List Char → Option (Json × List Char)
  | 0, _ => none
  | fuel + 1, cs =>
      match skipSpace cs with
      | [] => none
      | c :: rest =>
          if c = '{' then
            match skipSpace rest with
            | '}' :: rest => some (obj [], rest)
            | rest => do
                let (ms, rest) ← members fuel rest
                some (obj ms, rest)
          else if c = '[' then
            match skipSpace rest with
            | ']' :: rest => some (arr [], rest)
            | rest => do
                let (vs, rest) ← items fuel rest
                some (arr vs, rest)
          else if c = '"' then do
            let (s, rest) ← string rest
            some (str s, rest)
          else if c = 'n' then keyword ['u', 'l', 'l'] null rest
          else if c = 't' then keyword ['r', 'u', 'e'] (bool true) rest
          else if c = 'f' then keyword ['a', 'l', 's', 'e'] (bool false) rest
          else do
            let (n, rest) ← number (c :: rest)
            some (num n, rest)

/-- The items of a nonempty array, through its closing bracket. -/
def items : Nat → List Char → Option (List Json × List Char)
  | 0, _ => none
  | fuel + 1, cs => do
      let (v, rest) ← value fuel cs
      match skipSpace rest with
      | [] => none
      | c :: rest =>
          if c = ']' then some ([v], rest)
          else if c = ',' then do
            let (vs, rest) ← items fuel rest
            some (v :: vs, rest)
          else none

/-- The members of a nonempty object, through its closing brace. -/
def members : Nat → List Char → Option (List (String × Json) × List Char)
  | 0, _ => none
  | fuel + 1, cs =>
      match skipSpace cs with
      | '"' :: rest => do
          let (k, rest) ← string rest
          match skipSpace rest with
          | ':' :: rest => do
              let (v, rest) ← value fuel rest
              match skipSpace rest with
              | [] => none
              | c :: rest =>
                  if c = '}' then some ([(k, v)], rest)
                  else if c = ',' then do
                    let (ms, rest) ← members fuel rest
                    some ((k, v) :: ms, rest)
                  else none
          | _ => none
      | _ => none

end

/-- A whole text: one value and nothing but white space after it. -/
def parse (s : String) : Option Json := do
  let (v, rest) ← value (s.toList.length + 1) s.toList
  if skipSpace rest = [] then some v else none

/-! ### Reading back a string -/

/-- A `\u00xx` escape stands for the character it was written for. -/
theorem unicodeEscape_control {c : Char} (h : c.toNat < 0x20) (tail : List Char) :
    unicodeEscape ('0' :: '0' :: Hex.digit (c.toNat / 16) :: Hex.digit (c.toNat % 16) :: tail)
      = some (c, tail) := by
  have h0 : Hex.val '0' = some 0 := by decide
  have h1 := Hex.val_digit (c.toNat / 16) (by omega)
  have h2 := Hex.val_digit (c.toNat % 16) (by omega)
  have hn : ((0 * 16 + 0) * 16 + c.toNat / 16) * 16 + c.toNat % 16 = c.toNat := by omega
  simp only [unicodeEscape, hex4, h0, h1, h2, Option.bind_eq_bind, Option.bind_some, hn]
  rw [if_neg (by omega), if_neg (by omega), Char.ofNat_toNat]

/-- Either a character is written as it is, and it neither ends a string nor
opens an escape, or it is written as a backslash and something `unescape`
reads back. -/
theorem escapeChar_cases (c : Char) :
    (escapeChar c = [c] ∧ c ≠ '"' ∧ c ≠ '\\' ∧ ¬ c.toNat < 0x20) ∨
    ∃ e, escapeChar c = '\\' :: e ∧ ∀ tail, unescape (e ++ tail) = some (c, tail) := by
  have key : ∀ n : Nat, c.toNat = n → c = Char.ofNat n := by
    rintro n rfl
    exact (Char.ofNat_toNat c).symm
  unfold escapeChar
  split
  case h_1 h => right; exact ⟨['"'], rfl, fun tail => by rw [key _ h]; rfl⟩
  case h_2 h => right; exact ⟨['\\'], rfl, fun tail => by rw [key _ h]; rfl⟩
  case h_3 h => right; exact ⟨['b'], rfl, fun tail => by rw [key _ h]; rfl⟩
  case h_4 h => right; exact ⟨['t'], rfl, fun tail => by rw [key _ h]; rfl⟩
  case h_5 h => right; exact ⟨['n'], rfl, fun tail => by rw [key _ h]; rfl⟩
  case h_6 h => right; exact ⟨['f'], rfl, fun tail => by rw [key _ h]; rfl⟩
  case h_7 h => right; exact ⟨['r'], rfl, fun tail => by rw [key _ h]; rfl⟩
  case h_8 hq hb _ _ _ _ _ =>
    by_cases h : c.toNat < 0x20
    · right
      rw [if_pos h]
      exact ⟨_, rfl, fun tail => unicodeEscape_control h tail⟩
    · left
      rw [if_neg h]
      exact ⟨rfl, fun hc => hq (by rw [hc]; rfl), fun hc => hb (by rw [hc]; rfl), h⟩

/-- One written character is read back as that character. -/
theorem stringChars_escapeChar (fuel : Nat) (c : Char) (tail : List Char) :
    stringChars (fuel + 1) (escapeChar c ++ tail)
      = (stringChars fuel tail).map fun p => (c :: p.1, p.2) := by
  rcases escapeChar_cases c with ⟨he, hq, hb, hc⟩ | ⟨e, he, hu⟩
  · rw [he, List.singleton_append, stringChars, if_neg hq, if_neg hb, if_neg hc]
    rcases stringChars fuel tail with - | ⟨xs, rest⟩ <;> rfl
  · rw [he, List.cons_append, stringChars, if_neg (by decide), if_pos rfl, hu]
    rcases h : stringChars fuel tail with - | ⟨xs, rest⟩ <;> simp [h]

theorem stringChars_flatMap (s rest : List Char) : ∀ fuel, s.length < fuel →
    stringChars fuel (s.flatMap escapeChar ++ '"' :: rest) = some (s, rest) := by
  induction s with
  | nil =>
    intro fuel hf
    obtain ⟨f, rfl⟩ : ∃ f, fuel = f + 1 := ⟨fuel - 1, by simp at hf; omega⟩
    simp [stringChars]
  | cons c s ih =>
    intro fuel hf
    simp only [List.length_cons] at hf
    obtain ⟨f, rfl⟩ : ∃ f, fuel = f + 1 := ⟨fuel - 1, by omega⟩
    rw [List.flatMap_cons, List.append_assoc, stringChars_escapeChar, ih f (by omega)]
    rfl

theorem length_le_flatMap_escapeChar (s : List Char) :
    s.length ≤ (s.flatMap escapeChar).length := by
  induction s with
  | nil => simp
  | cons c s ih =>
    have hc : 1 ≤ (escapeChar c).length := by
      rcases escapeChar_cases c with ⟨he, -⟩ | ⟨e, he, -⟩ <;> simp [he]
    simp only [List.flatMap_cons, List.length_append, List.length_cons]
    omega

/-- A quoted string is read back, whatever follows it. -/
theorem string_quote (s : String) (rest : List Char) :
    string (s.toList.flatMap escapeChar ++ '"' :: rest) = some (s, rest) := by
  have hlen := length_le_flatMap_escapeChar s.toList
  unfold string
  rw [stringChars_flatMap _ _ _ (by simp only [List.length_append, List.length_cons]; omega)]
  simp

/-! ### Reading back a number -/

/-- A text that does not continue a number. -/
def NumberEnds (rest : List Char) : Prop :=
  ∀ c cs, rest = c :: cs → c.isDigit = false ∧ c ≠ '.' ∧ c ≠ 'e' ∧ c ≠ 'E'

theorem digits_append {ds rest : List Char} (hne : ds ≠ []) (hd : ∀ c ∈ ds, c.isDigit = true)
    (hr : NumberEnds rest) : digits (ds ++ rest) = some (ds, rest) := by
  have ht : (ds ++ rest).takeWhile Char.isDigit = ds := by
    rw [List.takeWhile_append_of_pos hd]
    cases rest with
    | nil => simp
    | cons c cs => simp [(hr c cs rfl).1]
  have hw : (ds ++ rest).dropWhile Char.isDigit = rest := by
    rw [List.dropWhile_append_of_pos hd]
    cases rest with
    | nil => simp
    | cons c cs => simp [(hr c cs rfl).1]
  simp only [digits, ht, hw, if_neg hne]

theorem fraction_of_ends {rest : List Char} (hr : NumberEnds rest) :
    fraction rest = some ([], rest) := by
  unfold fraction
  split
  · exact absurd rfl (hr _ _ rfl).2.1
  · rfl

theorem exponent_of_ends {rest : List Char} (hr : NumberEnds rest) :
    exponent rest = some ([], rest) := by
  cases rest with
  | nil => rfl
  | cons c cs =>
    obtain ⟨-, -, he, hE⟩ := hr c cs rfl
    simp [exponent, he, hE]

theorem isDigit_toDigits {n : Nat} : ∀ c ∈ Nat.toDigits 10 n, c.isDigit = true :=
  fun _ hc => Nat.isDigit_of_mem_toDigits (by decide) (by decide) hc

/-- The decimal digits of a positive number do not start with a zero. -/
theorem head_toDigits_ne_zero (n : Nat) (hn : 0 < n) :
    (Nat.toDigits 10 n).head? ≠ some '0' := by
  induction n using Nat.strong_induction_on with
  | _ n ih =>
    rw [Nat.toDigits_eq_if (by decide)]
    split
    case isTrue hlt =>
      rw [List.head?_cons]
      intro h
      have hd : n.digitChar = '0' := Option.some.inj h
      have hall : ∀ m, m < 10 → 0 < m → m.digitChar ≠ '0' := by decide
      exact hall n hlt hn hd
    case isFalse hge =>
      rw [List.head?_append_of_ne_nil _ Nat.toDigits_ne_nil]
      exact ih (n / 10) (by omega) (by omega)

theorem toDigits_no_leading_zero (n : Nat) :
    ¬ ((Nat.toDigits 10 n).head? = some '0' ∧ 1 < (Nat.toDigits 10 n).length) := by
  rintro ⟨h0, hlen⟩
  rcases Nat.eq_zero_or_pos n with rfl | hn
  · simp at hlen
  · exact head_toDigits_ne_zero n hn h0

theorem unsigned_toDigits (negative : Bool) (n : Nat) {rest : List Char} (hr : NumberEnds rest) :
    unsigned negative (Nat.toDigits 10 n ++ rest)
      = some (integer negative (Nat.toDigits 10 n), rest) := by
  unfold unsigned
  rw [digits_append Nat.toDigits_ne_nil isDigit_toDigits hr]
  simp only [Option.bind_eq_bind, Option.bind_some, if_neg (toDigits_no_leading_zero n),
    fraction_of_ends hr, exponent_of_ends hr, and_self, if_true]

theorem integer_posInt (n : UInt64) :
    integer false (Nat.toDigits 10 n.toNat) = .posInt n := by
  have hlt := n.toNat_lt
  simp [integer, Nat.ofDigitChars_ten_toDigits, hlt]

theorem integer_negInt (i : NegInt64) :
    integer true (Nat.toDigits 10 i.val.natAbs) = .negInt i := by
  obtain ⟨v, lo, neg⟩ := i
  have h : 0 < v.natAbs ∧ v.natAbs ≤ 2 ^ 63 := by omega
  have hv : -(v.natAbs : Int) = v := by omega
  simp only [integer, Nat.ofDigitChars_ten_toDigits, if_true, dif_pos h, hv]

/-- An integer is read back, whatever follows that is not part of a number. -/
theorem number_chars {n : JsonNumber} (hn : Exact (num n)) {rest : List Char}
    (hr : NumberEnds rest) : number (n.chars ++ rest) = some (n, rest) := by
  cases n with
  | posInt n =>
    have hne : ∀ cs, Nat.toDigits 10 n.toNat ++ rest ≠ '-' :: cs := by
      intro cs h
      have hm : '-' ∈ Nat.toDigits 10 n.toNat := by
        cases hd : Nat.toDigits 10 n.toNat with
        | nil => exact absurd hd Nat.toDigits_ne_nil
        | cons d ds =>
          rw [hd, List.cons_append, List.cons.injEq] at h
          simp [h.1]
      exact absurd (isDigit_toDigits _ hm) (by decide)
    unfold number
    split
    case h_1 h => exact absurd h (hne _)
    case h_2 => rw [JsonNumber.chars, unsigned_toDigits false _ hr, integer_posInt]
  | negInt i =>
    rw [JsonNumber.chars, List.cons_append]
    show unsigned true _ = _
    rw [unsigned_toDigits true _ hr, integer_negInt]
  | float text => exact absurd hn (by simp [Exact])


/-! ### Reading back a value -/

mutual

/-- A fuel that is enough to read the value back. -/
def weight : Json → Nat
  | arr vs => 1 + weightItems vs
  | obj ms => 1 + weightMembers ms
  | _ => 1

def weightItems : List Json → Nat
  | [] => 0
  | v :: vs => 1 + v.weight + weightItems vs

def weightMembers : List (String × Json) → Nat
  | [] => 0
  | (_, v) :: ms => 1 + v.weight + weightMembers ms

end

theorem skipSpace_cons {c : Char} (h : isSpace c = false) (cs : List Char) :
    skipSpace (c :: cs) = c :: cs := by
  simp [skipSpace, h]

theorem numberEnds_comma (cs : List Char) : NumberEnds (',' :: cs) := by
  rintro c _ h
  obtain ⟨rfl, -⟩ := List.cons.inj h
  decide

theorem numberEnds_bracket (cs : List Char) : NumberEnds (']' :: cs) := by
  rintro c _ h
  obtain ⟨rfl, -⟩ := List.cons.inj h
  decide

theorem numberEnds_brace (cs : List Char) : NumberEnds ('}' :: cs) := by
  rintro c _ h
  obtain ⟨rfl, -⟩ := List.cons.inj h
  decide

theorem numberEnds_nil : NumberEnds [] := by
  intro c cs h
  cases h

/-- The first character of a number is a digit or a minus sign. -/
theorem chars_num_head {n : JsonNumber} (hn : Exact (num n)) :
    ∃ c cs, n.chars = c :: cs ∧ (c.isDigit = true ∨ c = '-') := by
  cases n with
  | posInt n =>
    cases hd : Nat.toDigits 10 n.toNat with
    | nil => exact absurd hd Nat.toDigits_ne_nil
    | cons c cs => exact ⟨c, cs, hd, Or.inl (isDigit_toDigits c (by rw [hd]; simp))⟩
  | negInt i => exact ⟨'-', _, rfl, Or.inr rfl⟩
  | float text => exact absurd hn (by simp [Exact])

/-- A character that starts a number starts no other kind of value. -/
theorem number_start {c : Char} (h : c.isDigit = true ∨ c = '-') :
    isSpace c = false ∧ c ≠ '{' ∧ c ≠ '[' ∧ c ≠ '"' ∧ c ≠ 'n' ∧ c ≠ 't' ∧ c ≠ 'f' := by
  rcases h with h | rfl
  · refine ⟨?_, ?_, ?_, ?_, ?_, ?_, ?_⟩
    case refine_1 =>
      cases hs : isSpace c with
      | false => rfl
      | true =>
        simp only [isSpace, Bool.or_eq_true, decide_eq_true_eq] at hs
        rcases hs with ((rfl | rfl) | rfl) | rfl <;> exact absurd h (by decide)
    all_goals
      rintro rfl
      exact absurd h (by decide)
  · decide

/-- A value starts with a character that is neither white space nor a closing
bracket or brace. -/
theorem chars_head {v : Json} (hv : v.Exact) :
    ∃ c cs, v.chars = c :: cs ∧ isSpace c = false ∧ c ≠ ']' ∧ c ≠ '}' := by
  cases v with
  | null => exact ⟨'n', _, rfl, by decide⟩
  | bool b => cases b <;> exact ⟨_, _, rfl, by decide⟩
  | num n =>
    obtain ⟨c, cs, he, hc⟩ := chars_num_head hv
    refine ⟨c, cs, by rw [chars, he], (number_start hc).1, ?_, ?_⟩ <;>
      · rintro rfl
        exact absurd hc (by decide)
  | str s => exact ⟨'"', _, rfl, by decide⟩
  | arr vs => exact ⟨'[', _, by rw [chars], by decide⟩
  | obj ms => exact ⟨'{', _, by rw [chars], by decide⟩

theorem value_num {fuel : Nat} {n : JsonNumber} (hn : Exact (num n)) {rest : List Char}
    (hr : NumberEnds rest) : value (fuel + 1) (n.chars ++ rest) = some (num n, rest) := by
  have hread := number_chars hn hr
  obtain ⟨c, cs, he, hc⟩ := chars_num_head hn
  obtain ⟨hs, h1, h2, h3, h4, h5, h6⟩ := number_start hc
  rw [he, List.cons_append] at hread ⊢
  rw [value, skipSpace_cons hs]
  simp only [if_neg h1, if_neg h2, if_neg h3, if_neg h4, if_neg h5, if_neg h6, hread,
    Option.bind_eq_bind, Option.bind_some]

mutual

/-- Reading what was written for `v` gives `v`, whatever follows. -/
theorem value_chars : (v : Json) → v.Exact → ∀ (fuel : Nat) (rest : List Char),
    v.weight ≤ fuel → NumberEnds rest → value fuel (v.chars ++ rest) = some (v, rest)
  | null, _, fuel, rest, hf, _ => by
      obtain ⟨f, rfl⟩ : ∃ f, fuel = f + 1 := ⟨fuel - 1, by simp [weight] at hf; omega⟩
      simp [value, chars, skipSpace, isSpace, keyword]
  | bool true, _, fuel, rest, hf, _ => by
      obtain ⟨f, rfl⟩ : ∃ f, fuel = f + 1 := ⟨fuel - 1, by simp [weight] at hf; omega⟩
      simp [value, chars, skipSpace, isSpace, keyword]
  | bool false, _, fuel, rest, hf, _ => by
      obtain ⟨f, rfl⟩ : ∃ f, fuel = f + 1 := ⟨fuel - 1, by simp [weight] at hf; omega⟩
      simp [value, chars, skipSpace, isSpace, keyword]
  | num n, hv, fuel, rest, hf, hr => by
      obtain ⟨f, rfl⟩ : ∃ f, fuel = f + 1 := ⟨fuel - 1, by simp [weight] at hf; omega⟩
      rw [chars]
      exact value_num hv hr
  | str s, _, fuel, rest, hf, _ => by
      obtain ⟨f, rfl⟩ : ∃ f, fuel = f + 1 := ⟨fuel - 1, by simp [weight] at hf; omega⟩
      simp [value, chars, quote, skipSpace, isSpace, string_quote]
  | arr [], _, fuel, rest, hf, _ => by
      obtain ⟨f, rfl⟩ : ∃ f, fuel = f + 1 := ⟨fuel - 1, by simp [weight] at hf; omega⟩
      simp [value, chars, itemChars, skipSpace, isSpace]
  | arr (v :: vs), hv, fuel, rest, hf, hr => by
      rw [weight] at hf
      obtain ⟨f, rfl⟩ : ∃ f, fuel = f + 1 := ⟨fuel - 1, by omega⟩
      have ih := items_chars (v :: vs) (by simp) (by simpa [Exact] using hv) f rest (by omega)
      obtain ⟨c, cs, hc, hs, hb, -⟩ := chars_head (v := v) (by
        rw [Exact, ExactItems] at hv; exact hv.1)
      simp only [chars, itemChars, if_true, List.nil_append, hc, List.cons_append] at ih ⊢
      rw [value, skipSpace_cons (by decide)]
      simp only [if_neg (by decide : ¬ '[' = '{'), if_true, skipSpace_cons hs]
      split
      case h_1 heq => exact absurd (List.cons.inj heq).1 hb
      case h_2 =>
        simp only [List.append_assoc, List.cons_append, List.nil_append] at ih ⊢
        rw [ih]
        rfl
  | obj [], _, fuel, rest, hf, _ => by
      obtain ⟨f, rfl⟩ : ∃ f, fuel = f + 1 := ⟨fuel - 1, by simp [weight] at hf; omega⟩
      simp [value, chars, memberChars, skipSpace, isSpace]
  | obj ((k, v) :: ms), hv, fuel, rest, hf, hr => by
      rw [weight] at hf
      obtain ⟨f, rfl⟩ : ∃ f, fuel = f + 1 := ⟨fuel - 1, by omega⟩
      have ih := members_chars ((k, v) :: ms) (by simp) (by simpa [Exact] using hv) f rest
        (by omega)
      simp only [chars, memberChars, if_true, List.nil_append, quote, List.cons_append,
        List.append_assoc] at ih ⊢
      rw [value, skipSpace_cons (by decide)]
      simp only [if_true, skipSpace_cons (by decide : isSpace '"' = false)]
      split
      case h_1 heq => exact absurd (List.cons.inj heq).1 (by decide)
      case h_2 =>
        rw [ih]
        rfl

/-- Reading back the items of a nonempty array. -/
theorem items_chars : (vs : List Json) → vs ≠ [] → ExactItems vs →
    ∀ (fuel : Nat) (rest : List Char), weightItems vs ≤ fuel →
      items fuel (itemChars true vs ++ ']' :: rest) = some (vs, rest)
  | [], hne, _, _, _, _ => absurd rfl hne
  | [v], _, hv, fuel, rest, hf => by
      simp only [weightItems] at hf
      obtain ⟨f, rfl⟩ : ∃ f, fuel = f + 1 := ⟨fuel - 1, by omega⟩
      have hread := value_chars v hv.1 f (']' :: rest) (by omega) (numberEnds_bracket rest)
      simp only [itemChars, if_true, List.nil_append, List.append_nil]
      rw [items, hread]
      simp [skipSpace_cons (by decide : isSpace ']' = false)]
  | v :: w :: vs, _, hv, fuel, rest, hf => by
      rw [weightItems] at hf
      obtain ⟨f, rfl⟩ : ∃ f, fuel = f + 1 := ⟨fuel - 1, by omega⟩
      have ih := items_chars (w :: vs) (by simp) hv.2 f rest (by omega)
      have hread := value_chars v hv.1 f (',' :: (itemChars true (w :: vs) ++ ']' :: rest))
        (by omega) (numberEnds_comma _)
      simp only [itemChars, if_true, List.nil_append, List.append_assoc, List.cons_append,
        Bool.false_eq_true, if_false] at hread ih ⊢
      rw [items, hread]
      simp only [Option.bind_eq_bind, Option.bind_some,
        skipSpace_cons (by decide : isSpace ',' = false), if_neg (by decide : ¬ ',' = ']'),
        if_true, ih]

/-- Reading back the members of a nonempty object. -/
theorem members_chars : (ms : List (String × Json)) → ms ≠ [] → ExactMembers ms →
    ∀ (fuel : Nat) (rest : List Char), weightMembers ms ≤ fuel →
      members fuel (memberChars true ms ++ '}' :: rest) = some (ms, rest)
  | [], hne, _, _, _, _ => absurd rfl hne
  | [(k, v)], _, hv, fuel, rest, hf => by
      simp only [weightMembers] at hf
      obtain ⟨f, rfl⟩ : ∃ f, fuel = f + 1 := ⟨fuel - 1, by omega⟩
      have hread := value_chars v hv.1 f ('}' :: rest) (by omega) (numberEnds_brace rest)
      simp only [memberChars, if_true, List.nil_append, quote, List.append_assoc,
        List.cons_append, List.append_nil] at hread ⊢
      rw [members, skipSpace_cons (by decide)]
      simp only [string_quote, Option.bind_eq_bind, Option.bind_some,
        skipSpace_cons (by decide : isSpace ':' = false), hread,
        skipSpace_cons (by decide : isSpace '}' = false), if_true]
  | (k, v) :: m :: ms, _, hv, fuel, rest, hf => by
      rw [weightMembers] at hf
      obtain ⟨f, rfl⟩ : ∃ f, fuel = f + 1 := ⟨fuel - 1, by omega⟩
      have ih := members_chars (m :: ms) (by simp) hv.2 f rest (by omega)
      have hread := value_chars v hv.1 f (',' :: (memberChars true (m :: ms) ++ '}' :: rest))
        (by omega) (numberEnds_comma _)
      simp only [memberChars, if_true, List.nil_append, quote, List.append_assoc,
        List.cons_append, Bool.false_eq_true, if_false] at hread ih ⊢
      rw [members, skipSpace_cons (by decide)]
      simp only [string_quote, Option.bind_eq_bind, Option.bind_some,
        skipSpace_cons (by decide : isSpace ':' = false), hread,
        skipSpace_cons (by decide : isSpace ',' = false), if_neg (by decide : ¬ ',' = '}'),
        if_true, ih]

end

/-! ### The round trip -/

mutual

theorem weight_le_length : (v : Json) → v.Exact → v.weight ≤ v.chars.length
  | null, _ => by simp [weight, chars]
  | bool true, _ => by simp [weight, chars]
  | bool false, _ => by simp [weight, chars]
  | num n, hv => by
      obtain ⟨c, cs, he, -⟩ := chars_num_head hv
      simp [weight, chars, he]
  | str s, _ => by simp [weight, chars, quote]
  | arr vs, hv => by
      have h := weightItems_le_length true vs (by simpa [Exact] using hv)
      simp only [weight, chars, List.length_cons, List.length_append, List.length_nil, if_true] at h ⊢
      omega
  | obj ms, hv => by
      have h := weightMembers_le_length true ms (by simpa [Exact] using hv)
      simp only [weight, chars, List.length_cons, List.length_append, List.length_nil, if_true] at h ⊢
      omega

theorem weightItems_le_length (first : Bool) : (vs : List Json) → ExactItems vs →
    weightItems vs ≤ (itemChars first vs).length + if first then 1 else 0
  | [], _ => by simp [weightItems]
  | v :: vs, hv => by
      have h := weight_le_length v hv.1
      have ih := weightItems_le_length false vs hv.2
      cases first <;>
        simp only [weightItems, itemChars, List.length_append, List.length_cons, List.length_nil,
          if_true, Bool.false_eq_true, if_false] at ih ⊢ <;> omega

theorem weightMembers_le_length (first : Bool) : (ms : List (String × Json)) → ExactMembers ms →
    weightMembers ms ≤ (memberChars first ms).length + if first then 1 else 0
  | [], _ => by simp [weightMembers]
  | (k, v) :: ms, hv => by
      have h := weight_le_length v hv.1
      have ih := weightMembers_le_length false ms hv.2
      cases first <;>
        simp only [weightMembers, memberChars, List.length_append, List.length_cons,
          List.length_nil, if_true, Bool.false_eq_true, if_false] at ih ⊢ <;> omega

end

/-- **Round trip.**  The reader gives back every value without a `float`
from its compact text. -/
theorem parse_print (v : Json) (hv : v.Exact) : parse (print v) = some v := by
  have hread := value_chars v hv (v.chars.length + 1) [] (by
    have := weight_le_length v hv
    omega) numberEnds_nil
  rw [List.append_nil] at hread
  simp only [parse, print, String.toList_ofList, hread]
  rfl

/-- Reading back a text as bytes. -/
def fromSlice (bytes : ByteArray) : Option Json := do
  let s ← String.fromUTF8? bytes
  parse s

/-- The bytes of the compact text. -/
def toVec (v : Json) : ByteArray := v.print.toUTF8

theorem fromUTF8_toUTF8 (s : String) : String.fromUTF8? s.toUTF8 = some s := by
  have h : s.toUTF8.IsValidUTF8 := s.isValidUTF8
  simp only [String.fromUTF8?, dif_pos h]
  rfl

theorem toUTF8_fromUTF8 {bytes : ByteArray} {s : String} (h : String.fromUTF8? bytes = some s) :
    s.toUTF8 = bytes := by
  unfold String.fromUTF8? at h
  split at h
  · cases h
    rfl
  · cases h

theorem fromSlice_toVec (v : Json) (hv : v.Exact) : fromSlice (toVec v) = some v := by
  simp only [fromSlice, toVec, fromUTF8_toUTF8, Option.bind_eq_bind, Option.bind_some]
  exact parse_print v hv

end Json
