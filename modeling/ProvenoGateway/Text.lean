/-
ProvenoGateway/Text.lean

The string functions the gateway uses, on Lean strings, as a library of its
own.  Each is defined on the list of characters of its argument, with the
name and the meaning it has in Rust's standard library: a prefix and a suffix
are stripped at most once, `splitOnce` cuts at the first occurrence of the
separator, `lines` drops one final line ending and a carriage return before
each line feed.
-/
import Mathlib.Data.List.TakeWhile

namespace Text

def stripPrefix (pre s : String) : Option String :=
  if pre.toList <+: s.toList then some (String.ofList (s.toList.drop pre.toList.length)) else none

def stripSuffix (suf s : String) : Option String :=
  if suf.toList <:+ s.toList then
    some (String.ofList (s.toList.take (s.toList.length - suf.toList.length)))
  else none

def contains (c : Char) (s : String) : Bool := s.toList.contains c

/-- `s.split_once(c)`: what is before and after the first `c`. -/
def splitOnce (c : Char) (s : String) : Option (String × String) :=
  match s.toList.dropWhile (· ≠ c) with
  | [] => none
  | _ :: rest => some (String.ofList (s.toList.takeWhile (· ≠ c)), String.ofList rest)

def endsWith (c : Char) (s : String) : Bool := s.toList.getLast? = some c

/-- `s.matches(c).count()`. -/
def count (c : Char) (s : String) : Nat := s.toList.count c

/-- Concatenate with a separator. -/
def join (sep : String) : List String → String
  | [] => ""
  | [s] => s
  | s :: t :: rest => s ++ sep ++ join sep (t :: rest)

/-- Concatenate. -/
def concat (parts : List String) : String := parts.foldr (· ++ ·) ""

/-- The pieces of a list between occurrences of `c`; there is always one more
piece than occurrences. -/
def splitChars (c : Char) : List Char → List (List Char)
  | [] => [[]]
  | x :: xs =>
      if x = c then [] :: splitChars c xs
      else match splitChars c xs with
        | [] => [[x]]
        | piece :: pieces => (x :: piece) :: pieces

/-- One line without its final carriage return. -/
def chomp (line : List Char) : List Char :=
  if line.getLast? = some '\r' then line.dropLast else line

/-- `s.lines()`: what follows the last line feed is a line unless it is empty,
and keeps a carriage return. -/
def lines (s : String) : List String :=
  let pieces := splitChars '\n' s.toList
  let last := pieces.getLast?.getD []
  (pieces.dropLast.map chomp ++ if last = [] then [] else [last]).map String.ofList

/-- Rust's `char::is_whitespace`. -/
def isWhitespace (c : Char) : Bool :=
  let n := c.toNat
  (9 ≤ n && n ≤ 13) || n = 0x20 || n = 0x85 || n = 0xA0 || n = 0x1680 ||
    (0x2000 ≤ n && n ≤ 0x200A) || n = 0x2028 || n = 0x2029 || n = 0x202F || n = 0x205F ||
    n = 0x3000

/-- The maximal runs of characters that are not white space. -/
def splitWhitespaceChars : List Char → List (List Char)
  | [] => []
  | x :: xs =>
      if isWhitespace x then splitWhitespaceChars xs
      else match xs, splitWhitespaceChars xs with
        | y :: _, word :: words =>
            if isWhitespace y then [x] :: word :: words else (x :: word) :: words
        | _, words => [x] :: words

/-- `s.split_whitespace()`. -/
def splitWhitespace (s : String) : List String :=
  (splitWhitespaceChars s.toList).map String.ofList

/-- `s.trim_end_matches(c)`. -/
def trimEndMatches (c : Char) (s : String) : String :=
  String.ofList (s.toList.reverse.dropWhile (· = c)).reverse

def containsChars (part : List Char) : List Char → Bool
  | [] => part.isEmpty
  | c :: cs => part.isPrefixOf (c :: cs) || containsChars part cs

/-- What is before and after the first occurrence of `sep`. -/
def splitOnceChars (sep : List Char) : List Char → Option (List Char × List Char)
  | [] => if sep = [] then some ([], []) else none
  | c :: cs =>
      if sep <+: c :: cs then some ([], (c :: cs).drop sep.length)
      else (splitOnceChars sep cs).map fun r => (c :: r.1, r.2)

/-- `s.split_once(sep)` for a text `sep`. -/
def splitOnceText (sep s : String) : Option (String × String) :=
  (splitOnceChars sep.toList s.toList).map fun r => (String.ofList r.1, String.ofList r.2)

/-- `s.eq_ignore_ascii_case(t)`. -/
def eqIgnoreAsciiCase (s t : String) : Bool :=
  s.toList.map Char.toLower = t.toList.map Char.toLower

/-- `s.contains(part)`. -/
def containsText (part s : String) : Bool := containsChars part.toList s.toList

/-! ### Decoding bytes -/

/-- The bytes a UTF-8 sequence with this first byte goes on with: how many,
and the range of the first of them. -/
def utf8Lead (b : Nat) : Option (Nat × Nat × Nat) :=
  if 0xC2 ≤ b ∧ b ≤ 0xDF then some (1, 0x80, 0xBF)
  else if b = 0xE0 then some (2, 0xA0, 0xBF)
  else if b = 0xED then some (2, 0x80, 0x9F)
  else if 0xE1 ≤ b ∧ b ≤ 0xEF then some (2, 0x80, 0xBF)
  else if b = 0xF0 then some (3, 0x90, 0xBF)
  else if 0xF1 ≤ b ∧ b ≤ 0xF3 then some (3, 0x80, 0xBF)
  else if b = 0xF4 then some (3, 0x80, 0x8F)
  else none

/-- The continuation bytes that are there, at most `n`, the first of them in
the range `lo` to `hi`. -/
def utf8Tail : Nat → Nat → Nat → List Nat → List Nat
  | n + 1, lo, hi, b :: bs => if lo ≤ b ∧ b ≤ hi then b :: utf8Tail n 0x80 0xBF bs else []
  | _, _, _, _ => []

/-- The character of a first byte and its continuation. -/
def utf8Char (lead : Nat) (tail : List Nat) : Char :=
  let bits := match tail.length with
    | 1 => lead % 32
    | 2 => lead % 16
    | _ => lead % 8
  Char.ofNat (tail.foldl (fun acc b => acc * 64 + b % 64) bits)

/-- Each maximal ill-formed piece becomes U+FFFD. -/
def utf8LossyChars : Nat → List Nat → List Char
  | 0, _ => []
  | _, [] => []
  | fuel + 1, b :: bs =>
      if b < 0x80 then Char.ofNat b :: utf8LossyChars fuel bs
      else match utf8Lead b with
        | none => '\uFFFD' :: utf8LossyChars fuel bs
        | some (n, lo, hi) =>
            let tail := utf8Tail n lo hi bs
            let c := if tail.length = n then utf8Char b tail else '\uFFFD'
            c :: utf8LossyChars fuel (bs.drop tail.length)

/-- `String::from_utf8_lossy`. -/
def fromUtf8Lossy (bytes : ByteArray) : String :=
  String.ofList (utf8LossyChars bytes.size (bytes.toList.map UInt8.toNat))

/-! ### Cutting off a suffix -/

theorem stripSuffix_eq_some {suf s t : String} : stripSuffix suf s = some t ↔ s = t ++ suf := by
  unfold stripSuffix
  constructor
  · intro h
    split at h
    case isTrue hsuf =>
      cases h
      apply String.toList_inj.mp
      rw [String.toList_append, String.toList_ofList]
      obtain ⟨start, hstart⟩ := hsuf
      rw [← hstart, List.length_append, Nat.add_sub_cancel, List.take_left]
    case isFalse => cases h
  · rintro rfl
    have hsuf : suf.toList <:+ (t ++ suf).toList := by
      rw [String.toList_append]
      exact List.suffix_append _ _
    rw [if_pos hsuf, String.toList_append, List.length_append, Nat.add_sub_cancel, List.take_left,
      String.ofList_toList]

/-! ### One after the other -/

theorem concat_cons (s : String) (parts : List String) :
    concat (s :: parts) = s ++ concat parts := rfl

theorem toList_concat (parts : List String) :
    (concat parts).toList = parts.flatMap String.toList := by
  induction parts with
  | nil => rfl
  | cons s parts ih => rw [concat_cons, String.toList_append, ih, List.flatMap_cons]

/-! ### Splitting at a character -/

theorem contains_eq_false {c : Char} {s : String} : contains c s = false ↔ c ∉ s.toList := by
  simp [contains]

/-- A text without the separator, the separator and a rest are cut exactly
there. -/
theorem splitOnce_append {c : Char} {s : String} (hs : contains c s = false) (t : String) :
    splitOnce c (s ++ (String.singleton c ++ t)) = some (s, t) := by
  have hc := contains_eq_false.mp hs
  have hall : ∀ x ∈ s.toList, decide (x ≠ c) = true := by
    intro x hx
    simp only [decide_eq_true_eq]
    rintro rfl
    exact hc hx
  have hd : (s.toList ++ c :: t.toList).dropWhile (· ≠ c) = c :: t.toList := by
    rw [List.dropWhile_append_of_pos hall]
    simp
  have ht : (s.toList ++ c :: t.toList).takeWhile (· ≠ c) = s.toList := by
    rw [List.takeWhile_append_of_pos hall]
    simp
  have hl : (s ++ (String.singleton c ++ t)).toList = s.toList ++ c :: t.toList := by
    simp [String.toList_append]
  simp only [splitOnce, hl, hd, ht, String.ofList_toList]

/-- What `splitOnce` gives is the text around a separator. -/
theorem splitOnce_eq_some {c : Char} {s a b : String} (h : splitOnce c s = some (a, b)) :
    s = a ++ (String.singleton c ++ b) ∧ contains c a = false := by
  unfold splitOnce at h
  split at h
  case h_1 => cases h
  case h_2 x rest heq =>
    simp only [Option.some.injEq, Prod.mk.injEq] at h
    obtain ⟨rfl, rfl⟩ := h
    have hx : x = c := by
      have := List.head?_dropWhile_not (· ≠ c) s.toList
      rw [heq] at this
      simpa using this
    subst hx
    have hs := List.takeWhile_append_dropWhile (p := (· ≠ x)) (l := s.toList)
    rw [heq] at hs
    refine ⟨?_, ?_⟩
    · apply String.toList_inj.mp
      simp only [String.toList_append, String.toList_ofList, String.toList_singleton,
        List.singleton_append]
      exact hs.symm
    · rw [contains_eq_false, String.toList_ofList]
      intro hm
      have := List.mem_takeWhile_imp hm
      simp at this

/-! ### Words -/

/-- A word of a text with one more character in front. -/
theorem mem_splitWhitespaceChars_cons {x : Char} {xs word : List Char}
    (hx : isWhitespace x = false) (h : word ∈ splitWhitespaceChars (x :: xs)) :
    word = [x] ∨ word ∈ splitWhitespaceChars xs ∨
      ∃ w ∈ splitWhitespaceChars xs, word = x :: w := by
  unfold splitWhitespaceChars at h
  rw [if_neg (by rw [hx]; exact Bool.false_ne_true)] at h
  rcases xs with - | ⟨y, ys⟩
  · exact Or.inl (List.mem_singleton.mp h)
  rcases hw : splitWhitespaceChars (y :: ys) with - | ⟨w, words⟩
  · rw [hw] at h
    exact Or.inl (List.mem_singleton.mp h)
  · rw [hw] at h
    have h : word ∈ if isWhitespace y = true then [x] :: w :: words else (x :: w) :: words := h
    split at h
    · rcases List.mem_cons.mp h with h | h
      · exact Or.inl h
      · exact Or.inr (Or.inl h)
    · rcases List.mem_cons.mp h with h | h
      · exact Or.inr (Or.inr ⟨w, List.mem_cons_self, h⟩)
      · exact Or.inr (Or.inl (List.mem_cons_of_mem _ h))

/-- Words have no white space in them. -/
theorem not_isWhitespace_of_mem {cs word : List Char} (hword : word ∈ splitWhitespaceChars cs) :
    ∀ c ∈ word, isWhitespace c = false := by
  induction cs generalizing word with
  | nil => exact absurd hword List.not_mem_nil
  | cons x xs ih =>
    rcases hx : isWhitespace x with - | -
    · rcases mem_splitWhitespaceChars_cons hx hword with rfl | hword | ⟨w, hw, rfl⟩
      · intro c hc
        rw [List.mem_singleton.mp hc]
        exact hx
      · exact ih hword
      · intro c hc
        rcases List.mem_cons.mp hc with rfl | hc
        · exact hx
        · exact ih hw c hc
    · have hskip : splitWhitespaceChars (x :: xs) = splitWhitespaceChars xs := if_pos hx
      rw [hskip] at hword
      exact ih hword

/-! ### Lines -/

theorem splitChars_cons (c x : Char) (xs : List Char) : splitChars c (x :: xs) =
    if x = c then [] :: splitChars c xs
    else match splitChars c xs with
      | [] => [[x]]
      | piece :: pieces => (x :: piece) :: pieces := rfl

theorem splitChars_ne_nil (c : Char) (cs : List Char) : splitChars c cs ≠ [] := by
  cases cs with
  | nil => exact List.cons_ne_nil _ _
  | cons x xs =>
    rw [splitChars_cons]
    split
    · exact List.cons_ne_nil _ _
    · split <;> exact List.cons_ne_nil _ _

/-- The pieces of two texts around a separator. -/
theorem splitChars_append (c : Char) (a b : List Char) :
    splitChars c (a ++ c :: b) = splitChars c a ++ splitChars c b := by
  induction a with
  | nil =>
    show (if c = c then [] :: splitChars c b else _) = [] :: splitChars c b
    exact if_pos rfl
  | cons x a ih =>
    rw [List.cons_append, splitChars_cons, splitChars_cons, ih]
    split
    · rfl
    · rcases ha : splitChars c a with - | ⟨piece, pieces⟩
      · exact absurd ha (splitChars_ne_nil c a)
      · rfl

theorem length_splitChars (c : Char) (cs : List Char) :
    (splitChars c cs).length = cs.count c + 1 := by
  induction cs with
  | nil => rfl
  | cons x cs ih =>
    rw [splitChars_cons]
    split
    case isTrue h =>
      rw [h, List.length_cons, ih, List.count_cons_self]
    case isFalse h =>
      rw [List.count_cons_of_ne (by simpa using h), ← ih]
      rcases hp : splitChars c cs with - | ⟨piece, pieces⟩
      · exact absurd hp (splitChars_ne_nil c cs)
      · rfl

/-- A text without the separator is one piece. -/
theorem splitChars_of_notMem {c : Char} {cs : List Char} (h : c ∉ cs) :
    splitChars c cs = [cs] := by
  induction cs with
  | nil => rfl
  | cons x cs ih =>
    obtain ⟨hx, hcs⟩ := not_or.mp (mt List.mem_cons.mpr h)
    rw [splitChars_cons, if_neg (Ne.symm hx), ih hcs]

/-- A line is what it was before its carriage return was dropped. -/
theorem chomp_cases (line : List Char) : chomp line = line ∨ line = chomp line ++ ['\r'] := by
  unfold chomp
  split
  case isTrue h =>
    obtain ⟨init, rfl⟩ := List.getLast?_eq_some_iff.mp h
    rw [List.dropLast_concat]
    exact Or.inr rfl
  case isFalse => exact Or.inl rfl

/-- Each piece between line feeds is a line, up to a carriage return, but for an
empty last piece. -/
theorem getElem_lines {s : String} {i : Nat} {piece : List Char}
    (h : (splitChars '\n' s.toList)[i]? = some piece) :
    ((lines s)[i]?.getD "").toList = piece ∨
      ((lines s)[i]?.getD "").toList ++ ['\r'] = piece := by
  unfold lines
  rcases List.eq_nil_or_concat (splitChars '\n' s.toList) with hnil | ⟨init, last, hconcat⟩
  · exact absurd hnil (splitChars_ne_nil _ _)
  rw [List.concat_eq_append] at hconcat
  rw [hconcat] at h ⊢
  simp only [List.dropLast_concat, List.getLast?_concat, Option.getD_some]
  rcases Nat.lt_trichotomy i init.length with hi | hi | hi
  · have hpiece : init[i]? = some piece := by rw [← h, List.getElem?_append_left hi]
    have hline : ((init.map chomp ++ if last = [] then [] else [last]).map String.ofList)[i]? =
        some (String.ofList (chomp piece)) := by
      rw [List.getElem?_map, List.getElem?_append_left (by rw [List.length_map]; exact hi),
        List.getElem?_map, hpiece]
      rfl
    rw [hline, Option.getD_some, String.toList_ofList]
    rcases chomp_cases piece with hp | hp
    · exact Or.inl hp
    · exact Or.inr hp.symm
  · -- the piece after the last line feed
    have hlast : last = piece := by
      rw [hi, List.getElem?_append_right (Nat.le_refl _), Nat.sub_self] at h
      exact Option.some.inj h
    subst hlast
    rw [List.getElem?_map, List.getElem?_append_right (by rw [List.length_map, hi]),
      List.length_map, hi, Nat.sub_self]
    split
    case isTrue he => exact Or.inl he.symm
    case isFalse => exact Or.inl String.toList_ofList
  · rw [List.getElem?_eq_none (by rw [List.length_append]; exact hi)] at h
    cases h

end Text
