/-
ProvenoGateway/LuaLexer.lean

The lexical rules of standard Lua, as far as declarations need them, as a
library of its own.

`Lexes lex` are rules any lexer of Lua keeps: white space between tokens is
dropped, a word is read to its end, a one-character symbol is a token unless
the next character joins it, a quoted string without escapes is its contents.
`lex` is a lexer that keeps them: numerals are not checked, and there are no
long brackets.
-/
import ProvenoGateway.Lua

namespace Lua

/-! ### Words and symbols -/

def isNameStart (c : Char) : Bool := c.isAlpha || c = '_'

def isNameChar (c : Char) : Bool := c.isAlphanum || c = '_'

def isBlank (c : Char) : Bool := c = ' ' || c = '\n' || c = '\t' || c = '\r'

def keywords : List (List Char × Kind) := [
  ("and".toList, .binop), ("break".toList, .break_), ("do".toList, .do_), ("else".toList, .else_),
  ("elseif".toList, .elseif_), ("end".toList, .end_), ("false".toList, .literal),
  ("for".toList, .for_), ("function".toList, .function_), ("goto".toList, .goto_),
  ("if".toList, .if_), ("in".toList, .in_), ("local".toList, .local_), ("nil".toList, .literal),
  ("not".toList, .unop), ("or".toList, .binop), ("repeat".toList, .repeat_),
  ("return".toList, .return_), ("then".toList, .then_), ("true".toList, .literal),
  ("until".toList, .until_), ("while".toList, .while_)]

/-- A keyword, or a name. -/
def wordKind (word : List Char) : Kind := (keywords.lookup word).getD .name

def symbols : List (List Char × Kind) := [
  (['+'], .binop), (['*'], .binop), (['/'], .binop), (['%'], .binop), (['^'], .binop),
  (['&'], .binop), (['|'], .binop), (['<'], .binop), (['>'], .binop), (['/', '/'], .binop),
  (['<', '<'], .binop), (['>', '>'], .binop), (['=', '='], .binop), (['~', '='], .binop),
  (['<', '='], .binop), (['>', '='], .binop), (['.', '.'], .binop), (['-'], .minus),
  (['~'], .minus), (['#'], .unop), (['.', '.', '.'], .vararg), (['='], .assign), ([','], .comma),
  ([';'], .semicolon), (['.'], .dot), ([':'], .colon), ([':', ':'], .label), (['('], .lparen),
  ([')'], .rparen), (['['], .lbracket), ([']'], .rbracket), (['\x7b'], .lbrace),
  (['\x7d'], .rbrace)]

def symbolKind (symbol : List Char) : Option Kind := symbols.lookup symbol

/-- Whether a character goes on with the symbol before it. -/
def joins (c d : Char) : Bool :=
  (symbolKind [c, d]).isSome || (c = '-' && d = '-') || (c = '.' && d.isDigit) ||
    (c = '[' && (d = '[' || d = '='))

theorem mem_symbols {symbol : List Char} {k : Kind} (h : symbolKind symbol = some k) :
    (symbol, k) ∈ symbols := by
  obtain ⟨before, after, hsymbols, -⟩ := List.lookup_eq_some_iff.mp h
  rw [hsymbols]
  simp

theorem not_isDigit_of_isNameStart {c : Char} (h : isNameStart c = true) : c.isDigit = false := by
  have hstart : (decide (c.val ≥ 'A'.val ∧ c.val ≤ 'Z'.val) ||
      (decide (c.val ≥ 'a'.val) && decide (c.val ≤ 'z'.val)) || decide (c = '_')) = true := h
  have hdigit : c.isDigit = (decide (c.val ≥ '0'.val) && decide (c.val ≤ '9'.val)) := rfl
  have hlast : '9'.val.toNat = 57 := rfl
  have hupper : 'A'.val.toNat = 65 := rfl
  have hlower : 'a'.val.toNat = 97 := rfl
  rw [hdigit, Bool.and_eq_false_iff]
  right
  simp only [Bool.or_eq_true, Bool.and_eq_true, decide_eq_true_eq, decide_eq_false_iff_not,
    UInt32.le_iff_toNat_le, ge_iff_le] at hstart ⊢
  rcases hstart with (h | h) | rfl
  · omega
  · omega
  · decide

/-- A field name does not join the dot before it. -/
theorem joins_dot {c : Char} (h : isNameStart c = true) : joins '.' c = false := by
  have hsymbol : symbolKind ['.', c] = none := by
    cases hk : symbolKind ['.', c] with
    | none => rfl
    | some k =>
      have hall : ∀ e ∈ symbols, e.1.head? = some '.' → e.1.length = 2 →
          e.1.getLast? = some '.' := by decide
      have hlast := hall _ (mem_symbols hk) rfl rfl
      obtain rfl : c = '.' := Option.some.inj hlast
      cases h
  simp [joins, hsymbol, not_isDigit_of_isNameStart h]

/-! ### The rules -/

structure Lexes (lex : List Char → Option (List Token)) : Prop where
  empty : lex [] = some []
  blank : ∀ c text, isBlank c = true → lex (c :: text) = lex text
  word : ∀ c rest text, isNameStart c = true → (∀ d ∈ rest, isNameChar d = true) →
    (∀ d ∈ text.head?, isNameChar d = false) →
    lex (c :: (rest ++ text)) = (lex text).map (⟨wordKind (c :: rest), c :: rest⟩ :: ·)
  symbol : ∀ c k text, symbolKind [c] = some k → (∀ d ∈ text.head?, joins c d = false) →
    lex (c :: text) = (lex text).map (⟨k, [c]⟩ :: ·)
  quoted : ∀ contents text, (∀ c ∈ contents, c ≠ '"' ∧ c ≠ '\\' ∧ c ≠ '\n' ∧ c ≠ '\r') →
    lex ('"' :: (contents ++ '"' :: text)) = (lex text).map (⟨.string, contents⟩ :: ·)

namespace Lexes

variable {lex : List Char → Option (List Token)} (h : Lexes lex)
include h

/-- A word before a character that ends it. -/
theorem word_cons {c d : Char} {rest text : List Char} (hc : isNameStart c = true)
    (hrest : rest.all isNameChar = true) (hd : isNameChar d = false) :
    lex (c :: (rest ++ d :: text)) =
      (lex (d :: text)).map (⟨wordKind (c :: rest), c :: rest⟩ :: ·) := by
  apply h.word c rest (d :: text) hc (List.all_eq_true.mp hrest)
  intro e he
  obtain rfl : d = e := Option.some.inj he
  exact hd

/-- A symbol before a character that does not join it. -/
theorem symbol_cons {c d : Char} {k : Kind} {text : List Char} (hk : symbolKind [c] = some k)
    (hd : joins c d = false) :
    lex (c :: d :: text) = (lex (d :: text)).map (⟨k, [c]⟩ :: ·) := by
  apply h.symbol c k (d :: text) hk
  intro e he
  obtain rfl : d = e := Option.some.inj he
  exact hd

end Lexes

/-! ### A lexer -/

/-- What is being read, the last character first. -/
inductive Mode
  | start
  | word (read : List Char)
  | number (read : List Char)
  | symbol (read : List Char)
  | quoted (quote : Char) (escaped : Bool) (read : List Char)
  | comment

def apostrophe : Char := Char.ofNat 39

/-- The mode after the first character of a token, or a blank. -/
def begin (c : Char) : Option Mode :=
  if isBlank c then some .start
  else if isNameStart c then some (.word [c])
  else if c.isDigit then some (.number [c])
  else if c = '"' || c = apostrophe then some (.quoted c false [])
  else if (symbolKind [c]).isSome then some (.symbol [c])
  else none

/-- The token that ends here. -/
def close : Mode → Option (List Token)
  | .start | .comment => some []
  | .word read => some [⟨wordKind read.reverse, read.reverse⟩]
  | .number read => some [⟨.literal, read.reverse⟩]
  | .symbol read => (symbolKind read.reverse).map fun k => [⟨k, read.reverse⟩]
  | .quoted _ _ _ => none

/-- The token that ends, and the start of the next. -/
def turn (mode : Mode) (c : Char) : Option (List Token × Mode) :=
  (close mode).bind fun tokens => (begin c).map fun following => (tokens, following)

def next : Mode → Char → Option (List Token × Mode)
  | .start, c => turn .start c
  | .word read, c => if isNameChar c then some ([], .word (c :: read)) else turn (.word read) c
  | .number read, c =>
      if isNameChar c || c = '.' then some ([], .number (c :: read)) else turn (.number read) c
  | .symbol read, c =>
      if read = ['-'] && c = '-' then some ([], .comment)
      else if read = ['.'] && c.isDigit then some ([], .number (c :: read))
      else if (symbolKind (c :: read).reverse).isSome then some ([], .symbol (c :: read))
      else turn (.symbol read) c
  | .quoted quote true read, c => some ([], .quoted quote false (c :: read))
  | .quoted quote false read, c =>
      if c = quote then some ([⟨.string, read.reverse⟩], .start)
      else if c = '\\' then some ([], .quoted quote true (c :: read))
      else if c = '\n' || c = '\r' then none
      else some ([], .quoted quote false (c :: read))
  | .comment, c => some ([], if c = '\n' then .start else .comment)

def lexFrom : Mode → List Char → Option (List Token)
  | mode, [] => close mode
  | mode, c :: text => (next mode c).bind fun r => (lexFrom r.2 text).map (r.1 ++ ·)

def lex : List Char → Option (List Token) := lexFrom .start

/-! ### It keeps the rules -/

theorem lexFrom_cons {mode following : Mode} {c : Char} {text : List Char} {tokens : List Token}
    (h : next mode c = some (tokens, following)) :
    lexFrom mode (c :: text) = (lexFrom following text).map (tokens ++ ·) := by
  rw [lexFrom, h, Option.bind_some]

/-- Nothing is emitted while a token goes on. -/
theorem lexFrom_silent {mode following : Mode} {c : Char} {text : List Char}
    (h : next mode c = some ([], following)) :
    lexFrom mode (c :: text) = lexFrom following text := by
  rw [lexFrom_cons h]
  cases lexFrom following text <;> rfl

/-- A token that the next character ends. -/
theorem lexFrom_turn {mode : Mode} {text : List Char} {token : Token}
    (hclose : close mode = some [token])
    (hturn : ∀ c ∈ text.head?, next mode c = turn mode c) :
    lexFrom mode text = (lex text).map (token :: ·) := by
  cases text with
  | nil =>
    show close mode = (close .start).map (token :: ·)
    rw [hclose]
    rfl
  | cons c text =>
    have hnext : next mode c = turn mode c := hturn c rfl
    have hstart : next .start c = turn .start c := rfl
    rw [lex, lexFrom, lexFrom, hnext, hstart, turn, turn, hclose]
    cases begin c with
    | none => rfl
    | some following =>
      show (lexFrom following text).map ([token] ++ ·) =
        ((lexFrom following text).map ([] ++ ·)).map (token :: ·)
      cases lexFrom following text <;> rfl

theorem lex_cons {c : Char} {text : List Char} {mode : Mode} (h : begin c = some mode) :
    lex (c :: text) = lexFrom mode text := by
  apply lexFrom_silent
  show turn .start c = _
  rw [turn, h]
  rfl

theorem not_isBlank_of_isNameStart {c : Char} (h : isNameStart c = true) : isBlank c = false := by
  by_contra hblank
  rw [Bool.not_eq_false] at hblank
  simp only [isBlank, Bool.or_eq_true, decide_eq_true_eq] at hblank
  rcases hblank with ((rfl | rfl) | rfl) | rfl <;> revert h <;> decide

theorem lexFrom_word {rest read text : List Char} (hrest : ∀ d ∈ rest, isNameChar d = true)
    (htext : ∀ d ∈ text.head?, isNameChar d = false) :
    lexFrom (.word read) (rest ++ text) =
      (lex text).map (⟨wordKind (read.reverse ++ rest), read.reverse ++ rest⟩ :: ·) := by
  induction rest generalizing read with
  | nil =>
    rw [List.append_nil]
    apply lexFrom_turn rfl
    intro c hc
    rw [next, htext c hc]
    rfl
  | cons d rest ih =>
    rw [List.forall_mem_cons] at hrest
    have hstep : next (.word read) d = some ([], .word (d :: read)) := by
      rw [next, hrest.1]
      rfl
    rw [List.cons_append, lexFrom_silent hstep, ih hrest.2, List.reverse_cons, List.append_assoc]
    rfl

theorem lexFrom_quoted {contents read text : List Char}
    (h : ∀ c ∈ contents, c ≠ '"' ∧ c ≠ '\\' ∧ c ≠ '\n' ∧ c ≠ '\r') :
    lexFrom (.quoted '"' false read) (contents ++ '"' :: text) =
      (lex text).map (⟨.string, read.reverse ++ contents⟩ :: ·) := by
  induction contents generalizing read with
  | nil =>
    have hstep : next (.quoted '"' false read) '"' = some ([⟨.string, read.reverse⟩], .start) := by
      simp [next]
    rw [List.append_nil]
    exact lexFrom_cons hstep
  | cons c contents ih =>
    rw [List.forall_mem_cons] at h
    obtain ⟨⟨hquote, hescape, hn, hr⟩, hcontents⟩ := h
    have hstep : next (.quoted '"' false read) c = some ([], .quoted '"' false (c :: read)) := by
      simp [next, hquote, hescape, hn, hr]
    rw [List.cons_append, lexFrom_silent hstep, ih hcontents, List.reverse_cons, List.append_assoc]
    rfl

/-- The characters of symbols start nothing else. -/
theorem begin_symbol {c : Char} {k : Kind} (h : symbolKind [c] = some k) :
    begin c = some (.symbol [c]) := by
  have hall : (symbols.all fun e => e.1.all fun d =>
      !(isBlank d || isNameStart d || d.isDigit || d = '"' || d = apostrophe)) = true := rfl
  have hc := List.all_eq_true.mp (List.all_eq_true.mp hall _ (mem_symbols h)) c List.mem_cons_self
  simp only [Bool.not_eq_true', Bool.or_eq_false_iff] at hc
  obtain ⟨⟨⟨⟨h₁, h₂⟩, h₃⟩, h₄⟩, h₅⟩ := hc
  simp [begin, h₁, h₂, h₃, h₄, h₅, h]

theorem lexes_lex : Lexes lex where
  empty := rfl
  blank c text hc := lex_cons (by simp [begin, hc])
  word c rest text hc hrest htext := by
    have hbegin : begin c = some (.word [c]) := by
      simp [begin, not_isBlank_of_isNameStart hc, hc]
    rw [lex_cons hbegin]
    exact lexFrom_word hrest htext
  symbol c k text hk htext := by
    rw [lex_cons (begin_symbol hk)]
    have hclose : close (.symbol [c]) = some [⟨k, [c]⟩] := by
      show (symbolKind [c]).map _ = _
      rw [hk]
      rfl
    apply lexFrom_turn hclose
    intro d hd
    have hjoins := htext d hd
    simp only [joins, Bool.or_eq_false_iff] at hjoins
    obtain ⟨⟨⟨h₁, h₂⟩, h₃⟩, -⟩ := hjoins
    -- neither a comment, nor a numeral, nor a longer symbol
    have hcomment : (decide ([c] = ['-']) && decide (d = '-')) = false := by simpa using h₂
    have hnumber : (decide ([c] = ['.']) && d.isDigit) = false := by simpa using h₃
    have hlonger : (symbolKind [d, c].reverse).isSome = false := h₁
    simp only [next, hcomment, hnumber, hlonger, Bool.false_eq_true, if_false]
  quoted contents text h := by
    have hbegin : begin '"' = some (.quoted '"' false []) := rfl
    rw [lex_cons hbegin]
    exact lexFrom_quoted h

end Lua
