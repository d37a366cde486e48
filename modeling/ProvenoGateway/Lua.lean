/-
ProvenoGateway/Lua.lean

The block and expression grammar of standard Lua over tokens, as a library of
its own.

The grammar is that of the reference manual with its left recursion unrolled:
an expression is operands joined by binary operators, a prefix expression a
name or a parenthesis with suffixes.  A statement that starts with a prefix
expression is an assignment if the expression ends as a variable and a call if
it ends as a call; `onVar`, `onCall` and `onValue` are what may follow in
either case.  Precedence is not part of it.  White space is not a token, so a
newline separates nothing.

The grammar is ambiguous where the manual's is: in `f` newline `(g)()` the
parenthesis may be an argument or a new statement.
-/
import ProvenoGateway.Grammar

namespace Lua

/-! ### Tokens -/

/-- `binop` are the operators that are only binary, `unop` those that are only
unary, `minus` the two that are both.  `literal` is a numeral, `nil`, `true` or
`false`; `label` is `::`. -/
inductive Kind
  | name | literal | string | vararg | binop | minus | unop
  | assign | comma | semicolon | dot | colon | label
  | lparen | rparen | lbracket | rbracket | lbrace | rbrace
  | break_ | do_ | else_ | elseif_ | end_ | for_ | function_ | goto_ | if_ | in_ | local_
  | repeat_ | return_ | then_ | until_ | while_
  deriving DecidableEq

/-- A token and its text; that of a string is its contents. -/
structure Token where
  kind : Kind
  text : List Char
  deriving DecidableEq

/-! ### The grammar -/

inductive Nonterminal
  | block | stats | ret | stat
  | onVar | onCall | onValue | targets | target | toVar | toValue
  | exp | exptail | operand | suffixes | index | call | args
  | exps | optExps | optSemicolon
  | body | params | moreParams | afterParam
  | table | fields | field | moreFields | separator
  | afterLocal | init | names | afterFor | step | elseifs | otherwise | path | method
  deriving DecidableEq

open Symbol in
/-- The right-hand sides. -/
def rules : Nonterminal → List (List (Symbol Kind Nonterminal))
  | .block => [[nonterminal .stats, nonterminal .ret]]
  | .stats => [[], [nonterminal .stat, nonterminal .stats]]
  | .ret => [[], [terminal .return_, nonterminal .optExps, nonterminal .optSemicolon]]
  | .stat => [
      [terminal .semicolon],
      [terminal .name, nonterminal .onVar],
      [terminal .lparen, nonterminal .exp, terminal .rparen, nonterminal .onValue],
      [terminal .label, terminal .name, terminal .label],
      [terminal .break_],
      [terminal .goto_, terminal .name],
      [terminal .do_, nonterminal .block, terminal .end_],
      [terminal .while_, nonterminal .exp, terminal .do_, nonterminal .block, terminal .end_],
      [terminal .repeat_, nonterminal .block, terminal .until_, nonterminal .exp],
      [terminal .if_, nonterminal .exp, terminal .then_, nonterminal .block,
        nonterminal .elseifs, nonterminal .otherwise, terminal .end_],
      [terminal .for_, terminal .name, nonterminal .afterFor],
      [terminal .function_, terminal .name, nonterminal .path, nonterminal .method,
        nonterminal .body],
      [terminal .local_, nonterminal .afterLocal]]
  -- after a variable, a call, or a parenthesis
  | .onVar => [
      [nonterminal .index, nonterminal .onVar], [nonterminal .call, nonterminal .onCall],
      [nonterminal .targets, terminal .assign, nonterminal .exp, nonterminal .exps]]
  | .onCall => [
      [], [nonterminal .index, nonterminal .onVar], [nonterminal .call, nonterminal .onCall]]
  | .onValue => [
      [nonterminal .index, nonterminal .onVar], [nonterminal .call, nonterminal .onCall]]
  | .targets => [[], [terminal .comma, nonterminal .target, nonterminal .targets]]
  | .target => [
      [terminal .name, nonterminal .toVar],
      [terminal .lparen, nonterminal .exp, terminal .rparen, nonterminal .toValue]]
  | .toVar => [
      [], [nonterminal .index, nonterminal .toVar], [nonterminal .call, nonterminal .toValue]]
  | .toValue => [
      [nonterminal .index, nonterminal .toVar], [nonterminal .call, nonterminal .toValue]]
  -- expressions
  | .exp => [[nonterminal .operand, nonterminal .exptail]]
  | .exptail => [
      [], [terminal .binop, nonterminal .operand, nonterminal .exptail],
      [terminal .minus, nonterminal .operand, nonterminal .exptail]]
  | .operand => [
      [terminal .literal], [terminal .string], [terminal .vararg],
      [terminal .function_, nonterminal .body], [nonterminal .table],
      [terminal .name, nonterminal .suffixes],
      [terminal .lparen, nonterminal .exp, terminal .rparen, nonterminal .suffixes],
      [terminal .unop, nonterminal .operand], [terminal .minus, nonterminal .operand]]
  | .suffixes => [
      [], [nonterminal .index, nonterminal .suffixes], [nonterminal .call, nonterminal .suffixes]]
  | .index => [
      [terminal .dot, terminal .name], [terminal .lbracket, nonterminal .exp, terminal .rbracket]]
  | .call => [[nonterminal .args], [terminal .colon, terminal .name, nonterminal .args]]
  | .args => [
      [terminal .lparen, nonterminal .optExps, terminal .rparen], [nonterminal .table],
      [terminal .string]]
  | .exps => [[], [terminal .comma, nonterminal .exp, nonterminal .exps]]
  | .optExps => [[], [nonterminal .exp, nonterminal .exps]]
  | .optSemicolon => [[], [terminal .semicolon]]
  -- functions
  | .body => [[terminal .lparen, nonterminal .params, terminal .rparen, nonterminal .block,
      terminal .end_]]
  | .params => [[], [terminal .vararg], [terminal .name, nonterminal .moreParams]]
  | .moreParams => [[], [terminal .comma, nonterminal .afterParam]]
  | .afterParam => [[terminal .vararg], [terminal .name, nonterminal .moreParams]]
  -- tables
  | .table => [[terminal .lbrace, nonterminal .fields, terminal .rbrace]]
  | .fields => [[], [nonterminal .field, nonterminal .moreFields]]
  | .moreFields => [[], [nonterminal .separator, nonterminal .fields]]
  | .separator => [[terminal .comma], [terminal .semicolon]]
  | .field => [
      [terminal .lbracket, nonterminal .exp, terminal .rbracket, terminal .assign,
        nonterminal .exp],
      [terminal .name, terminal .assign, nonterminal .exp], [nonterminal .exp]]
  -- the rest of a statement
  | .afterLocal => [
      [terminal .function_, terminal .name, nonterminal .body],
      [terminal .name, nonterminal .names, nonterminal .init]]
  | .names => [[], [terminal .comma, terminal .name, nonterminal .names]]
  | .init => [[], [terminal .assign, nonterminal .exp, nonterminal .exps]]
  | .afterFor => [
      [terminal .assign, nonterminal .exp, terminal .comma, nonterminal .exp, nonterminal .step,
        terminal .do_, nonterminal .block, terminal .end_],
      [nonterminal .names, terminal .in_, nonterminal .exp, nonterminal .exps, terminal .do_,
        nonterminal .block, terminal .end_]]
  | .step => [[], [terminal .comma, nonterminal .exp]]
  | .elseifs => [
      [], [terminal .elseif_, nonterminal .exp, terminal .then_, nonterminal .block,
        nonterminal .elseifs]]
  | .otherwise => [[], [terminal .else_, nonterminal .block]]
  | .path => [[], [terminal .dot, terminal .name, nonterminal .path]]
  | .method => [[], [terminal .colon, terminal .name]]

def grammar : Grammar Nonterminal Kind Token := ⟨rules, Token.kind⟩

abbrev Tree : Type := Grammar.Tree Nonterminal Token

/-! ### First sets -/

def argsFirst : List Kind := [.lparen, .lbrace, .string]

def suffixFirst : List Kind := [.dot, .lbracket, .colon] ++ argsFirst

def expFirst : List Kind := [.literal, .string, .vararg, .function_, .lbrace, .name, .lparen,
  .unop, .minus]

def statFirst : List Kind := [.semicolon, .name, .lparen, .label, .break_, .goto_, .do_, .while_,
  .repeat_, .if_, .for_, .function_, .local_]

/-- The nonterminals that may be empty. -/
def mayBeEmpty : List Nonterminal := [.block, .stats, .ret, .onCall, .targets, .toVar, .exptail,
  .suffixes, .exps, .optExps, .optSemicolon, .params, .moreParams, .fields, .moreFields, .init,
  .names, .step, .elseifs, .otherwise, .path, .method]

def first : Nonterminal → List Kind
  | .block => .return_ :: statFirst
  | .stats | .stat => statFirst
  | .ret => [.return_]
  | .onVar => [.comma, .assign] ++ suffixFirst
  | .onCall | .onValue | .toVar | .toValue | .suffixes => suffixFirst
  | .targets | .exps | .names | .moreParams | .step => [.comma]
  | .target => [.name, .lparen]
  | .exp | .optExps | .operand => expFirst
  | .exptail => [.binop, .minus]
  | .index => [.dot, .lbracket]
  | .call => .colon :: argsFirst
  | .args => argsFirst
  | .optSemicolon => [.semicolon]
  | .body => [.lparen]
  | .params | .afterParam => [.vararg, .name]
  | .table => [.lbrace]
  | .fields | .field => .lbracket :: expFirst
  | .moreFields | .separator => [.comma, .semicolon]
  | .afterLocal => [.function_, .name]
  | .init => [.assign]
  | .afterFor => [.assign, .comma, .in_]
  | .elseifs => [.elseif_]
  | .otherwise => [.else_]
  | .path => [.dot]
  | .method => [.colon]

def firstSets : grammar.FirstSets := ⟨fun n => mayBeEmpty.contains n, first⟩

theorem firstSets_closed : firstSets.Closed where
  nullable n := by cases n <;> decide
  first n := by cases n <;> decide

end Lua
