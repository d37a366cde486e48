/-
ProvenoGateway/Dialect.lean

The Lua dialect rules and compiling a program with its prelude
(`dialect.rs`).

A parse or compile error inside the prelude, which is generated, is a panic,
so the outcome of `compileProgram` has three forms.  Line numbers have 32
bits.
-/
import ProvenoGateway.Core

namespace ProvenoGateway

structure LintError where
  line : Nat
  message : String
  deriving DecidableEq

/-- The dialect rules, as the pinned core enforces them. -/
def dialectRules : String :=
"# Lua dialect (version 5)

Programs are a restricted, deterministic Lua. The rules below are enforced
before the program runs; a violation is returned as a line-numbered error.

- Not available (rejected at parse time): debug, io, os, package, require,
  load, dofile, loadfile, loadstring, collectgarbage, setmetatable,
  getmetatable, rawget, rawset, setfenv, getfenv, coroutine.
- Integers only. There are no floats and no float literals. Use `//` for
  division; `/` is not supported.
- Non-integer numbers returned by tools arrive as decimal strings, such as
  \"2500.75\". `decimal.parse(text, scale)` turns one into an integer counting
  units of 10^-scale: `decimal.parse(\"2500.75\", 2)` is 250075. Compare and add
  integers of the same scale, and turn one back into text with
  `decimal.format(value, scale)`. Fewer fractional digits than `scale` are
  padded, so `decimal.parse(\"2500.0\", 2)` is 250000. More is an error even
  when the extra digits are zeros: `decimal.parse(\"2550.750\", 2)` fails. Parse
  at a scale at least as large as the digits the tool returns, and narrow with
  `decimal.rescale(value, from, to)`, which fails rather than drop a non-zero
  digit. `decimal` functions never divide or round; `math.scale_div` divides
  and truncates. **Its third argument is a multiplier, not a number of digits**,
  unlike `scale` in the `decimal` functions: a percentage move in basis points is
  `math.scale_div(now - past, past, 10000)`, and passing `4` there multiplies by
  4, which truncates a 2% move to 0. Scales run from 0 to 18, and exponents
  such as \"1e3\" are refused; a very large or very small number from a tool can arrive in that
  form, such as \"1e-7\". A field the Tool API types
  `integer|string(decimal)` can arrive as either, and `decimal.parse` takes
  only a string, so write `decimal.parse(tostring(v), 2)`. `tonumber` parses whole numbers only: it
  returns nil for \"2500.75\".
- No user-defined globals. Declare every variable and function `local`; the
  only globals are the library names listed below.
- Iterate tables with `pairs_sorted(t)`; `pairs` is also sorted, and `ipairs`
  walks arrays.
- Every call returns exactly one value, and a function returns one value:
  `return a, b` does not compile. The one two-value form in the language is
  `local ok, err = pcall(function() ... end)`; a third name there gets nil.
  Anywhere else, as in `local ok = pcall(f)`, `return pcall(f)` or
  `if pcall(f) then`, `pcall` gives `ok` alone. There is no multiple
  assignment: `ok, err = pcall(f)` does not compile, so declare the pair with
  `local`.
- Functions take a fixed parameter list; `...` is rejected.
- Strings have methods: `s:sub(1, 4)` is `string.sub(s, 1, 4)`, for every
  `string` function listed below.
- Two shapes fail before the run with `bytecode verification failed:
  RetStackMismatch` at line 0. This is a known core bug, not a mistake in the
  program, but it must be avoided:
  - `return` in the body of a `for ... in ipairs(...)`, `pairs(...)` or
    `pairs_sorted(...)` loop, even inside an `if` or an inner loop, and
    whether or not the loop is in a function. Set a local and `break`, then
    return after the loop, or loop with `for i = 1, #t do`, where `return`
    works. A `function() ... end` written in the loop body may `return`, so
    `pcall(function() return ... end)` inside the loop is fine.
  - A `function t.name(a)` or `function t:name(a)` statement. Write
    `t.name = function(self, a) ... end` instead; `t:name(a)` then works.
- The standard library is this list and nothing else. Any other name under
  `string`, `math`, `table`, `json` or `decimal` is nil, and calling it fails.
  - string: `len`, `sub`, `find`, `find_literal`, `upper`, `lower`, `rep`,
    `byte`, `char`, `format`.
  - math: `abs`, `min`, `max`, `scale_div(a, b, multiplier)`
    (`a * multiplier` divided by `b`, truncated towards zero, where `//`
    floors: a -2.0004% move is -200 basis points, not -201; `multiplier` is a
    plain factor such as 100 or 10000, not a digit count), `maxinteger`,
    `mininteger`.
  - table: `insert`, `remove`, `concat`, `sort`, `move`.
  - json: `encode`, `decode`, `decode_strings`. `decode` rejects a number with
    a fractional part or an exponent; `decode_strings` returns every number as
    its source text.
  - decimal: `parse(text, scale)`, `format(value, scale)`,
    `rescale(value, from, to)`.
  - Globals: `pcall`, `error`, `type`, `tostring`, `tonumber`, `select`,
    `unpack`, `pairs_sorted`, `pairs`, `ipairs`, `log`, `print`. `type`
    answers \"integer\" for a number, never \"number\".
- There are no string patterns. `string.match`, `string.gmatch` and
  `string.gsub` exist but every call fails at run time.
  `string.find(s, needle [, init [, plain]])` fails if `needle` holds any of
  `^ $ ( ) % . [ ] * + - ?`, unless `plain` is `true`: then it searches for
  the literal, as `string.find_literal(s, needle [, init])` always does. Both
  return the 1-based start index only, or nil.
- `string.format` takes `%d`, `%x`, `%s` and `%%`. `%d`, `%x` and `%s` accept
  the flags `-` (left-align) and `0` (zero-pad, not on `%s`), and a width and a
  precision of at most two digits each: `string.format(\"%05d\", 42)` is
  \"00042\". `%f`, `%e` and `%g` are refused, because there are no floats: use
  `decimal.format`.
- Time and randomness exist only as tool calls, so they are recorded.
- A tool is called by the exact name given in the Tool API below, as
  `<downstream>.<tool>\x7b arg = value \x7d`. Those two names are placeholders for
  the ones listed there: if the API lists `market.get_price`, write
  `market.get_price\x7b pair = \"ETH/USD\" \x7d`, not `server.market.get_price\x7b...\x7d`
  and not `tool.call(...)`. A failed or denied call raises an error; catch it
  with `local ok, res = pcall(function() return market.get_price\x7b ... \x7d end)`.
  `pcall(tool.call, ...)` is not supported.
- A run that fails, such as on an uncaught denial, comes back as an error result
  whose text starts with the status kind, as in `ToolError: ...`, and any tool
  calls it made have already happened. To report a partial outcome as a
  success, catch the denial with `pcall` and return what happened.
- Join strings with `..`, as in `\"tx \" .. hash`. `string.format` is available
  for widths and padding.
- The value of the final `return` is the result.
"

/-! ### Messages -/

def parseMessage (e : ParseError) : String :=
  match e.kind with
  | .disallowedIdent name =>
      if name ∈ ["os", "io", "require", "load"] then
        s!"`{name}` is not available; time and randomness are tool calls"
      else e.message
  | .floatLiteral => "floats are not supported; use integers or decimal strings"
  | .other => e.message

/-- Whether a source line contains `pcall(tool.call` with any spacing. -/
def isPcallToolCall (line : String) : Bool :=
  let compact := String.ofList (line.toList.filter fun c => !Text.isWhitespace c)
  Text.containsText "pcall(tool.call," compact || Text.containsText "pcall(tool.call)" compact

/-- Core prefixes its compile messages with `line N: `; the line is reported
separately. -/
def dropLinePrefix (message : String) : String :=
  match Text.splitOnceText ": " message with
  | some (start, rest) => if (Text.stripPrefix "line " start).isSome then rest else message
  | none => message

def compileMessage (e : CompileError) (sourceLine : String) : String :=
  let wrapCall := "`pcall(tool.call, ...)` is not supported; use " ++
    "`pcall(function() return tool.call(name, args) end)`"
  match e.kind with
  | .unknownGlobal name => s!"`{name}` is not defined; declare it `local`, or check the tool API"
  | .toolAsValue | .indirectToolCall =>
      if isPcallToolCall sourceLine then wrapCall else dropLinePrefix e.message
  | .other => dropLinePrefix e.message

/-- A line of the program, counted from 1. -/
def programLine (program : String) : Nat → String
  | 0 => ""
  | i + 1 => ((Text.lines program)[i]?).getD ""

/-! ### Compiling -/

inductive Compiled (Program : Type)
  | ok (program : Program)
  | lint (e : LintError)
  | panic (message : String)

/-- The prelude as it stands before the program: empty, or ending in a
newline. -/
def terminated (prelude : String) : String :=
  if prelude ≠ "" ∧ ¬ Text.endsWith '\n' prelude then prelude ++ "\n" else prelude

/-- How many lines come before the program. -/
def lineOffset (prelude : String) : Nat := Text.count '\n' (terminated prelude) % 2 ^ 32

/-- An error at a line of the program; at a line of the prelude, a panic. -/
def located {Program : Type} (prelude : String) (line : Nat) (message : String) :
    Compiled Program :=
  let offset := lineOffset prelude
  if line ≤ offset then
    .panic (s!"generated prelude failed to compile at line {line}: {message}\n" ++
      s!"--- prelude ---\n{prelude}")
  else .lint ⟨line - offset, message⟩

/-- Parse, compile and verify `prelude` followed by `program`. -/
def compileProgram (deps : Deps) (prelude program : String) : Compiled deps.CompiledProgram :=
  match deps.parse (terminated prelude ++ program) with
  | .error e => located prelude e.line (parseMessage e)
  | .ok block =>
      match deps.compile block with
      | .error e =>
          let sourceLine := programLine program (e.line - lineOffset prelude)
          located prelude e.line (compileMessage e sourceLine)
      | .ok compiled =>
          match deps.verify compiled with
          | .error e => .lint ⟨0, s!"bytecode verification failed: {e}"⟩
          | .ok () => .ok compiled

/-! ### The text alone decides -/

/-- Parsing, compiling and verifying a text as it is. -/
def compileText (deps : Deps) (source : String) : Option deps.CompiledProgram :=
  match deps.parse source with
  | .error _ => none
  | .ok block =>
      match deps.compile block with
      | .error _ => none
      | .ok compiled =>
          match deps.verify compiled with
          | .error _ => none
          | .ok () => some compiled

/-- A program is accepted exactly if its text after the prelude is. -/
theorem compileProgram_eq_ok {deps : Deps} {prelude program : String}
    {compiled : deps.CompiledProgram} :
    compileProgram deps prelude program = .ok compiled ↔
      compileText deps (terminated prelude ++ program) = some compiled := by
  unfold compileProgram compileText
  have hl : ∀ {line message}, located prelude line message ≠ Compiled.ok compiled := by
    intro line message h
    unfold located at h
    dsimp only at h
    split at h <;> cases h
  cases deps.parse (terminated prelude ++ program) with
  | error e => simp [hl]
  | ok block =>
    cases hc : deps.compile block with
    | error e => simp [hc, hl]
    | ok c => cases hv : deps.verify c <;> simp [hc, hv]

@[simp] theorem terminated_empty : terminated "" = "" := by
  simp [terminated]

/-- With an empty prelude the text is compiled as it is. -/
theorem compileProgram_empty {deps : Deps} {source : String} {compiled : deps.CompiledProgram} :
    compileProgram deps "" source = .ok compiled ↔ compileText deps source = some compiled := by
  rw [compileProgram_eq_ok, terminated_empty, String.empty_append]

end ProvenoGateway
