/-
ProvenoGateway/Classify.lean

How the demo agent reads the answer to an `execute` (`agent.py`), and that the
server and the agent mean the same by it.

The agent tells a run from a lint error by the trace id in the structured
content, and only then looks at the text.  A run has a trace id whatever its
messages say, so a failed run is not mistaken for a lint error, which is the
one error that is tried again.
-/
import ProvenoGateway.Integrity
import ProvenoGateway.Server

namespace ProvenoGateway

open Program

namespace DemoAgent

/-! ### Reading a result -/

inductive Outcome
  | ok
  | lintError
  | runFailed
  | unexpected
  deriving DecidableEq

/-- Where Unicode 14 has the ten decimal digits of a script. -/
def decimalZeros : List Nat := [
  0x30, 0x660, 0x6F0, 0x7C0, 0x966, 0x9E6, 0xA66, 0xAE6, 0xB66, 0xBE6, 0xC66, 0xCE6, 0xD66,
  0xDE6, 0xE50, 0xED0, 0xF20, 0x1040, 0x1090, 0x17E0, 0x1810, 0x1946, 0x19D0, 0x1A80, 0x1A90,
  0x1B50, 0x1BB0, 0x1C40, 0x1C50, 0xA620, 0xA8D0, 0xA900, 0xA9D0, 0xA9F0, 0xAA50, 0xABF0,
  0xFF10, 0x104A0, 0x10D30, 0x11066, 0x110F0, 0x11136, 0x111D0, 0x112F0, 0x11450, 0x114D0,
  0x11650, 0x116C0, 0x11730, 0x118E0, 0x11950, 0x11C50, 0x11D50, 0x11DA0, 0x16A60, 0x16AC0,
  0x16B50, 0x1D7CE, 0x1D7D8, 0x1D7E2, 0x1D7EC, 0x1D7F6, 0x1E140, 0x1E2F0, 0x1E950, 0x1FBF0]

/-- `\d`. -/
def isDecimal (c : Char) : Bool :=
  decimalZeros.any fun z => z ≤ c.toNat && c.toNat ≤ z + 9

/-- The text matches `^line \d+: `. -/
def matchesLintError (text : String) : Bool :=
  match Text.stripPrefix "line " text with
  | none => false
  | some rest =>
      (rest.toList.takeWhile isDecimal) ≠ [] &&
        [':', ' '].isPrefixOf (rest.toList.dropWhile isDecimal)

def resultText (result : CallToolResult) : String :=
  Text.concat (result.content.map fun block => block.asText.getD "")

/-- `result.structuredContent or {}`. -/
def structuredOf (result : CallToolResult) : List (String × Json) :=
  (result.structuredContent.bind Json.asObject).getD []

def hasTraceId (result : CallToolResult) : Bool :=
  (structuredOf result).any fun m => m.1 = "trace_id"

/-- What an `execute` result means for the next step. -/
def classify (result : CallToolResult) : Outcome :=
  if ¬ result.isError.getD false then
    if hasTraceId result then .ok else .unexpected
  else if hasTraceId result then .runFailed
  else if matchesLintError (resultText result) then .lintError
  else .unexpected

/-- A protocol error is raised as an `McpError`, which the agent takes for
`unexpected`. -/
def read : Except ErrorData CallToolResult → Outcome
  | .ok result => classify result
  | .error _ => .unexpected

/-! ### The text of a lint error -/

theorem isDecimal_of_isDigit {c : Char} (h : c.isDigit = true) : isDecimal c = true := by
  have hdigit : (decide (c.val ≥ '0'.val) && decide (c.val ≤ '9'.val)) = true := h
  rw [Bool.and_eq_true, decide_eq_true_eq, decide_eq_true_eq] at hdigit
  have hlow : 0x30 ≤ c.toNat := hdigit.1
  have hhigh : c.toNat ≤ 0x30 + 9 := hdigit.2
  apply List.any_eq_true.mpr
  refine ⟨0x30, List.mem_cons_self, ?_⟩
  rw [Bool.and_eq_true, decide_eq_true_eq, decide_eq_true_eq]
  exact ⟨hlow, hhigh⟩

theorem colon_not_decimal : isDecimal ':' = false := rfl

theorem display_toList (e : LintError) : e.display.toList =
    "line ".toList ++ (Nat.toDigits 10 e.line ++ ':' :: ' ' :: e.message.toList) := by
  simp [LintError.display, toString, String.toList_append, Nat.toList_repr]

/-- Whatever the message, a lint error reads as one. -/
theorem matchesLintError_display (e : LintError) : matchesLintError e.display = true := by
  have hdigits : ∀ c ∈ Nat.toDigits 10 e.line, isDecimal c = true := fun c hc =>
    isDecimal_of_isDigit (Nat.isDigit_of_mem_toDigits (by omega) (by omega) hc)
  have hstrip : Text.stripPrefix "line " e.display =
      some (String.ofList (Nat.toDigits 10 e.line ++ ':' :: ' ' :: e.message.toList)) := by
    unfold Text.stripPrefix
    rw [display_toList, if_pos (List.prefix_append _ _), List.drop_left]
  simp only [matchesLintError, hstrip, String.toList_ofList]
  rw [List.takeWhile_append_of_pos hdigits, List.dropWhile_append_of_pos hdigits,
    List.takeWhile_cons_of_neg (by simp [colon_not_decimal]),
    List.dropWhile_cons_of_neg (by simp [colon_not_decimal])]
  simp [Nat.toDigits_ne_nil]

/-! ### The four answers -/

/-- What the agent reads in the answer to an outcome of the engine. -/
structure ToldApart (outcome : Except ExecuteError ExecuteResponse) : Prop where
  ok : read (Server.answer outcome) = .ok ↔
    ∃ response, outcome = .ok response ∧ response.status = .ok
  runFailed : read (Server.answer outcome) = .runFailed ↔
    ∃ response kind message, outcome = .ok response ∧ response.status = .error kind message
  lintError : read (Server.answer outcome) = .lintError ↔ ∃ e, outcome = .error (.lint e)
  unexpected : read (Server.answer outcome) = .unexpected ↔ ∃ e, outcome = .error (.store e)
  /-- Only a store error is a protocol error. -/
  raised : (∃ data, Server.answer outcome = .error data) ↔ ∃ e, outcome = .error (.store e)

theorem read_ok (result : Option Json) (traceId : String) :
    read (Server.answer (.ok ⟨result, traceId, .ok⟩)) = .ok := rfl

/-- The trace id decides before the text is looked at. -/
theorem read_runFailed (result : Option Json) (traceId kind message : String) :
    read (Server.answer (.ok ⟨result, traceId, .error kind message⟩)) = .runFailed := rfl

theorem read_lintError (e : LintError) : read (Server.answer (.error (.lint e))) = .lintError := by
  have htext : resultText (.error [.text e.display]) = e.display := String.append_empty
  show classify (.error [.text e.display]) = .lintError
  unfold classify
  rw [htext, matchesLintError_display]
  rfl

theorem read_store (e : StoreError) : read (Server.answer (.error (.store e))) = .unexpected := rfl

theorem raised_iff {outcome : Except ExecuteError ExecuteResponse} :
    (∃ data, Server.answer outcome = .error data) ↔ ∃ e, outcome = .error (.store e) := by
  constructor
  · rintro ⟨data, h⟩
    rcases outcome with (e | e) | ⟨result, traceId, ok | ⟨kind, message⟩⟩
    · cases h
    · exact ⟨e, rfl⟩
    · cases h
    · cases h
  · rintro ⟨e, rfl⟩
    exact ⟨_, rfl⟩

/-- Each kind of outcome has a reading of its own. -/
theorem toldApart (outcome : Except ExecuteError ExecuteResponse) : ToldApart outcome := by
  rcases outcome with (e | e) | ⟨result, traceId, ok | ⟨kind, message⟩⟩
  · have hread := read_lintError e
    refine ⟨?_, ?_, ?_, ?_, raised_iff⟩ <;> simp [hread]
  · have hread := read_store e
    refine ⟨?_, ?_, ?_, ?_, raised_iff⟩ <;> simp [hread]
  · have hread := read_ok result traceId
    refine ⟨?_, ?_, ?_, ?_, raised_iff⟩ <;> simp [hread]
  · have hread := read_runFailed result traceId kind message
    refine ⟨?_, ?_, ?_, ?_, raised_iff⟩ <;> simp [hread]

example : read (Server.answer (.ok ⟨none, "t2", .error "line 3" "line 3: boom"⟩)) = .runFailed :=
  rfl

/-! ### What may be tried again -/

variable {deps : Deps} {engine : Engine} {principal : String}

/-- A program that does not lint leaves nothing behind. -/
theorem prepare_lint {req : ExecuteRequest} {evs : List (Event Op Res)} {e : LintError}
    (h : Runs (engine.prepare deps principal req) evs (.error (.lint e))) : evs = [] := by
  unfold Engine.prepare at h
  dsimp only at h
  split at h
  case h_1 =>
    obtain ⟨r, -⟩ := runs_call_iff.mp h
    exact nomatch r
  case h_2 => exact (runs_ret_iff.mp h).1
  case h_3 =>
    -- from here on an error is the store's
    obtain ⟨stored, evs₁, evs₂, rfl, -, h₂⟩ := runs_bind_iff.mp h
    split at h₂
    case h_1 => cases (runs_ret_iff.mp h₂).2
    case h_2 =>
      obtain ⟨stored', evs₃, evs₄, rfl, -, h₄⟩ := runs_bind_iff.mp h₂
      split at h₄
      case h_1 => cases (runs_ret_iff.mp h₄).2
      case h_2 =>
        obtain ⟨id, evs₅, -, h₅⟩ := runs_call_iff.mp h₄
        cases (runs_ret_iff.mp h₅).2

/-- After a run, the outcome is its status or a store error. -/
theorem finish_outcome {prepared : Engine.Prepared deps} {run : Engine.RunResult}
    {evs : List (Event Op Res)} {outcome : Except ExecuteError ExecuteResponse}
    (h : Runs (engine.finish deps prepared run) evs outcome) :
    (∃ e, outcome = .error (.store e)) ∨
      ∃ response, outcome = .ok response ∧ response.status = run.outcome.status := by
  obtain ⟨put, evs₁, evs₂, rfl, -, h₂⟩ := runs_bind_iff.mp h
  unfold Engine.respond at h₂
  split at h₂
  case h_1 e => exact Or.inl ⟨e, (runs_ret_iff.mp h₂).2⟩
  case h_2 =>
    split at h₂
    case h_1 => exact Or.inr ⟨_, (runs_ret_iff.mp h₂).2, rfl⟩
    case h_2 json _ =>
      split at h₂
      case h_1 => exact Or.inr ⟨_, (runs_ret_iff.mp h₂).2, rfl⟩
      case h_2 =>
        obtain ⟨r, -⟩ := runs_call_iff.mp h₂
        exact nomatch r

/-- What the agent may conclude from an answer about what the gateway did. -/
structure Meant (deps : Deps) (engine : Engine) (principal : String) (args : Server.ExecuteArgs)
    (evs : List (Event Op Res)) (answer : Except ErrorData CallToolResult) : Prop where
  /-- Nothing was done, so trying again repeats nothing. -/
  lintError : read answer = .lintError → evs = []
  /-- A run took place, with the status that is told. -/
  ran : read answer = .ok ∨ read answer = .runFailed →
    ∃ prepared before ran after run, evs = before ++ (ran ++ after) ∧
      Runs (engine.prepare deps principal ⟨args.program, args.session, args.request⟩) before
        (.ok prepared) ∧
      Runs (engine.runThread deps prepared) ran run ∧
      (read answer = .ok ↔ run.outcome.status = .ok)

theorem meant {args : Server.ExecuteArgs} {evs : List (Event Op Res)}
    {answer : Except ErrorData CallToolResult}
    (h : Runs (Server.execute deps engine principal args) evs answer) :
    Meant deps engine principal args evs answer := by
  obtain ⟨outcome, evs', evs'', rfl, hexecute, hanswer⟩ := runs_bind_iff.mp h
  obtain ⟨rfl, rfl⟩ := runs_ret_iff.mp hanswer
  rw [List.append_nil]
  have htold := toldApart outcome
  rcases runs_andThen hexecute with ⟨e, hprepare, rfl⟩ | ⟨prepared, evs₁, evs₂, rfl, hprepare, h₂⟩
  · constructor
    · intro hlint
      obtain ⟨e', he⟩ := htold.lintError.mp hlint
      cases he
      exact prepare_lint hprepare
    · rintro (hok | hfailed)
      · obtain ⟨response, he, -⟩ := htold.ok.mp hok
        cases he
      · obtain ⟨response, kind, message, he, -⟩ := htold.runFailed.mp hfailed
        cases he
  · obtain ⟨run, ran, after, rfl, hrun, hfinish⟩ := runs_bind_iff.mp h₂
    rcases finish_outcome hfinish with ⟨e, rfl⟩ | ⟨response, rfl, hstatus⟩
    · have hread := read_store e
      constructor <;> simp [hread]
    · constructor
      · intro hlint
        obtain ⟨e, he⟩ := htold.lintError.mp hlint
        cases he
      · intro _
        refine ⟨prepared, evs₁, ran, after, run, rfl, hprepare, hrun, ?_⟩
        rw [htold.ok, ← hstatus]
        constructor
        · rintro ⟨response', he, hok⟩
          cases he
          exact hok
        · exact fun hok => ⟨response, rfl, hok⟩

/-- The agent tells the four kinds of outcome apart, whatever texts they
contain; and in every run of the gateway's `execute`, the one answer that is
tried again is given only if nothing was done. -/
theorem retry_agreement :
    (∀ outcome, ToldApart outcome) ∧
    ∀ (deps : Deps) (engine : Engine) (principal : String) (args : Server.ExecuteArgs)
      (evs : List (Event Op Res)) (answer : Except ErrorData CallToolResult),
      Runs (Server.execute deps engine principal args) evs answer →
        Meant deps engine principal args evs answer :=
  ⟨toldApart, fun _ _ _ _ _ _ h => meant h⟩

end DemoAgent

/-! ### At the instance -/

namespace Reference

/-- `bob` has no tools, so no prelude, and sends something that is no
program. -/
theorem oops_runs : Runs (Server.execute reference engine "bob" ⟨"oops", none, none⟩) []
    (Server.answer (.error (.lint ⟨1, "unknown program"⟩))) :=
  Runs.ret _

end Reference

open Reference in
theorem retry_agreement_oops : DemoAgent.Meant reference engine "bob" ⟨"oops", none, none⟩ []
    (Server.answer (.error (.lint ⟨1, "unknown program"⟩))) :=
  DemoAgent.retry_agreement.2 reference engine "bob" _ _ _ oops_runs

end ProvenoGateway
