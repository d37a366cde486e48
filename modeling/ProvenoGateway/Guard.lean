/-
ProvenoGateway/Guard.lean

The demo agent's guard over its `execute` calls (`agent.py`, `ExecuteGuard`).

What the source does without an `await` is one function here.  So
`awrap_tool_call` is cut in two: `enter` is what it does up to the `await` of
the handler, `leave` and `fail` what it does with the answer.

Each function has one lemma that says all it can do to the guard: it is `Idle`
and counts nothing, or it `Counts` one outcome.
-/
import Mathlib.Logic.Function.Basic
import ProvenoGateway.Classify

namespace ProvenoGateway

namespace DemoAgent

/-! ### Data -/

/-- A tool call of a reply; the model need not give it an id. -/
structure ToolCall where
  name : String
  args : List (String × Json)
  id : Option String

/-- An `execute` call that reached the gateway. -/
structure Run where
  attempt : Nat
  outcome : Outcome
  traceId : Option Json
  result : Option Json
  error : Option String

inductive Stop
  | ended
  | runFailed
  | unexpected
  | lintErrors
  | runCap
  | modelCalls
  deriving DecidableEq

def Stop.value : Stop → String
  | ended => "the model replied without calling a tool"
  | runFailed => "a run failed, and a failed run is never retried"
  | unexpected => "the gateway returned an error that is not a lint error; not retried"
  | lintErrors => "of too many lint errors in a row"
  | runCap => "the cap on successful runs was reached"
  | modelCalls => "the cap on model calls was reached"

structure Report where
  session : String
  runs : List Run
  stop : Option Stop
  verdicts : Option String → Option String

/-- What the guard is made with. -/
structure Settings where
  task : String
  maxLintStreak : Int
  maxRuns : Int
  maxModelCalls : Int

structure ExecuteGuard where
  settings : Settings
  report : Report
  lintStreak : Nat
  successes : Nat
  modelCalls : Nat

/-- A message to the model, of status `error`. -/
structure ToolMessage where
  content : String
  toolCallId : Option String
  name : String

/-! ### The guard -/

/-- Whether the call is the first `execute` of the last reply that has its id;
`none` if that reply has no `execute`, where the source indexes an empty
list.  Of the messages only the tool calls of the replies matter. -/
def firstExecuteOfItsReply (replies : List (List ToolCall)) (callId : Option String) : Option Bool :=
  match replies.reverse.find? fun calls => calls.any fun c => c.id = callId with
  | none => some false
  | some calls => (calls.find? fun c => c.name = "execute").map fun c => c.id = callId

/-- `{**members, key: value}`. -/
def setMember (key : String) (value : Json) : List (String × Json) → List (String × Json)
  | [] => [(key, value)]
  | (k, v) :: members =>
      if k = key then (key, value) :: members else (k, v) :: setMember key value members

/-- What comes of a call before its handler is awaited. -/
inductive Start
  | refused (message : ToolMessage)
  | raised
  | sent (call : ToolCall)

namespace ExecuteGuard

/-- `_stop`. -/
def stop (guard : ExecuteGuard) (why : Stop) : ExecuteGuard :=
  match guard.report.stop with
  | none => { guard with report := { guard.report with stop := some why } }
  | some _ => guard

def setVerdict (guard : ExecuteGuard) (callId : Option String) (verdict : String) : ExecuteGuard :=
  { guard with report :=
    { guard.report with verdicts := Function.update guard.report.verdicts callId verdict } }

def appendRun (guard : ExecuteGuard) (run : Run) : ExecuteGuard :=
  { guard with report := { guard.report with runs := guard.report.runs ++ [run] } }

/-- Whether to jump to the end, and the guard. -/
def abeforeModel (guard : ExecuteGuard) : Bool × ExecuteGuard :=
  let guard :=
    if guard.report.stop = none ∧ guard.settings.maxModelCalls ≤ guard.modelCalls then
      guard.stop .modelCalls
    else guard
  if guard.report.stop ≠ none then (true, guard)
  else (false, { guard with modelCalls := guard.modelCalls + 1 })

/-- `awrap_tool_call` of an `execute`, up to the handler. -/
def enter (guard : ExecuteGuard) (replies : List (List ToolCall)) (call : ToolCall) :
    ExecuteGuard × Start :=
  let guard :=
    if guard.report.stop = none ∧ guard.settings.maxRuns ≤ guard.successes then guard.stop .runCap
    else guard
  match guard.report.stop with
  | some why =>
      (guard.setVerdict call.id "refused; nothing was sent to the gateway",
        .refused ⟨s!"not run: the agent has stopped, because {why.value}", call.id, call.name⟩)
  | none =>
      match firstExecuteOfItsReply replies call.id with
      | none => (guard, .raised)
      | some false =>
          (guard.setVerdict call.id
              "refused, not the reply's first `execute`; nothing was sent to the gateway",
            .refused ⟨"not run: only the first `execute` of a reply runs; " ++
              "call it again after reading that result", call.id, call.name⟩)
      | some true =>
          let args := setMember "request" (.str guard.settings.task) call.args
          (guard, .sent { call with args := setMember "session" (.str guard.report.session) args })

/-- The handler raised an `McpError`. -/
def fail (guard : ExecuteGuard) (attempt : Nat) (call : ToolCall) (e : String) :
    ExecuteGuard × ToolMessage :=
  let guard := guard.appendRun ⟨attempt, .unexpected, none, none, some e⟩
  let guard := guard.stop .unexpected
  (guard.setVerdict call.id "not a lint error; the agent stops, no retry",
    ⟨e, call.id, call.name⟩)

/-- The handler returned, and `result` is what the interceptor kept. -/
def leave (guard : ExecuteGuard) (attempt : Nat) (call : ToolCall) (result : CallToolResult) :
    ExecuteGuard :=
  let structured := structuredOf result
  let run : Run := ⟨attempt, classify result, Json.lookup structured "trace_id", none, none⟩
  match classify result with
  | .ok =>
      let guard := guard.appendRun { run with result := Json.lookup structured "result" }
      let guard := { guard with successes := guard.successes + 1, lintStreak := 0 }
      guard.setVerdict call.id <|
        s!"run succeeded ({guard.successes} of at most {guard.settings.maxRuns}); " ++
          "the result goes back to the model"
  | .lintError =>
      let guard := guard.appendRun { run with error := some (resultText result) }
      let guard := { guard with lintStreak := guard.lintStreak + 1 }
      if guard.settings.maxLintStreak ≤ guard.lintStreak then
        (guard.stop .lintErrors).setVerdict call.id
          s!"lint error, nothing ran; {guard.lintStreak} in a row, so the agent stops"
      else
        guard.setVerdict call.id <| "lint error, nothing ran; back to the model " ++
          s!"({guard.lintStreak} of {guard.settings.maxLintStreak} in a row)"
  | .runFailed =>
      let guard := guard.appendRun { run with error := some (resultText result) }
      (guard.stop .runFailed).setVerdict call.id
        "run failed, its tool calls may have happened; the agent stops, no retry"
  | .unexpected =>
      let guard := guard.appendRun { run with error := some (resultText result) }
      (guard.stop .unexpected).setVerdict call.id
        "not a lint error, its tool calls may have happened; the agent stops, no retry"

end ExecuteGuard

/-! ### What the functions do -/

/-- Nothing is counted; `stop` may be set, but not changed. -/
structure Idle (guard guard' : ExecuteGuard) : Prop where
  settings : guard'.settings = guard.settings
  session : guard'.report.session = guard.report.session
  runs : guard'.report.runs = guard.report.runs
  lintStreak : guard'.lintStreak = guard.lintStreak
  successes : guard'.successes = guard.successes
  modelCalls : guard'.modelCalls = guard.modelCalls
  stop : ∀ why, guard.report.stop = some why → guard'.report.stop = some why

theorem Idle.refl (guard : ExecuteGuard) : Idle guard guard :=
  ⟨rfl, rfl, rfl, rfl, rfl, rfl, fun _ h => h⟩

theorem Idle.trans {a b c : ExecuteGuard} (h : Idle a b) (h' : Idle b c) : Idle a c :=
  ⟨h'.settings.trans h.settings, h'.session.trans h.session, h'.runs.trans h.runs,
    h'.lintStreak.trans h.lintStreak, h'.successes.trans h.successes,
    h'.modelCalls.trans h.modelCalls, fun why hwhy => h'.stop why (h.stop why hwhy)⟩

namespace ExecuteGuard

variable {guard guard' : ExecuteGuard}

theorem stop_idle (guard : ExecuteGuard) (why : Stop) : Idle guard (guard.stop why) := by
  unfold ExecuteGuard.stop
  split
  case h_1 hnone =>
    refine ⟨rfl, rfl, rfl, rfl, rfl, rfl, ?_⟩
    intro why' hwhy
    rw [hnone] at hwhy
    cases hwhy
  case h_2 => exact Idle.refl guard

theorem stop_ne_none (guard : ExecuteGuard) (why : Stop) : (guard.stop why).report.stop ≠ none := by
  unfold ExecuteGuard.stop
  split
  case h_1 => simp
  case h_2 h => simp [h]

theorem setVerdict_idle (guard : ExecuteGuard) (callId : Option String) (verdict : String) :
    Idle guard (guard.setVerdict callId verdict) := ⟨rfl, rfl, rfl, rfl, rfl, rfl, fun _ h => h⟩

theorem abeforeModel_ask (h : guard.abeforeModel = (false, guard')) :
    guard.report.stop = none ∧ (guard.modelCalls : Int) < guard.settings.maxModelCalls ∧
      guard' = { guard with modelCalls := guard.modelCalls + 1 } := by
  unfold abeforeModel at h
  by_cases hcap : guard.report.stop = none ∧ guard.settings.maxModelCalls ≤ guard.modelCalls
  · simp only [if_pos hcap, if_pos (guard.stop_ne_none .modelCalls)] at h
    cases h
  · simp only [if_neg hcap] at h
    split at h
    case isTrue => cases h
    case isFalse hstop =>
      have hnone : guard.report.stop = none := not_not.mp hstop
      have hcalls : ¬ guard.settings.maxModelCalls ≤ guard.modelCalls := fun hle =>
        hcap ⟨hnone, hle⟩
      cases h
      exact ⟨hnone, by omega, rfl⟩

theorem abeforeModel_jump (h : guard.abeforeModel = (true, guard')) : Idle guard guard' := by
  unfold abeforeModel at h
  by_cases hcap : guard.report.stop = none ∧ guard.settings.maxModelCalls ≤ guard.modelCalls
  · simp only [if_pos hcap, if_pos (guard.stop_ne_none .modelCalls)] at h
    cases h
    exact guard.stop_idle .modelCalls
  · simp only [if_neg hcap] at h
    split at h
    case isTrue =>
      cases h
      exact Idle.refl guard
    case isFalse => cases h

variable {replies : List (List ToolCall)} {call : ToolCall}

/-- The guard after the check of the cap. -/
theorem enter_idle {start : Start} (h : guard.enter replies call = (guard', start)) :
    Idle guard guard' := by
  unfold enter at h
  have hcap : Idle guard (if guard.report.stop = none ∧
      guard.settings.maxRuns ≤ guard.successes then guard.stop .runCap else guard) := by
    split
    · exact guard.stop_idle .runCap
    · exact Idle.refl guard
  dsimp only at h
  split at h
  case h_1 =>
    cases h
    exact hcap.trans (setVerdict_idle _ _ _)
  case h_2 =>
    split at h
    case h_1 =>
      cases h
      exact hcap
    case h_2 =>
      cases h
      exact hcap.trans (setVerdict_idle _ _ _)
    case h_3 =>
      cases h
      exact hcap

/-- The call carries the agent's own session and task. -/
structure Signed (settings : Settings) (session : String) (call : ToolCall) : Prop where
  session : Json.lookup call.args "session" = some (.str session)
  request : Json.lookup call.args "request" = some (.str settings.task)

theorem lookup_setMember (key : String) (value : Json) (members : List (String × Json)) :
    Json.lookup (setMember key value members) key = some value := by
  induction members with
  | nil => rw [setMember, Json.lookup_cons, if_pos rfl]
  | cons m members ih =>
    unfold setMember
    split
    case isTrue => rw [Json.lookup_cons, if_pos rfl]
    case isFalse h =>
      rw [Json.lookup_cons, if_neg h]
      exact ih

theorem lookup_setMember_ne {key key' : String} (h : key ≠ key') (value : Json)
    (members : List (String × Json)) :
    Json.lookup (setMember key value members) key' = Json.lookup members key' := by
  induction members with
  | nil => rw [setMember, Json.lookup_cons, if_neg h]
  | cons m members ih =>
    unfold setMember
    split
    case isTrue hm =>
      rw [Json.lookup_cons, Json.lookup_cons, if_neg h, if_neg (by rw [hm]; exact h)]
    case isFalse => rw [Json.lookup_cons, Json.lookup_cons, ih]

theorem enter_sent {call' : ToolCall} (h : guard.enter replies call = (guard', .sent call')) :
    guard.report.stop = none ∧ (guard.successes : Int) < guard.settings.maxRuns ∧
      Signed guard.settings guard.report.session call' ∧
      firstExecuteOfItsReply replies call.id = some true := by
  unfold enter at h
  by_cases hcap : guard.report.stop = none ∧ guard.settings.maxRuns ≤ guard.successes
  · simp only [if_pos hcap] at h
    split at h
    case h_1 => cases h
    case h_2 hnone => exact absurd hnone (guard.stop_ne_none .runCap)
  · simp only [if_neg hcap] at h
    split at h
    case h_1 => cases h
    case h_2 hnone =>
      have hruns : ¬ guard.settings.maxRuns ≤ guard.successes := fun hle => hcap ⟨hnone, hle⟩
      split at h
      case h_1 => cases h
      case h_2 => cases h
      case h_3 hfirst =>
        cases h
        refine ⟨hnone, by omega, ⟨lookup_setMember _ _ _, ?_⟩, hfirst⟩
        show Json.lookup (setMember "session" _ _) "request" = _
        rw [lookup_setMember_ne (by decide)]
        exact lookup_setMember _ _ _

end ExecuteGuard

/-- The lint errors in a row, after one more outcome. -/
def nextStreak (streak : Nat) : Outcome → Nat
  | .ok => 0
  | .lintError => streak + 1
  | .runFailed | .unexpected => streak

/-- An outcome after which nothing may run again. -/
def Outcome.isFailure (outcome : Outcome) : Bool :=
  outcome = .runFailed || outcome = .unexpected

/-- One attempt with its outcome is counted. -/
structure Counts (guard guard' : ExecuteGuard) (attempt : Nat) (outcome : Outcome) : Prop where
  settings : guard'.settings = guard.settings
  session : guard'.report.session = guard.report.session
  runs : ∃ run, guard'.report.runs = guard.report.runs ++ [run] ∧ run.attempt = attempt ∧
    run.outcome = outcome
  lintStreak : guard'.lintStreak = nextStreak guard.lintStreak outcome
  successes : guard'.successes = guard.successes + if outcome = .ok then 1 else 0
  modelCalls : guard'.modelCalls = guard.modelCalls
  stop : ∀ why, guard.report.stop = some why → guard'.report.stop = some why
  failed : outcome.isFailure = true → guard'.report.stop ≠ none
  tooMany : outcome = .lintError → guard'.settings.maxLintStreak ≤ guard'.lintStreak →
    guard'.report.stop ≠ none

namespace ExecuteGuard

theorem fail_counts (guard : ExecuteGuard) (attempt : Nat) (call : ToolCall) (e : String) :
    Counts guard (guard.fail attempt call e).1 attempt .unexpected := by
  have hstop := (guard.appendRun ⟨attempt, .unexpected, none, none, some e⟩).stop_idle .unexpected
  exact {
    settings := hstop.settings
    session := hstop.session
    runs := ⟨_, hstop.runs, rfl, rfl⟩
    lintStreak := hstop.lintStreak
    successes := hstop.successes
    modelCalls := hstop.modelCalls
    stop := hstop.stop
    failed := fun _ => stop_ne_none _ _
    tooMany := fun h => by cases h }

theorem leave_counts (guard : ExecuteGuard) (attempt : Nat) (call : ToolCall)
    (result : CallToolResult) :
    Counts guard (guard.leave attempt call result) attempt (classify result) := by
  unfold leave
  dsimp only
  cases houtcome : classify result with
  | ok => exact ⟨rfl, rfl, ⟨_, rfl, rfl, rfl⟩, rfl, rfl, rfl, fun _ h => h, nofun, nofun⟩
  | lintError =>
    dsimp only
    split
    case isTrue =>
      have hidle := stop_idle { guard.appendRun
        ⟨attempt, .lintError, Json.lookup (structuredOf result) "trace_id", none,
          some (resultText result)⟩ with lintStreak := guard.lintStreak + 1 } .lintErrors
      exact ⟨hidle.settings, hidle.session, ⟨_, hidle.runs, rfl, rfl⟩, hidle.lintStreak,
        hidle.successes, hidle.modelCalls, hidle.stop, nofun, fun _ _ => stop_ne_none _ _⟩
    case isFalse hbelow =>
      exact ⟨rfl, rfl, ⟨_, rfl, rfl, rfl⟩, rfl, rfl, rfl, fun _ h => h, nofun,
        fun _ h => absurd h hbelow⟩
  | runFailed =>
    have hidle := stop_idle (guard.appendRun ⟨attempt, .runFailed,
      Json.lookup (structuredOf result) "trace_id", none, some (resultText result)⟩) .runFailed
    exact ⟨hidle.settings, hidle.session, ⟨_, hidle.runs, rfl, rfl⟩, hidle.lintStreak,
      hidle.successes, hidle.modelCalls, hidle.stop, fun _ => stop_ne_none _ _, nofun⟩
  | unexpected =>
    have hidle := stop_idle (guard.appendRun ⟨attempt, .unexpected,
      Json.lookup (structuredOf result) "trace_id", none, some (resultText result)⟩) .unexpected
    exact ⟨hidle.settings, hidle.session, ⟨_, hidle.runs, rfl, rfl⟩, hidle.lintStreak,
      hidle.successes, hidle.modelCalls, hidle.stop, fun _ => stop_ne_none _ _, nofun⟩

end ExecuteGuard

end DemoAgent

end ProvenoGateway
