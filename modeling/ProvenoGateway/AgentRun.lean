/-
ProvenoGateway/AgentRun.lean

The demo agent's run, as far as its guard sees it.

The model, the gateway and the scheduler are free: a reply is any list of tool
calls, an answer is any result or a protocol error, and the calls of a reply
start in any order.  Between `enter` and `leave` an `execute` holds the lock;
calls of other tools pass the guard by.  The graph asks the model again only
when the calls of its reply are done; here it may ask at any time, so that
nothing rests on it.

`Step.moves` says what a step can do to the guard.
-/
import ProvenoGateway.Guard
import ProvenoGateway.Transitions

namespace ProvenoGateway

namespace DemoAgent

open Transitions

/-! ### States -/

/-- A call that is due: the number of its reply, its place in it, and the
replies of the conversation when it was scheduled. -/
structure Task where
  reply : Nat
  position : Nat
  call : ToolCall
  replies : List (List ToolCall)

/-- The call that holds the lock while its handler is awaited; `kept` is what
the interceptor has kept of it. -/
structure Flight where
  attempt : Nat
  call : ToolCall
  kept : Option CallToolResult

structure AgentState where
  guard : ExecuteGuard
  /-- `RawResults.results`. -/
  results : String → Option CallToolResult
  flight : Option Flight
  replies : List (List ToolCall)
  tasks : List Task
  finished : Bool

/-- Before the first reply. -/
def AgentState.initial (settings : Settings) (session : String) : AgentState where
  guard := ⟨settings, ⟨session, [], none, fun _ => none⟩, 0, 0, 0⟩
  results := fun _ => none
  flight := none
  replies := []
  tasks := []
  finished := false

/-- The calls of the reply that comes after `replies`. -/
def tasksOf (replies : List (List ToolCall)) (calls : List ToolCall) : List Task :=
  calls.zipIdx.map fun c => ⟨replies.length, c.2, c.1, replies ++ [calls]⟩

/-! ### Steps -/

inductive Event
  | asked (calls : List ToolCall)
  | jumped
  | refused (task : Task) (message : ToolMessage)
  | raised (task : Task)
  | sent (task : Task) (call : ToolCall)
  | kept (result : CallToolResult)
  | returned (result : CallToolResult)
  | mcpError (message : ToolMessage)
  | other (task : Task) (result : Option CallToolResult)
  | ended

inductive Step : AgentState → Event → AgentState → Prop
  /-- The model is asked, and replies. -/
  | ask (s : AgentState) (calls : List ToolCall) (guard : ExecuteGuard) :
      s.finished = false → s.guard.abeforeModel = (false, guard) →
      Step s (.asked calls)
        { s with
          guard := guard
          replies := s.replies ++ [calls]
          tasks := s.tasks ++ tasksOf s.replies calls }
  | jump (s : AgentState) (guard : ExecuteGuard) :
      s.finished = false → s.guard.abeforeModel = (true, guard) →
      Step s .jumped { s with guard := guard, finished := true }
  /-- An `execute` gets the lock, and is refused. -/
  | refuse (s : AgentState) (before after : List Task) (task : Task) (guard : ExecuteGuard)
      (message : ToolMessage) :
      s.tasks = before ++ task :: after → task.call.name = "execute" → s.flight = none →
      s.guard.enter task.replies task.call = (guard, .refused message) →
      Step s (.refused task message) { s with guard := guard, tasks := before ++ after }
  | raise (s : AgentState) (before after : List Task) (task : Task) (guard : ExecuteGuard) :
      s.tasks = before ++ task :: after → task.call.name = "execute" → s.flight = none →
      s.guard.enter task.replies task.call = (guard, .raised) →
      Step s (.raised task) { s with guard := guard, tasks := before ++ after }
  /-- An `execute` gets the lock, and is sent. -/
  | send (s : AgentState) (before after : List Task) (task : Task) (guard : ExecuteGuard)
      (call : ToolCall) :
      s.tasks = before ++ task :: after → task.call.name = "execute" → s.flight = none →
      s.guard.enter task.replies task.call = (guard, .sent call) →
      Step s (.sent task call)
        { s with
          guard := guard
          tasks := before ++ after
          flight := some ⟨guard.report.runs.length + 1, call, none⟩ }
  /-- The interceptor keeps the raw result of the `execute`. -/
  | keep (s : AgentState) (flight : Flight) (result : CallToolResult) :
      s.flight = some flight →
      Step s (.kept result)
        { s with
          results := Function.update s.results "execute" (some result)
          flight := some { flight with kept := some result } }
  /-- The handler returns, after the interceptor. -/
  | return_ (s : AgentState) (flight : Flight) (result : CallToolResult) :
      s.flight = some flight → flight.kept.isSome = true → s.results "execute" = some result →
      Step s (.returned result)
        { s with
          guard := s.guard.leave flight.attempt flight.call result
          results := Function.update s.results "execute" none
          flight := none }
  /-- The handler raises an `McpError`. -/
  | fail (s : AgentState) (flight : Flight) (e : String) :
      s.flight = some flight →
      Step s (.mcpError (s.guard.fail flight.attempt flight.call e).2)
        { s with guard := (s.guard.fail flight.attempt flight.call e).1, flight := none }
  /-- A call of another tool, sent and answered. -/
  | other (s : AgentState) (before after : List Task) (task : Task)
      (result : Option CallToolResult) :
      s.tasks = before ++ task :: after → task.call.name ≠ "execute" →
      Step s (.other task result)
        { s with
          results := match result with
            | some r => Function.update s.results task.call.name (some r)
            | none => s.results
          tasks := before ++ after }
  /-- The graph is over because the last reply has no tool call. -/
  | end_ (s : AgentState) :
      s.finished = false → s.tasks = [] → s.flight = none → s.replies.getLast? = some [] →
      Step s .ended { s with guard := s.guard.stop .ended, finished := true }

namespace Event

/-- The outcome an event gives an attempt. -/
def outcome : Event → Option Outcome
  | returned result => some (classify result)
  | mcpError _ => some .unexpected
  | _ => none

def isAsked : Event → Bool
  | asked _ => true
  | _ => false

def isSent : Event → Bool
  | sent _ _ => true
  | _ => false

def isKept : Event → Bool
  | kept _ => true
  | _ => false

end Event

/-! ### What a step does to the guard -/

/-- The three things that can happen to the guard. -/
inductive Moves (s : AgentState) : Event → AgentState → Prop
  /-- One more model call. -/
  | asks (calls : List ToolCall) (s' : AgentState) : s.guard.report.stop = none →
      (s.guard.modelCalls : Int) < s.guard.settings.maxModelCalls →
      s'.guard = { s.guard with modelCalls := s.guard.modelCalls + 1 } → s'.flight = s.flight →
      Moves s (.asked calls) s'
  /-- An attempt starts. -/
  | sends (task : Task) (call : ToolCall) (s' : AgentState) : s.guard.report.stop = none →
      (s.guard.successes : Int) < s.guard.settings.maxRuns →
      ExecuteGuard.Signed s.guard.settings s.guard.report.session call → s.flight = none →
      Idle s.guard s'.guard →
      s'.flight = some ⟨s.guard.report.runs.length + 1, call, none⟩ →
      Moves s (.sent task call) s'
  /-- An attempt ends. -/
  | counts (e : Event) (s' : AgentState) (outcome : Outcome) (flight : Flight) :
      e.outcome = some outcome → e.isAsked = false → e.isSent = false → s.flight = some flight →
      Counts s.guard s'.guard flight.attempt outcome → s'.flight = none → Moves s e s'
  | idles (e : Event) (s' : AgentState) : e.outcome = none → e.isAsked = false →
      e.isSent = false → Idle s.guard s'.guard →
      (s'.flight.map Flight.attempt = s.flight.map Flight.attempt) → Moves s e s'

theorem Step.moves {s s' : AgentState} {e : Event} (h : Step s e s') : Moves s e s' := by
  cases h with
  | ask calls guard _ hask =>
    obtain ⟨hstop, hcalls, rfl⟩ := ExecuteGuard.abeforeModel_ask hask
    exact .asks _ _ hstop hcalls rfl rfl
  | jump guard _ hjump =>
    exact .idles _ _ rfl rfl rfl (ExecuteGuard.abeforeModel_jump hjump) rfl
  | refuse before after task guard message _ _ _ henter =>
    exact .idles _ _ rfl rfl rfl (ExecuteGuard.enter_idle henter) rfl
  | raise before after task guard _ _ _ henter =>
    exact .idles _ _ rfl rfl rfl (ExecuteGuard.enter_idle henter) rfl
  | send before after task guard call _ _ hflight henter =>
    obtain ⟨hstop, hruns, hsigned, -⟩ := ExecuteGuard.enter_sent henter
    have hidle := ExecuteGuard.enter_idle henter
    refine .sends _ _ _ hstop hruns hsigned hflight hidle ?_
    show some (Flight.mk (guard.report.runs.length + 1) call none) = _
    rw [hidle.runs]
  | keep flight result hflight =>
    refine .idles _ _ rfl rfl rfl (Idle.refl _) ?_
    rw [hflight]
    rfl
  | return_ flight result hflight _ _ =>
    exact .counts _ _ _ flight rfl rfl rfl hflight (ExecuteGuard.leave_counts _ _ _ _) rfl
  | fail flight e hflight =>
    exact .counts _ _ _ flight rfl rfl rfl hflight (ExecuteGuard.fail_counts _ _ _ _) rfl
  | other before after task result _ _ => exact .idles _ _ rfl rfl rfl (Idle.refl _) rfl
  | end_ _ _ _ _ => exact .idles _ _ rfl rfl rfl (ExecuteGuard.stop_idle _ _) rfl

/-- What the interceptor has kept since the last `execute` was sent. -/
def lastKept (evs : List Event) : Option CallToolResult :=
  evs.foldl (fun kept e => match e with
    | .sent _ _ => none
    | .kept result => some result
    | _ => kept) none

/-- What the guard will read is what the interceptor kept of the call that
holds the lock; the other tools keep theirs under other names. -/
structure Kept (evs : List Event) (s : AgentState) : Prop where
  last : ∀ flight, s.flight = some flight → flight.kept = lastKept evs
  stored : ∀ flight, s.flight = some flight → ∀ result, flight.kept = some result →
    s.results "execute" = some result

theorem lastKept_concat_sent (evs : List Event) (task : Task) (call : ToolCall) :
    lastKept (evs ++ [.sent task call]) = none := by
  rw [lastKept, List.foldl_append]
  rfl

theorem lastKept_concat_kept (evs : List Event) (result : CallToolResult) :
    lastKept (evs ++ [.kept result]) = some result := by
  rw [lastKept, List.foldl_append]
  rfl

theorem lastKept_concat {evs : List Event} {e : Event} (hsent : e.isSent = false)
    (hkept : e.isKept = false) : lastKept (evs ++ [e]) = lastKept evs := by
  rw [lastKept, List.foldl_append, ← lastKept]
  cases e with
  | sent task call => cases hsent
  | kept result => cases hkept
  | _ => rfl

theorem Kept.step {evs : List Event} {s s' : AgentState} {e : Event} (hs : Kept evs s)
    (h : Step s e s') : Kept (evs ++ [e]) s' := by
  cases h with
  | ask calls guard _ _ => exact ⟨by rw [lastKept_concat rfl rfl]; exact hs.last, hs.stored⟩
  | jump guard _ _ => exact ⟨by rw [lastKept_concat rfl rfl]; exact hs.last, hs.stored⟩
  | refuse before after task guard message _ _ _ _ =>
    exact ⟨by rw [lastKept_concat rfl rfl]; exact hs.last, hs.stored⟩
  | raise before after task guard _ _ _ _ =>
    exact ⟨by rw [lastKept_concat rfl rfl]; exact hs.last, hs.stored⟩
  | send before after task guard call _ _ _ _ =>
    constructor
    · rw [lastKept_concat_sent]
      intro flight hflight
      cases hflight
      rfl
    · intro flight hflight result hresult
      cases hflight
      cases hresult
  | keep flight result _ =>
    constructor
    · rw [lastKept_concat_kept]
      intro flight' hflight'
      cases hflight'
      rfl
    · intro flight' hflight' result' hresult'
      cases hflight'
      cases hresult'
      show Function.update s.results "execute" (some result) "execute" = _
      exact Function.update_self _ _ _
  | return_ flight result _ _ _ => exact ⟨nofun, nofun⟩
  | fail flight e _ => exact ⟨nofun, nofun⟩
  | other before after task result _ hname =>
    refine ⟨by rw [lastKept_concat rfl rfl]; exact hs.last, ?_⟩
    intro flight hflight kept hkept
    cases result with
    | none => exact hs.stored flight hflight kept hkept
    | some r =>
      have hother : "execute" ≠ task.call.name := fun h => hname h.symm
      show Function.update s.results task.call.name (some r) "execute" = _
      rw [Function.update_of_ne hother]
      exact hs.stored flight hflight kept hkept
  | end_ _ _ _ _ => exact ⟨by rw [lastKept_concat rfl rfl]; exact hs.last, hs.stored⟩

/-- The guard classifies what was kept. -/
theorem Kept.returned {evs : List Event} {s s' : AgentState} {result : CallToolResult}
    (hs : Kept evs s) (h : Step s (.returned result) s') : lastKept evs = some result := by
  cases h with
  | return_ flight _ hflight hsome hresult =>
    obtain ⟨kept, hkept⟩ := Option.isSome_iff_exists.mp hsome
    have hstored := hs.stored flight hflight kept hkept
    rw [hresult] at hstored
    rw [← hs.last flight hflight, hkept, hstored]

end DemoAgent

end ProvenoGateway
