/-
ProvenoGateway/Lifecycle.lean

The two parties of an execute: the future, which prepares, waits at
`spawn_blocking` and then signs and stores, and the run thread, which sends
the tool calls.

Either may end without the other: the future can be dropped at its one await,
and the run thread can panic.  The trace is signed and put by the future
alone.  So a request that was handed to a downstream has its entry in a stored
trace, or the execute reports a store error, as long as neither happens once a
request is out (`calls_recorded`); and a drop after the first request leaves a
call without a record (`dropped_unrecorded`).

Everybody else may change the world between any two steps, within what the
store promises: other threads' temp files are not touched and stored traces
stay.
-/
import ProvenoGateway.RecordReplay

namespace ProvenoGateway

open Program Interleave

/-! ### Bystanders -/

/-- A stored trace stays as it is. -/
def TracesStay (store : TraceStore) (V V' : Files) : Prop :=
  ∀ p bytes, p.parent = store.traces → V p = some bytes → V' p = some bytes

/-- Thread `i` relies on the others to leave the stored traces alone. -/
def bystanders (store : TraceStore) (i : Nat) : Protocol where
  toSetting := .crashing (fun _ => True) fun _ _ _ => True
  inv _ := True
  rely j V V' := j = i → TracesStay store V V'
  guar j V V' := j ≠ i → TracesStay store V V'
  rely_refl _ _ := fun _ _ _ _ h => h
  rely_trans _ := fun h h' hi p bytes hp hV => h' hi p bytes hp (h hi p bytes hp hV)
  guar_refl _ _ := fun _ _ _ _ h => h
  compat _ _ _ _ hij _ h := by
    rintro rfl
    exact h hij.symm

/-- Thread `i` may write what it likes. -/
theorem bystanders_canPublish (store : TraceStore) (i : Nat) (p : Path) (bytes : ByteArray)
    (V : Files) : (bystanders store i).CanPublish i p bytes V :=
  fun _ _ _ _ _ _ => ⟨trivial, fun h => absurd rfl h⟩

/-! ### The two parties -/

/-- A request as it is handed to a downstream. -/
abbrev Request : Type := Client × CallToolRequestParams

inductive Future (deps : Deps)
  | preparing (p : Gateway (Except ExecuteError (Engine.Prepared deps)))
  | awaiting (prepared : Engine.Prepared deps)
  | storing (prepared : Engine.Prepared deps) (run : Engine.RunResult)
      (put : Gateway (Except StoreError Unit))
  | returned (result : Except ExecuteError ExecuteResponse)
  | dropped
  | panicked

/-- The future will not do anything any more. -/
def Future.Ended {deps : Deps} : Future deps → Prop
  | .returned _ | .dropped | .panicked => True
  | _ => False

inductive RunThread
  | idle
  | running (p : Gateway Engine.RunResult)
  /-- A request is out. -/
  | waiting (request : Request)
      (next : Except String CallToolResult → Gateway Engine.RunResult)
  | finished (run : Engine.RunResult)
  | panicked

def RunThread.Busy : RunThread → Prop
  | .running _ | .waiting _ _ => True
  | _ => False

/-- An execute under way, and the requests that were handed to a downstream. -/
structure Execution (deps : Deps) where
  future : Future deps
  thread : RunThread
  world : World
  handed : List Request

inductive Action
  | poll
  | spawn
  | send
  | answer
  | leave
  | panic
  | join
  | drop
  | others

section Steps

variable (deps : Deps) (engine : Engine) (i pid : Nat)

/-- The trace of a run, as the future signs it. -/
def Engine.signedTrace (prepared : Engine.Prepared deps) (run : Engine.RunResult) : Trace :=
  (engine.traceOf deps prepared run).sign deps engine.signingKey

inductive Execution.Step : Execution deps → Action → Execution deps → Prop
  | prepare {o : Op} {next : Res o → Gateway (Except ExecuteError (Engine.Prepared deps))}
      {r : Res o} {w w' : World} {th : RunThread} {handed : List Request} :
      World.sem True i pid o w r w' →
      Step ⟨.preparing (.call o next), th, w, handed⟩ .poll ⟨.preparing (next r), th, w', handed⟩
  | preparePanics {message : String}
      {next : Res (.panic message) → Gateway (Except ExecuteError (Engine.Prepared deps))}
      {w : World} {th : RunThread} {handed : List Request} :
      Step ⟨.preparing (.call (.panic message) next), th, w, handed⟩ .poll
        ⟨.panicked, th, w, handed⟩
  | refuse {e : ExecuteError} {w : World} {th : RunThread} {handed : List Request} :
      Step ⟨.preparing (.ret (.error e)), th, w, handed⟩ .poll
        ⟨.returned (.error e), th, w, handed⟩
  | spawn {prepared : Engine.Prepared deps} {w : World} {th : RunThread} {handed : List Request} :
      Step ⟨.preparing (.ret (.ok prepared)), th, w, handed⟩ .spawn
        ⟨.awaiting prepared, .running (engine.runThread deps prepared), w, handed⟩
  | join {prepared : Engine.Prepared deps} {run : Engine.RunResult} {w : World}
      {handed : List Request} :
      Step ⟨.awaiting prepared, .finished run, w, handed⟩ .join
        ⟨.storing prepared run (engine.store.putTrace deps (engine.signedTrace deps prepared run)),
          .finished run, w, handed⟩
  /-- `resume_unwind`. -/
  | joinPanicked {prepared : Engine.Prepared deps} {w : World} {handed : List Request} :
      Step ⟨.awaiting prepared, .panicked, w, handed⟩ .join ⟨.panicked, .panicked, w, handed⟩
  | store {prepared : Engine.Prepared deps} {run : Engine.RunResult} {o : Op}
      {next : Res o → Gateway (Except StoreError Unit)} {r : Res o} {w w' : World}
      {th : RunThread} {handed : List Request} :
      World.sem True i pid o w r w' →
      Step ⟨.storing prepared run (.call o next), th, w, handed⟩ .poll
        ⟨.storing prepared run (next r), th, w', handed⟩
  | respond {prepared : Engine.Prepared deps} {run : Engine.RunResult}
      {stored : Except StoreError Unit} {result : Except ExecuteError ExecuteResponse} {w : World}
      {th : RunThread} {handed : List Request} :
      Engine.respond deps prepared (engine.signedTrace deps prepared run) run.outcome.status
        stored = .ret result →
      Step ⟨.storing prepared run (.ret stored), th, w, handed⟩ .poll
        ⟨.returned result, th, w, handed⟩
  | respondPanics {prepared : Engine.Prepared deps} {run : Engine.RunResult}
      {stored : Except StoreError Unit} {message : String}
      {next : Res (.panic message) → Gateway (Except ExecuteError ExecuteResponse)} {w : World}
      {th : RunThread} {handed : List Request} :
      Engine.respond deps prepared (engine.signedTrace deps prepared run) run.outcome.status
        stored = .call (.panic message) next →
      Step ⟨.storing prepared run (.ret stored), th, w, handed⟩ .poll ⟨.panicked, th, w, handed⟩
  /-- The future is dropped at its await; the run thread goes on. -/
  | drop {prepared : Engine.Prepared deps} {w : World} {th : RunThread} {handed : List Request} :
      Step ⟨.awaiting prepared, th, w, handed⟩ .drop ⟨.dropped, th, w, handed⟩
  | send {client : Client} {params : CallToolRequestParams}
      {next : Except String CallToolResult → Gateway Engine.RunResult} {f : Future deps}
      {w : World} {handed : List Request} :
      Step ⟨f, .running (.call (.toolsCall client params) next), w, handed⟩ .send
        ⟨f, .waiting (client, params) next, w, handed ++ [(client, params)]⟩
  | answer {request : Request} {next : Except String CallToolResult → Gateway Engine.RunResult}
      (answer : Except String CallToolResult) {f : Future deps} {w : World}
      {handed : List Request} :
      Step ⟨f, .waiting request next, w, handed⟩ .answer ⟨f, .running (next answer), w, handed⟩
  | leave {run : Engine.RunResult} {f : Future deps} {w : World} {handed : List Request} :
      Step ⟨f, .running (.ret run), w, handed⟩ .leave ⟨f, .finished run, w, handed⟩
  /-- The run thread panics, for whatever reason. -/
  | panic {th : RunThread} {f : Future deps} {w : World} {handed : List Request} :
      th.Busy → Step ⟨f, th, w, handed⟩ .panic ⟨f, .panicked, w, handed⟩
  | others {f : Future deps} {th : RunThread} {w w' : World} {handed : List Request} :
      (bystanders engine.store i).Valid w' → (bystanders engine.store i).Keeps i pid w w' →
      Step ⟨f, th, w, handed⟩ .others ⟨f, th, w', handed⟩

/-- An execute that has been called. -/
def Execution.start (principal : String) (req : ExecuteRequest) (w : World) : Execution deps :=
  ⟨.preparing (engine.prepare deps principal req), .idle, w, []⟩

/-- Any steps. -/
abbrev Execution.Run : Execution deps → Execution deps → Prop :=
  Relation.ReflTransGen fun s s' => ∃ a, Execution.Step deps engine i pid s a s'

variable {deps}

/-- Neither party goes away once a request is out, and none is sent after the
future is gone. -/
def Harmless (s : Execution deps) : Action → Prop
  | .drop | .panic => s.handed = []
  | .send => ¬ s.future.Ended
  | _ => True

/-- Any harmless steps. -/
abbrev Execution.HarmlessRun (deps : Deps) (engine : Engine) (i pid : Nat) :
    Execution deps → Execution deps → Prop :=
  Relation.ReflTransGen fun s s' => ∃ a, Harmless s a ∧ Execution.Step deps engine i pid s a s'

end Steps

/-! ### What was asked for -/

/-- The requests among the events of a run. -/
def requests (evs : List (Event Op Res)) : List Request :=
  evs.filterMap fun
    | ⟨.toolsCall client params, _⟩ => some (client, params)
    | _ => none

theorem requests_append (evs evs' : List (Event Op Res)) :
    requests (evs ++ evs') = requests evs ++ requests evs' := List.filterMap_append

section Entries

variable (deps : Deps)

/-- The entry of the call that sent this request. -/
structure EntryFor (request : Request) (entry : TraceEntry) : Prop where
  call : ∃ (c : CallStep deps) (answer : Except String CallToolResult), c.Ok ∧
    c.events = [⟨.toolsCall request.1 request.2, answer⟩] ∧
    entry.record.toolName = c.name ∧ entry.record.argsCanonical = deps.argsCanonical c.args
  decision : entry.decision = .allowed

variable {deps}

/-- A call sends nothing, or one request, and then its decision says so. -/
theorem CallStep.Ok.sends {c : CallStep deps} (h : c.Ok) :
    ∃ entry, c.next.log = c.host.log ++ [entry] ∧ (c.events = [] ∨
      ∃ client params answer, c.events = [⟨.toolsCall client params, answer⟩] ∧
        entry.1 = .allowed) := by
  rcases callTool_runs h with ⟨d, -, hevs, -, hnext⟩ | ⟨tool, v, response, -, hcall, hc⟩
  · exact ⟨(d, .unsigned), by rw [hnext]; rfl, Or.inl hevs⟩
  · obtain ⟨-, provenance, hlog⟩ := conclude_push hc
    refine ⟨(.allowed, provenance), hlog, ?_⟩
    rcases call_sends hcall with ⟨hevs, -⟩ | ⟨client, params, answer, -, hevs, -⟩
    · exact Or.inl hevs
    · exact Or.inr ⟨client, params, answer, hevs, rfl⟩

/-- The requests of a run have their entries, in order. -/
theorem Recording.entered {run : VmRun deps.Value deps.Table} {host last : GatewayHost}
    {calls : List (Recorded deps)} {e : VmEnd deps.Value}
    (h : Recording deps run host calls e last) (hrecords : run.EachCall (RecordsCall deps)) :
    ∃ entries, last.log = host.log ++ entries ∧
      ∃ l, l.Sublist (Engine.zipEntries (calls.map Recorded.record) entries) ∧
        List.Forall₂ (EntryFor deps) (requests (calls.map fun c => c.step.events).flatten) l := by
  induction h with
  | done e host => exact ⟨[], by simp, [], .slnil, .nil⟩
  | @call c record next rest e last hok _ ih =>
    obtain ⟨entry, hlog, hsent⟩ := hok.sends
    obtain ⟨entries, hlast, l, hl, hall⟩ := ih (hrecords.2 _)
    refine ⟨entry :: entries, ?_, ?_⟩
    · rw [hlast, c.after_log, hlog]
      simp
    · simp only [List.map_cons, List.flatten_cons, requests_append]
      rcases hsent with hevs | ⟨client, params, answer, hevs, hallowed⟩
      · refine ⟨l, hl.cons _, ?_⟩
        rw [hevs]
        exact hall
      · refine ⟨_, hl.cons_cons ⟨record c.answer c.blob, entry.1, entry.2⟩, ?_⟩
        rw [hevs]
        refine .cons ⟨⟨c, answer, hok, hevs, ?_, ?_⟩, hallowed⟩ hall
        · exact hrecords.1.toolName _ _
        · exact hrecords.1.argsCanonical _ _

end Entries

/-! ### The invariant -/

section Invariant

variable {deps : Deps} {engine : Engine} {i pid : Nat}

/-- Where the run thread of `prepared` stands, and what it has sent. -/
def Progress (deps : Deps) (engine : Engine) (prepared : Engine.Prepared deps)
    (handed : List Request) : RunThread → Prop
  | .idle => False
  | .running p => ∃ evs, Leads (engine.runThread deps prepared) evs p ∧ handed = requests evs
  | .waiting request next => ∃ evs,
      Leads (engine.runThread deps prepared) evs (.call (.toolsCall request.1 request.2) next) ∧
        handed = requests evs ++ [request]
  | .finished run => ∃ evs, Runs (engine.runThread deps prepared) evs run ∧ handed = requests evs
  | .panicked => handed = []

/-- The run is over, and its signed trace is in the store. -/
structure TraceFiled (deps : Deps) (engine : Engine) (w : World) (handed : List Request)
    (prepared : Engine.Prepared deps) (run : Engine.RunResult) : Prop where
  ready : engine.Ready deps prepared
  ran : Progress deps engine prepared handed (.finished run)
  filed : Holds w engine.store.traces prepared.traceId "json"
    ((engine.signedTrace deps prepared run).toVec deps)

/-- What is owed once the future has ended. -/
def Accounted (deps : Deps) (engine : Engine) (s : Execution deps) : Prop :=
  s.handed = [] ∨ (∃ e, s.future = .returned (.error (.store e))) ∨
    ∃ prepared run, TraceFiled deps engine s.world s.handed prepared run

/-- What `put_trace` promises. -/
def Puts (deps : Deps) (engine : Engine) (prepared : Engine.Prepared deps)
    (run : Engine.RunResult) (r : Except StoreError Unit) (w : World) : Prop :=
  r = .ok () → Holds w engine.store.traces prepared.traceId "json"
    ((engine.signedTrace deps prepared run).toVec deps)

/-- What holds of the future, the thread and the requests, future by future. -/
def Standing (deps : Deps) (engine : Engine) (i pid : Nat) (s : Execution deps) : Prop :=
  match s.future with
  | .preparing p => ¬ s.thread.Busy ∧ s.handed = [] ∧
      (bystanders engine.store i).Safe i pid
        (fun a _ => ∀ prepared, a = .ok prepared → engine.Ready deps prepared) p s.world
  | .awaiting prepared => engine.Ready deps prepared ∧
      Progress deps engine prepared s.handed s.thread
  | .storing prepared run put => ¬ s.thread.Busy ∧ engine.Ready deps prepared ∧
      Progress deps engine prepared s.handed (.finished run) ∧
      (bystanders engine.store i).Safe i pid (Puts deps engine prepared run) put s.world
  | .dropped => s.handed = []
  | .returned _ | .panicked => ¬ s.thread.Busy ∧ Accounted deps engine s

structure Lives (deps : Deps) (engine : Engine) (i pid : Nat) (s : Execution deps) : Prop where
  valid : (bystanders engine.store i).Valid s.world
  standing : Standing deps engine i pid s

/-! ### The future's programs -/

theorem Ready.prepared (engine : Engine) (principal : String) (req : ExecuteRequest)
    (program : deps.CompiledProgram) (traceId : String) :
    engine.Ready deps (engine.preparedOf deps principal req program traceId) := ⟨rfl, _, rfl⟩

/-- Whoever runs, `prepare` hands over what is ready. -/
theorem bystanders_prepare {w : World} (principal : String) (req : ExecuteRequest)
    (hv : (bystanders engine.store i).Valid w) :
    (bystanders engine.store i).Safe i pid
      (fun a _ => ∀ prepared, a = .ok prepared → engine.Ready deps prepared)
      (engine.prepare deps principal req) w := by
  unfold Engine.prepare
  dsimp only
  split
  case h_1 => exact fun _ r => nomatch r
  case h_2 => exact Protocol.Safe.ret fun _ _ _ _ h => by cases h
  case h_3 program _ =>
    obtain ⟨p, hp⟩ := keyPath_encode engine.store.programs (deps.programHash program) "lua"
    obtain ⟨q, hq⟩ := keyPath_encode engine.store.descriptions
      (build deps (engine.allowedSchemas principal)).hash "txt"
    simp only [TraceStore.putProgram, TraceStore.putDescription, hp, hq]
    refine Interleave.Safe.bind Protocol.Keeps.refl hv (Protocol.safe_putContentAddressed
      (not_isTmp_of_keyPath hp) (bystanders_canPublish _ _ _ _ _)) ?_
    intro r w₁ hv₁ _
    cases Engine.ignoreConflict r with
    | error e => exact Protocol.Safe.ret fun _ _ _ _ h => by cases h
    | ok u =>
      refine Interleave.Safe.bind Protocol.Keeps.refl hv₁ (Protocol.safe_putContentAddressed
        (not_isTmp_of_keyPath hq) (bystanders_canPublish _ _ _ _ _)) ?_
      rintro (e | u) w₂ hv₂ -
      · exact Protocol.Safe.ret fun _ _ _ _ h => by cases h
      · refine Protocol.Safe.quiet trivial ?_
        intro w₃ id _ _ _ _
        apply Protocol.Safe.ret
        rintro w₄ - - prepared ⟨⟩
        exact Ready.prepared engine principal req program id

theorem bystanders_puts {w : World} (prepared : Engine.Prepared deps) (run : Engine.RunResult) :
    (bystanders engine.store i).Safe i pid (Puts deps engine prepared run)
      (engine.store.putTrace deps (engine.signedTrace deps prepared run)) w := by
  cases hp : keyPath engine.store.traces prepared.traceId "json" with
  | error e =>
    have hkey : keyPath engine.store.traces (engine.signedTrace deps prepared run).header.traceId
        "json" = .error e := hp
    simp only [TraceStore.putTrace, hkey]
    exact Protocol.Safe.ret fun _ _ _ h => by cases h
  | ok p =>
    have hkey : keyPath engine.store.traces (engine.signedTrace deps prepared run).header.traceId
        "json" = .ok p := hp
    refine Interleave.Safe.weaken (Protocol.safe_putTrace hkey (bystanders_canPublish _ _ _ _ _)) ?_
    rintro r w' - hput hr
    obtain ⟨V, -, hV, hrely⟩ := hput.stored hr
    have hfile := hrely rfl p _ (parent_of_keyPath hp) hV
    rw [World.visible_of_not_tmp (not_isTmp_of_keyPath hp)] at hfile
    exact ⟨p, hp, hfile⟩

/-- A stored trace stays. -/
theorem Holds.stays {w w' : World} {name : String} {bytes : ByteArray}
    (h : Holds w engine.store.traces name "json" bytes)
    (hk : (bystanders engine.store i).Keeps i pid w w') :
    Holds w' engine.store.traces name "json" bytes := by
  obtain ⟨p, hp, hfile⟩ := h
  have htmp := not_isTmp_of_keyPath hp
  rw [← World.visible_of_not_tmp htmp] at hfile
  have hfile' := hk.visible rfl p bytes (parent_of_keyPath hp) hfile
  rw [World.visible_of_not_tmp htmp] at hfile'
  exact ⟨p, hp, hfile'⟩

theorem Accounted.stays {f : Future deps} {th : RunThread} {w w' : World} {handed : List Request}
    (h : Accounted deps engine ⟨f, th, w, handed⟩)
    (hk : (bystanders engine.store i).Keeps i pid w w') :
    Accounted deps engine ⟨f, th, w', handed⟩ := by
  rcases h with h | h | ⟨prepared, run, hready, hran, hfiled⟩
  · exact Or.inl h
  · exact Or.inr (Or.inl h)
  · exact Or.inr (Or.inr ⟨prepared, run, hready, hran, hfiled.stays hk⟩)

/-! ### One step -/

theorem respond_error {prepared : Engine.Prepared deps} {t : Trace} {status : RunStatus}
    {e : StoreError} {result : Except ExecuteError ExecuteResponse}
    (h : Engine.respond deps prepared t status (.error e) = .ret result) :
    result = .error (.store e) := by
  cases h
  rfl

/-- Sending a request, and being answered, is progress. -/
theorem Progress.send {prepared : Engine.Prepared deps} {handed : List Request} {client : Client}
    {params : CallToolRequestParams} {next : Except String CallToolResult → Gateway Engine.RunResult}
    (h : Progress deps engine prepared handed (.running (.call (.toolsCall client params) next))) :
    Progress deps engine prepared (handed ++ [(client, params)]) (.waiting (client, params) next) := by
  obtain ⟨evs, hleads, rfl⟩ := h
  exact ⟨evs, hleads, rfl⟩

theorem Progress.answer {prepared : Engine.Prepared deps} {handed : List Request}
    {request : Request} {next : Except String CallToolResult → Gateway Engine.RunResult}
    (h : Progress deps engine prepared handed (.waiting request next))
    (answer : Except String CallToolResult) :
    Progress deps engine prepared handed (.running (next answer)) := by
  obtain ⟨evs, hleads, rfl⟩ := h
  refine ⟨evs ++ [⟨.toolsCall request.1 request.2, answer⟩], hleads.step answer, ?_⟩
  rw [requests_append]
  rfl

theorem Progress.leave {prepared : Engine.Prepared deps} {handed : List Request}
    {run : Engine.RunResult} (h : Progress deps engine prepared handed (.running (.ret run))) :
    Progress deps engine prepared handed (.finished run) := by
  obtain ⟨evs, hleads, rfl⟩ := h
  have hruns := hleads.runs (Runs.ret run)
  rw [List.append_nil] at hruns
  exact ⟨evs, hruns, rfl⟩

/-- The run thread works for a future that awaits it, or for none. -/
theorem Lives.busy {s : Execution deps} (h : Lives deps engine i pid s) (hbusy : s.thread.Busy) :
    (∃ prepared, s.future = .awaiting prepared ∧ engine.Ready deps prepared ∧
      Progress deps engine prepared s.handed s.thread) ∨
    s.future = .dropped ∧ s.handed = [] := by
  obtain ⟨future, th, w, handed⟩ := s
  have hstanding := h.standing
  cases future with
  | preparing p => exact absurd hbusy hstanding.1
  | awaiting prepared => exact Or.inl ⟨prepared, rfl, hstanding.1, hstanding.2⟩
  | storing prepared run put => exact absurd hbusy hstanding.1
  | returned result => exact absurd hbusy hstanding.1
  | dropped => exact Or.inr ⟨rfl, hstanding⟩
  | panicked => exact absurd hbusy hstanding.1

/-- A step of the run thread, if what it leaves is progress. -/
theorem Lives.thread {f : Future deps} {th th' : RunThread} {w : World}
    {handed handed' : List Request} (h : Lives deps engine i pid ⟨f, th, w, handed⟩)
    (hbusy : th.Busy)
    (hprogress : ∀ prepared, Progress deps engine prepared handed th →
      Progress deps engine prepared handed' th')
    (hdropped : f = .dropped → handed' = handed) :
    Lives deps engine i pid ⟨f, th', w, handed'⟩ := by
  refine ⟨h.valid, ?_⟩
  rcases h.busy hbusy with ⟨prepared, hf, hready, hp⟩ | ⟨hf, hnone⟩
  · cases hf
    exact ⟨hready, hprogress prepared hp⟩
  · cases hf
    exact (hdropped rfl).trans hnone

/-- **One step** keeps the invariant, if it is harmless. -/
theorem Lives.step {s s' : Execution deps} {a : Action} (h : Lives deps engine i pid s)
    (ha : Harmless s a) (hstep : Execution.Step deps engine i pid s a s') :
    Lives deps engine i pid s' := by
  have hv := h.valid
  have hstanding := h.standing
  cases hstep with
  | prepare hsem =>
    obtain ⟨hidle, hnone, hsafe⟩ := hstanding
    obtain ⟨hv', -, hsafe'⟩ := hsafe _ _ _ hv (Protocol.Keeps.refl _) ⟨trivial, hsem⟩
    exact ⟨hv', hidle, hnone, hsafe'⟩
  | preparePanics => exact ⟨hv, hstanding.1, Or.inl hstanding.2.1⟩
  | refuse => exact ⟨hv, hstanding.1, Or.inl hstanding.2.1⟩
  | spawn =>
    obtain ⟨-, hnone, hsafe⟩ := hstanding
    have hready := hsafe _ hv (Protocol.Keeps.refl _) _ rfl
    exact ⟨hv, hready, [], .refl, hnone⟩
  | join => exact ⟨hv, id, hstanding.1, hstanding.2, bystanders_puts _ _⟩
  | joinPanicked => exact ⟨hv, id, Or.inl hstanding.2⟩
  | store hsem =>
    obtain ⟨hidle, hready, hran, hsafe⟩ := hstanding
    obtain ⟨hv', -, hsafe'⟩ := hsafe _ _ _ hv (Protocol.Keeps.refl _) ⟨trivial, hsem⟩
    exact ⟨hv', hidle, hready, hran, hsafe'⟩
  | @respond prepared run stored result w th handed hrespond =>
    obtain ⟨hidle, hready, hran, hsafe⟩ := hstanding
    have hputs : Puts deps engine prepared run stored w := hsafe w hv (Protocol.Keeps.refl _)
    refine ⟨hv, hidle, Or.inr ?_⟩
    cases stored with
    | error e => exact Or.inl ⟨e, by rw [respond_error hrespond]⟩
    | ok u => exact Or.inr ⟨prepared, run, hready, hran, hputs rfl⟩
  | @respondPanics prepared run stored message next w th handed hrespond =>
    obtain ⟨hidle, hready, hran, hsafe⟩ := hstanding
    have hputs : Puts deps engine prepared run stored w := hsafe w hv (Protocol.Keeps.refl _)
    cases stored with
    | error e => cases hrespond
    | ok u => exact ⟨hv, hidle, Or.inr (Or.inr ⟨prepared, run, hready, hran, hputs rfl⟩)⟩
  | drop => exact ⟨hv, ha⟩
  | send =>
    refine h.thread trivial (fun _ => Progress.send) ?_
    rintro rfl
    exact absurd trivial ha
  | answer answer => exact h.thread trivial (fun _ hp => hp.answer answer) fun _ => rfl
  | leave => exact h.thread trivial (fun _ => Progress.leave) fun _ => rfl
  | panic hbusy => exact h.thread hbusy (fun _ _ => ha) fun _ => rfl
  | @others f th w w' handed hv' hk =>
    refine ⟨hv', ?_⟩
    cases f with
    | preparing p =>
      obtain ⟨hidle, hnone, hsafe⟩ := hstanding
      exact ⟨hidle, hnone, Interleave.Safe.stable (fun h h' => h.trans h') hsafe hk⟩
    | awaiting prepared => exact hstanding
    | storing prepared run put =>
      obtain ⟨hidle, hready, hran, hsafe⟩ := hstanding
      exact ⟨hidle, hready, hran, Interleave.Safe.stable (fun h h' => h.trans h') hsafe hk⟩
    | returned result => exact ⟨hstanding.1, hstanding.2.stays hk⟩
    | dropped => exact hstanding
    | panicked => exact ⟨hstanding.1, hstanding.2.stays hk⟩

theorem Lives.start (principal : String) (req : ExecuteRequest) {w : World} (hw : w.Numbered) :
    Lives deps engine i pid (.start deps engine principal req w) := by
  have hv : (bystanders engine.store i).Valid w := ⟨hw, fun h => h.elim, trivial⟩
  exact ⟨hv, id, rfl, bystanders_prepare principal req hv⟩

/-- **Any harmless steps** keep the invariant. -/
theorem Lives.run {s s' : Execution deps} (h : Lives deps engine i pid s)
    (hrun : Execution.HarmlessRun deps engine i pid s s') :
    Lives deps engine i pid s' := by
  induction hrun with
  | refl => exact h
  | tail _ hstep ih =>
    obtain ⟨a, ha, hstep⟩ := hstep
    exact ih.step ha hstep

end Invariant

/-! ### Every request has its entry -/

section Calls

variable {deps : Deps} {engine : Engine} {i pid : Nat}

/-- Once the future has ended, a signed trace in the store has an entry for
every request that was handed over, or the execute returned a store error. -/
def CallsRecorded (deps : Deps) (engine : Engine) (s : Execution deps) : Prop :=
  s.future.Ended → s.handed ≠ [] →
    (∃ e, s.future = .returned (.error (.store e))) ∨
    ∃ t : Trace, Holds s.world engine.store.traces t.header.traceId "json" (t.toVec deps) ∧
      t.sign deps engine.signingKey = t ∧
      ∃ l, l.Sublist t.entries ∧ List.Forall₂ (EntryFor deps) s.handed l

/-- The trace that is stored has the entries. -/
theorem TraceFiled.entered {w : World} {handed : List Request} {prepared : Engine.Prepared deps}
    {run : Engine.RunResult}
    (hrecords : ∀ program config, (deps.execute program config).EachCall (RecordsCall deps))
    (h : TraceFiled deps engine w handed prepared run) :
    ∃ l, l.Sublist (engine.signedTrace deps prepared run).entries ∧
      List.Forall₂ (EntryFor deps) handed l := by
  obtain ⟨evs, hruns, rfl⟩ := h.ran
  obtain ⟨calls, e, last, htranscribed⟩ := runThread_runs hruns
  obtain ⟨entries, hlog, l, hl, hall⟩ := htranscribed.recording.entered (hrecords _ _)
  obtain ⟨allowed, hhost⟩ := h.ready.host
  -- the host was new, so the log is the log of this run
  have hlast : last.log = entries := by
    rw [hlog, hhost]
    rfl
  refine ⟨l, ?_, ?_⟩
  · show l.Sublist run.entries
    rw [htranscribed.entries, hlast]
    exact hl
  · rw [htranscribed.events]
    exact hall

theorem Lives.callsRecorded {s : Execution deps} (h : Lives deps engine i pid s)
    (hrecords : ∀ program config, (deps.execute program config).EachCall (RecordsCall deps)) :
    CallsRecorded deps engine s := by
  intro hended hhanded
  have haccounted : Accounted deps engine s := by
    obtain ⟨future, th, w, handed⟩ := s
    cases future with
    | preparing p => exact hended.elim
    | awaiting prepared => exact hended.elim
    | storing prepared run put => exact hended.elim
    | returned result => exact h.standing.2
    | dropped => exact absurd h.standing hhanded
    | panicked => exact h.standing.2
  rcases haccounted with hnone | hstore | ⟨prepared, run, hfiled⟩
  · exact absurd hnone hhanded
  · exact Or.inl hstore
  · exact Or.inr ⟨engine.signedTrace deps prepared run, hfiled.filed, Trace.sign_sign _ _,
      hfiled.entered hrecords⟩

/-- In every run in which the future is not dropped and the run thread does
not panic once a request is out, and no request is sent for a future that is
gone: every request has its entry. -/
theorem calls_recorded
    (hrecords : ∀ program config, (deps.execute program config).EachCall (RecordsCall deps))
    (principal : String) (req : ExecuteRequest) {w : World} (hw : w.Numbered)
    {s : Execution deps}
    (hrun : Execution.HarmlessRun deps engine i pid (.start deps engine principal req w) s) :
    CallsRecorded deps engine s := by
  have hstart : Lives deps engine i pid (.start deps engine principal req w) :=
    Lives.start principal req hw
  exact (hstart.run hrun).callsRecorded hrecords

/-! ### An execute, step by step -/

theorem steps_of_harmless {s s' : Execution deps}
    (h : Execution.HarmlessRun deps engine i pid s s') : Execution.Run deps engine i pid s s' := by
  induction h with
  | refl => exact Relation.ReflTransGen.refl
  | tail _ hstep ih =>
    obtain ⟨a, -, hstep⟩ := hstep
    exact ih.tail ⟨a, hstep⟩

theorem prepares {p : Gateway (Except ExecuteError (Engine.Prepared deps))}
    {a : Except ExecuteError (Engine.Prepared deps)} {w w' : World}
    (h : Exec (World.sem True i pid) p w a w') (th : RunThread) (handed : List Request) :
    Execution.HarmlessRun deps engine i pid ⟨.preparing p, th, w, handed⟩
      ⟨.preparing (.ret a), th, w', handed⟩ := by
  induction h with
  | ret a w => exact Relation.ReflTransGen.refl
  | call o next hsem _ ih => exact Relation.ReflTransGen.head ⟨.poll, trivial, .prepare hsem⟩ ih

theorem stores {prepared : Engine.Prepared deps} {run : Engine.RunResult}
    {p : Gateway (Except StoreError Unit)} {a : Except StoreError Unit} {w w' : World}
    (h : Exec (World.sem True i pid) p w a w') (th : RunThread) (handed : List Request) :
    Execution.HarmlessRun deps engine i pid ⟨.storing prepared run p, th, w, handed⟩
      ⟨.storing prepared run (.ret a), th, w', handed⟩ := by
  induction h with
  | ret a w => exact Relation.ReflTransGen.refl
  | call o next hsem _ ih => exact Relation.ReflTransGen.head ⟨.poll, trivial, .store hsem⟩ ih

end Calls

/-! ### At the instance -/

namespace Reference

/-- The request that `ask` leads to. -/
def askRequest : Request := (client, ⟨"t", some []⟩)

/-- The run thread begins with the request. -/
theorem ask_first : ∃ next, engine.runThread reference askPrepared =
    .call (.toolsCall client ⟨"t", some []⟩) next ∧ next (.ok noted) = .ret askRun := by
  obtain ⟨next, hnext, hrest⟩ := ask_runs.first
  exact ⟨next, hnext, hrest.over⟩

/-- The execute up to the request; no trace is there yet. -/
theorem ask_handed : ∃ next w, next (.ok noted) = .ret askRun ∧
    (∀ p, p.IsTmp → w.files p = none) ∧
    (∀ p, p.parent = engine.store.traces → w.files p = none) ∧
    Execution.HarmlessRun reference engine 0 1 (.start reference engine "alice" ask World.empty)
      ⟨.awaiting askPrepared, .waiting askRequest next, w, [askRequest]⟩ := by
  have hstore : engine.store.Separate := TraceStore.under_separate config.store.dir
  obtain ⟨w, hprepare, -, -, htmp, htraces⟩ : ∃ w',
      Exec (World.sem True 0 1) (engine.prepare reference "alice" ask) World.empty
        (.ok askPrepared) w' ∧ _ :=
    prepare_alone True 0 1 hstore ask_compiles "0a" fun _ => rfl
  obtain ⟨next, hfirst, hnext⟩ := ask_first
  refine ⟨next, w, hnext, htmp, htraces, (prepares hprepare .idle []).trans ?_⟩
  refine Relation.ReflTransGen.head ⟨.spawn, trivial, .spawn⟩ ?_
  rw [hfirst]
  exact Relation.ReflTransGen.single ⟨.send, id, .send⟩

end Reference

open Reference in
/-- The future is dropped when the first request is out: the request was
handed over, and no trace is stored. -/
theorem dropped_unrecorded : ∃ s,
    Execution.Run reference engine 0 1 (.start reference engine "alice" ask World.empty) s ∧
      s.future = .dropped ∧ s.handed = [askRequest] ∧
      (∀ p, p.parent = engine.store.traces → s.world.files p = none) ∧
      ¬ CallsRecorded reference engine s := by
  obtain ⟨next, w, -, -, htraces, hrun⟩ := ask_handed
  refine ⟨_, (steps_of_harmless hrun).tail ⟨.drop, .drop⟩, rfl, rfl, htraces, ?_⟩
  intro hrecorded
  rcases hrecorded trivial (by simp) with ⟨e, he⟩ | ⟨t, ⟨p, hp, hfile⟩, -⟩
  · cases he
  · rw [htraces p (parent_of_keyPath hp)] at hfile
    cases hfile

open Reference in
theorem calls_recorded_reference : ∃ s,
    Execution.HarmlessRun reference engine 0 1 (.start reference engine "alice" ask World.empty) s ∧
      s.future.Ended ∧ s.handed = [askRequest] ∧ CallsRecorded reference engine s := by
  obtain ⟨next, w, hnext, htmp, htraces, hrun⟩ := ask_handed
  obtain ⟨p, hp⟩ : ∃ p, keyPath engine.store.traces askPrepared.traceId "json" = .ok p :=
    ⟨_, keyPath_eq_ok.mpr ⟨by decide, rfl⟩⟩
  obtain ⟨w', hput, -⟩ : ∃ w', World.alone 0 1 (engine.store.putTrace reference askTrace) w =
      some (.ok (), w') ∧ World.Written 1 p (askTrace.toVec reference) w w' :=
    alone_putTrace hp (htraces p (parent_of_keyPath hp)) (htmp _ ⟨1, _, rfl⟩)
  obtain ⟨response, hresponse⟩ : ∃ response, Engine.respond reference askPrepared
      (engine.signedTrace reference askPrepared askRun) askRun.outcome.status (.ok ()) =
        .ret (.ok response) := respond_stored ask_output
  have hanswered := hrun.tail ⟨.answer, trivial, .answer (.ok noted)⟩
  rw [hnext] at hanswered
  have hjoined := (hanswered.tail ⟨.leave, trivial, .leave⟩).tail ⟨.join, trivial, .join⟩
  have hstored := hjoined.trans (stores (exec_of_alone hput) _ _)
  have hdone := hstored.tail ⟨.poll, trivial, .respond hresponse⟩
  have hnumbered : World.empty.Numbered := fun _ _ _ => rfl
  exact ⟨_, hdone, trivial, rfl, calls_recorded (fun program config => coreVm.records program config)
    "alice" ask hnumbered hdone⟩

end ProvenoGateway
