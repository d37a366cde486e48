/-
ProvenoGateway/TaskSpending.lean

What a task of the demo agent can spend.

The agent runs beside the gateway threads that serve its `execute` calls.  A
thread may be anywhere in its run, also when the agent has given up on it; the
one thing the agent sees of a thread is the result it returns, which the
interceptor keeps.  An attempt that is answered with a lint error has sent
nothing, and of the others there are no more than `max_runs`, whether they
succeed, fail or never end.  So the bound on what one request can spend bounds
what a task can spend (`task_spending_bounded`).
-/
import ProvenoGateway.Spending
import ProvenoGateway.StopRules

namespace ProvenoGateway

open Program (Leads Runs Uses leads_bind runs_bind_iff runs_ret_iff)

/-! ### Part of an execute -/

section Begun

variable {deps : Deps} {net : Network} {engine : Engine} {p : String} {req : ExecuteRequest}
variable {evs : List (Program.Event Op Res)}

/-- What the run thread has sent so far is where a recording begins. -/
theorem runThread_begun {prepared : Engine.Prepared deps} {q : Gateway Engine.RunResult}
    (h : Leads (engine.runThread deps prepared) evs q) : ∃ calls e last,
      Recording deps (deps.execute prepared.program (VmConfig.ofSettings engine.vm)) prepared.host
        calls e last ∧
      requests evs <+: requests (calls.map fun c => c.step.events).flatten := by
  rcases leads_bind h with ⟨rest, hdrive, -⟩ |
    ⟨⟨e, last, transcript⟩, evs₁, evs₂, rfl, hdrive, hend⟩
  · -- every request may be answered, so the run can go on to its end
    have hanswers : rest.Uses fun o => Nonempty (Res o) :=
      (hdrive.allowed (drive_uses (callTool_uses fun _ _ => ⟨.error ""⟩) _ _ _)).2
    obtain ⟨evs', ⟨e, last, transcript⟩, hruns⟩ := hdrive.completes hanswers
    obtain ⟨calls, hrecording, -, hevents⟩ := drive_recording hruns
    refine ⟨calls, e, last, hrecording, requests evs', ?_⟩
    rw [← hevents, requests_append]
  · obtain ⟨calls, hrecording, -, hevents⟩ := drive_recording hdrive
    refine ⟨calls, e, last, hrecording, [], ?_⟩
    have hquiet : requests evs₂ = [] := by
      refine requests_of_sendless (hend.allowed ?_).1
      dsimp only
      split
      · trivial
      · exact ⟨trivial, fun r => nomatch r⟩
    rw [← hevents, requests_append, hquiet, List.append_nil, List.append_nil]

/-- What an execute has sent so far: nothing, or where a recording begins. -/
theorem execute_begun {q : Gateway (Except ExecuteError ExecuteResponse)}
    (h : Leads (engine.execute deps p req) evs q) : requests evs = [] ∨
      ∃ program traceId calls e last,
        Recording deps (deps.execute program (VmConfig.ofSettings engine.vm))
          (engine.preparedOf deps p req program traceId).host calls e last ∧
        requests evs <+: requests (calls.map fun c => c.step.events).flatten := by
  rcases leads_bind h with ⟨rest, hprepare, -⟩ | ⟨result, evs₁, evs₂, rfl, hprepare, h₂⟩
  · exact Or.inl (requests_of_sendless (hprepare.allowed prepare_sendless).1)
  · have hnone : requests evs₁ = [] := requests_of_sendless (hprepare.allowed prepare_sendless)
    rw [requests_append, hnone, List.nil_append]
    cases result with
    | error e =>
      rw [Program.Leads.of_ret h₂]
      exact Or.inl rfl
    | ok prepared =>
      obtain ⟨program, traceId, -, rfl⟩ := prepare_ok hprepare
      refine Or.inr ⟨program, traceId, ?_⟩
      rcases leads_bind h₂ with ⟨rest, hrun, -⟩ | ⟨run, evs₃, evs₄, rfl, hrun, hfinish⟩
      · exact runThread_begun hrun
      · have hquiet : requests evs₄ = [] :=
          requests_of_sendless (hfinish.allowed finish_sendless).1
        rw [requests_append, hquiet, List.append_nil]
        exact runThread_begun hrun.leads

/-- An execute has not sent what is not warranted, and not more than its
program's tool calls. -/
theorem execute_begun_sends (hds : engine.downstreams.WellFormed net)
    {q : Gateway (Except ExecuteError ExecuteResponse)}
    (h : Leads (engine.execute deps p req) evs q) :
    (∀ r ∈ requests evs, Warranted deps net engine p r) ∧
    ∀ n, (∀ program, (deps.execute program (VmConfig.ofSettings engine.vm)).AtMost n) →
      (requests evs).length ≤ n := by
  rcases execute_begun h with hnone | ⟨program, traceId, calls, e, last, hrecording, hbegins⟩
  · rw [hnone]
    exact ⟨nofun, fun n _ => Nat.zero_le n⟩
  · refine ⟨fun r hr => hrecording.warranted hds r (hbegins.subset hr), fun n hn => ?_⟩
    exact hbegins.length_le.trans (hrecording.requests_le (hn program))

end Begun

namespace DemoAgent

open Transitions

/-! ### The attempts that count -/

/-- Something may have been sent. -/
def Outcome.isCharged (outcome : Outcome) : Bool := outcome ≠ .lintError

/-- How many attempts have ended otherwise than with a lint error. -/
def charged (evs : List Event) : Nat := (outcomes evs).countP Outcome.isCharged

/-- An attempt is charged to the cap on runs when it starts. -/
structure Charged (settings : Settings) (evs : List Event) (s : AgentState) : Prop where
  made : s.guard.settings = settings
  /-- Before a failure, only successes are charged. -/
  unfailed : s.guard.report.stop = none → charged evs = s.guard.successes
  capped : charged evs + s.attempt.toList.length ≤ settings.maxRuns.toNat

theorem charged_concat_none {evs : List Event} {e : Event} (h : e.outcome = none) :
    charged (evs ++ [e]) = charged evs := by
  rw [charged, outcomes_concat_none h, charged]

theorem charged_concat_some {evs : List Event} {e : Event} {outcome : Outcome}
    (h : e.outcome = some outcome) :
    charged (evs ++ [e]) = charged evs + if outcome.isCharged then 1 else 0 := by
  rw [charged, outcomes_concat_some h, List.countP_append, List.countP_singleton, charged]

theorem charged_initial (settings : Settings) (session : String) :
    Charged settings [] (.initial settings session) :=
  ⟨rfl, fun _ => rfl, Nat.zero_le _⟩

theorem Charged.step {settings : Settings} {evs : List Event} {s s' : AgentState} {e : Event}
    (hs : Charged settings evs s) (h : Step s e s') : Charged settings (evs ++ [e]) s' := by
  -- no step takes `stop` back
  have hbefore : s'.guard.report.stop = none → s.guard.report.stop = none := by
    intro hnone
    by_contra hstop
    exact h.stop_ne_none hstop hnone
  cases h.moves with
  | asks calls _ _ _ hguard hflight =>
    have hattempt : s'.attempt = s.attempt := congrArg (Option.map Flight.attempt) hflight
    constructor
    · rw [hguard]
      exact hs.made
    · rw [charged_concat_none rfl, hguard]
      exact hs.unfailed
    · rw [charged_concat_none rfl, hattempt]
      exact hs.capped
  | sends task call _ hnone hruns _ _ hidle hflight =>
    have hattempt : s'.attempt = some (s.guard.report.runs.length + 1) :=
      congrArg (Option.map Flight.attempt) hflight
    rw [hs.made] at hruns
    constructor
    · exact hidle.settings.trans hs.made
    · rw [charged_concat_none rfl, hidle.successes]
      exact fun _ => hs.unfailed hnone
    · -- the one place where the cap is looked at
      rw [charged_concat_none rfl, hs.unfailed hnone, hattempt]
      show s.guard.successes + 1 ≤ settings.maxRuns.toNat
      omega
  | counts _ _ outcome flight houtcome _ _ hflight hcounts hflight' =>
    have hattempt : s.attempt = some flight.attempt := congrArg (Option.map Flight.attempt) hflight
    have hattempt' : s'.attempt = none := congrArg (Option.map Flight.attempt) hflight'
    have hcapped := hs.capped
    rw [hattempt] at hcapped
    constructor
    · exact hcounts.settings.trans hs.made
    · intro hnone
      rw [charged_concat_some houtcome, hs.unfailed (hbefore hnone), hcounts.successes]
      cases outcome with
      | ok => rfl
      | lintError => rfl
      | runFailed => exact absurd hnone (hcounts.failed rfl)
      | unexpected => exact absurd hnone (hcounts.failed rfl)
    · rw [charged_concat_some houtcome, hattempt']
      show charged evs + _ + 0 ≤ _
      have hone : (if outcome.isCharged then 1 else 0) ≤ 1 := by split <;> omega
      simp only [Option.toList_some, List.length_singleton] at hcapped
      omega
  | idles _ _ houtcome _ _ hidle hflight =>
    have hattempt : s'.attempt = s.attempt := hflight
    constructor
    · exact hidle.settings.trans hs.made
    · rw [charged_concat_none houtcome, hidle.successes]
      exact fun hnone => hs.unfailed (hbefore hnone)
    · rw [charged_concat_none houtcome, hattempt]
      exact hs.capped

/-! ### The agent and the threads that serve it -/

/-- A call that was sent, and what the gateway has done about it so far. -/
structure Attempt where
  call : ToolCall
  events : List (Program.Event Op Res)
  rest : Gateway (Except ErrorData CallToolResult)

structure Joint where
  agent : AgentState
  /-- In the order they were sent in. -/
  attempts : List Attempt

/-- Before the first reply. -/
def Joint.initial (settings : Settings) (session : String) : Joint :=
  ⟨.initial settings session, []⟩

/-- A step of the agent, labelled with its event, or of a thread. -/
inductive JointStep (serve : ToolCall → Gateway (Except ErrorData CallToolResult)) :
    Joint → Option Event → Joint → Prop
  /-- The gateway starts a thread for the call. -/
  | send (s : Joint) (task : Task) (call : ToolCall) (agent : AgentState) :
      Step s.agent (.sent task call) agent →
      JointStep serve s (some (.sent task call)) ⟨agent, s.attempts ++ [⟨call, [], serve call⟩]⟩
  /-- The interceptor keeps what the thread of the last call has returned. -/
  | keep (s : Joint) (earlier : List Attempt) (last : Attempt) (result : CallToolResult)
      (agent : AgentState) :
      s.attempts = earlier ++ [last] → last.rest = .ret (.ok result) →
      Step s.agent (.kept result) agent →
      JointStep serve s (some (.kept result)) ⟨agent, s.attempts⟩
  /-- What the agent does without the gateway, giving up on a call included. -/
  | alone (s : Joint) (e : Event) (agent : AgentState) :
      e.isSent = false → e.isKept = false → Step s.agent e agent →
      JointStep serve s (some e) ⟨agent, s.attempts⟩
  /-- A thread performs an operation, and gets an answer. -/
  | perform (s : Joint) (before after : List Attempt) (attempt : Attempt) (o : Op)
      (next : Res o → Gateway (Except ErrorData CallToolResult)) (r : Res o) :
      s.attempts = before ++ attempt :: after → attempt.rest = .call o next →
      JointStep serve s none
        ⟨s.agent, before ++ ⟨attempt.call, attempt.events ++ [⟨o, r⟩], next r⟩ :: after⟩

/-- The requests the gateway has sent for the task. -/
def Joint.requests (s : Joint) : List Request :=
  (s.attempts.map fun attempt => ProvenoGateway.requests attempt.events).flatten

/-- Answered with a lint error. -/
def Attempt.isRefused (attempt : Attempt) : Bool :=
  match attempt.rest with
  | .ret answer => read answer = .lintError
  | .call _ _ => false

/-! ### What the agent has counted -/

section Ledger

variable {serve : ToolCall → Gateway (Except ErrorData CallToolResult)} {settings : Settings}
variable {session : String}

/-- The events of the agent. -/
def agentEvents (past : List (Option Event)) : List Event := past.filterMap id

theorem agentEvents_concat (past : List (Option Event)) (e : Event) :
    agentEvents (past ++ [some e]) = agentEvents past ++ [e] := by
  simp [agentEvents]

theorem agentEvents_silent (past : List (Option Event)) :
    agentEvents (past ++ [none]) = agentEvents past := by
  simp [agentEvents]

/-- How many of the attempts are not answered with a lint error. -/
def unrefused (attempts : List Attempt) : Nat := attempts.countP fun attempt => !attempt.isRefused

/-- The attempts are those of the agent, and those that it has counted as lint
errors are answered with one. -/
structure Ledger (serve : ToolCall → Gateway (Except ErrorData CallToolResult))
    (settings : Settings) (past : List (Option Event)) (s : Joint) : Prop where
  charged : Charged settings (agentEvents past) s.agent
  kept : Kept (agentEvents past) s.agent
  begun : ∀ attempt ∈ s.attempts, Leads (serve attempt.call) attempt.events attempt.rest
  /-- All but the attempt under way are over; what was kept of it, its thread
  has returned. -/
  counted : ∃ earlier current, s.attempts = earlier ++ current ∧
    current.length = s.agent.attempt.toList.length ∧
    unrefused earlier ≤ DemoAgent.charged (agentEvents past) ∧
    ∀ flight result, s.agent.flight = some flight → flight.kept = some result →
      ∃ last, current = [last] ∧ last.rest = .ret (.ok result)

theorem ledger_initial (settings : Settings) (session : String) :
    Ledger serve settings [] (.initial settings session) :=
  ⟨charged_initial _ _, ⟨nofun, nofun⟩, nofun, [], [], rfl, rfl, le_refl _, nofun⟩

theorem unrefused_append (l l' : List Attempt) : unrefused (l ++ l') = unrefused l + unrefused l' :=
  List.countP_append

/-- A thread that performs an operation has not answered before. -/
theorem unrefused_perform {before after : List Attempt} {attempt : Attempt} {o : Op}
    {next : Res o → Gateway (Except ErrorData CallToolResult)} (h : attempt.rest = .call o next)
    (attempt' : Attempt) :
    unrefused (before ++ attempt' :: after) ≤ unrefused (before ++ attempt :: after) := by
  have hlive : attempt.isRefused = false := by rw [Attempt.isRefused, h]
  simp only [unrefused, List.countP_append, List.countP_cons, hlive]
  split <;> simp

/-- An element of a list that is cut in two is in the one part or in the
other. -/
theorem cut_around {α : Type} {before after earlier current : List α} {a : α}
    (h : before ++ a :: after = earlier ++ current) :
    (∃ as, earlier = before ++ a :: as ∧ after = as ++ current) ∨
      ∃ bs, before = earlier ++ bs ∧ current = bs ++ a :: after := by
  rcases List.append_eq_append_iff.mp h with ⟨as, rfl, hafter⟩ | ⟨bs, rfl, rfl⟩
  · cases as with
    | nil => exact Or.inr ⟨[], by simp, hafter.symm⟩
    | cons a' as =>
      cases hafter
      exact Or.inl ⟨as, rfl, rfl⟩
  · exact Or.inr ⟨bs, rfl, rfl⟩

/-- What the agent does on its own: its call in flight stays, or is over. -/
theorem Step.alone {s s' : AgentState} {e : Event} (h : Step s e s') (hsent : e.isSent = false)
    (hkept : e.isKept = false) : (e.outcome = none ∧ s'.flight = s.flight) ∨
      ∃ flight outcome, e.outcome = some outcome ∧ s.flight = some flight ∧ s'.flight = none ∧
        (outcome = .lintError → ∃ result, flight.kept.isSome = true ∧
          s.results "execute" = some result ∧ classify result = .lintError) := by
  cases h with
  | send before after task guard call _ _ _ _ => cases hsent
  | keep flight result _ => cases hkept
  | return_ flight result hflight hsome hresult =>
    refine Or.inr ⟨flight, classify result, rfl, hflight, rfl, fun hlint => ?_⟩
    exact ⟨result, hsome, hresult, hlint⟩
  | fail flight e hflight => exact Or.inr ⟨flight, .unexpected, rfl, hflight, rfl, nofun⟩
  | ask calls guard _ _ => exact Or.inl ⟨rfl, rfl⟩
  | jump guard _ _ => exact Or.inl ⟨rfl, rfl⟩
  | refuse before after task guard message _ _ _ _ => exact Or.inl ⟨rfl, rfl⟩
  | raise before after task guard _ _ _ _ => exact Or.inl ⟨rfl, rfl⟩
  | other before after task result _ _ => exact Or.inl ⟨rfl, rfl⟩
  | end_ _ _ _ _ => exact Or.inl ⟨rfl, rfl⟩

theorem Ledger.step {past : List (Option Event)} {s s' : Joint} {l : Option Event}
    (hs : Ledger serve settings past s) (h : JointStep serve s l s') :
    Ledger serve settings (past ++ [l]) s' := by
  obtain ⟨earlier, current, hsplit, hlength, hcount, hreturned⟩ := hs.counted
  cases h with
  | send task call agent hstep =>
    obtain ⟨hflight, hflight'⟩ :
        s.agent.flight = none ∧ ∃ n, agent.flight = some ⟨n, call, none⟩ := by
      cases hstep with
      | send before after task guard call _ _ hflight _ => exact ⟨hflight, _, rfl⟩
    obtain ⟨n, hflight'⟩ := hflight'
    have hattempt : s.agent.attempt = none := congrArg (Option.map Flight.attempt) hflight
    have hattempt' : agent.attempt = some n := congrArg (Option.map Flight.attempt) hflight'
    have hcurrent : current = [] := by
      rw [hattempt] at hlength
      exact List.length_eq_zero_iff.mp hlength
    refine ⟨?_, ?_, ?_, earlier, [⟨call, [], serve call⟩], ?_, ?_, ?_, ?_⟩
    · rw [agentEvents_concat]
      exact hs.charged.step hstep
    · rw [agentEvents_concat]
      exact hs.kept.step hstep
    · intro attempt hattempt
      rcases List.mem_append.mp hattempt with hattempt | hattempt
      · exact hs.begun attempt hattempt
      · rw [List.mem_singleton.mp hattempt]
        exact Leads.refl
    · rw [hsplit, hcurrent, List.append_nil]
    · rw [hattempt']
      rfl
    · rw [agentEvents_concat, charged_concat_none rfl]
      exact hcount
    · intro flight result hflight hkept
      rw [hflight'] at hflight
      cases hflight
      cases hkept
  | keep before last result agent hlast hrest hstep =>
    obtain ⟨flight, hflight, hflight'⟩ : ∃ flight, s.agent.flight = some flight ∧
        agent.flight = some { flight with kept := some result } := by
      cases hstep with
      | keep flight result hflight => exact ⟨flight, hflight, rfl⟩
    have hattempt : s.agent.attempt = some flight.attempt :=
      congrArg (Option.map Flight.attempt) hflight
    have hattempt' : agent.attempt = some flight.attempt :=
      congrArg (Option.map Flight.attempt) hflight'
    -- the last attempt is the one under way
    obtain ⟨last', rfl⟩ : ∃ last', current = [last'] := by
      rw [hattempt] at hlength
      exact List.length_eq_one_iff.mp hlength
    obtain ⟨rfl, hsame⟩ := List.append_inj' (hlast.symm.trans hsplit) rfl
    cases hsame
    refine ⟨?_, ?_, hs.begun, before, [last], hsplit, ?_, ?_, ?_⟩
    · rw [agentEvents_concat]
      exact hs.charged.step hstep
    · rw [agentEvents_concat]
      exact hs.kept.step hstep
    · rw [hattempt']
      rfl
    · rw [agentEvents_concat, charged_concat_none rfl]
      exact hcount
    · intro flight₁ result₁ hflight₁ hkept₁
      rw [hflight'] at hflight₁
      cases hflight₁
      cases hkept₁
      exact ⟨last, rfl, hrest⟩
  | alone e agent hsent hkept hstep =>
    have hcharged : Charged settings (agentEvents (past ++ [some e])) agent := by
      rw [agentEvents_concat]
      exact hs.charged.step hstep
    have hkept' : Kept (agentEvents (past ++ [some e])) agent := by
      rw [agentEvents_concat]
      exact hs.kept.step hstep
    rcases hstep.alone hsent hkept with ⟨hnone, hflight⟩ |
      ⟨flight, outcome, houtcome, hflight, hflight', hlint⟩
    · have hattempt : agent.attempt = s.agent.attempt :=
        congrArg (Option.map Flight.attempt) hflight
      refine ⟨hcharged, hkept', hs.begun, earlier, current, hsplit, ?_, ?_, ?_⟩
      · rw [hattempt]
        exact hlength
      · rw [agentEvents_concat, charged_concat_none hnone]
        exact hcount
      · rw [hflight]
        exact hreturned
    · have hattempt : s.agent.attempt = some flight.attempt :=
        congrArg (Option.map Flight.attempt) hflight
      have hattempt' : agent.attempt = none := congrArg (Option.map Flight.attempt) hflight'
      rw [hattempt] at hlength
      obtain ⟨last, rfl⟩ := List.length_eq_one_iff.mp hlength
      refine ⟨hcharged, hkept', hs.begun, earlier ++ [last], [], ?_, ?_, ?_, ?_⟩
      · rw [hsplit, List.append_nil]
      · rw [hattempt']
        rfl
      · rw [agentEvents_concat, charged_concat_some houtcome, unrefused_append]
        apply Nat.add_le_add hcount
        cases outcome with
        | lintError =>
          -- the guard has classified what the thread returned
          obtain ⟨result, hsome, hresult, hclass⟩ := hlint rfl
          obtain ⟨kept, hkept₁⟩ := Option.isSome_iff_exists.mp hsome
          have hstored := hs.kept.stored flight hflight kept hkept₁
          rw [hresult] at hstored
          cases hstored
          obtain ⟨last', hlast, hrest⟩ := hreturned flight result hflight hkept₁
          cases hlast
          have hrefused : last.isRefused = true := by
            simp [Attempt.isRefused, hrest, read, hclass]
          simp [unrefused, hrefused]
        | _ =>
          show unrefused [last] ≤ 1
          exact List.countP_le_length
      · rw [hflight']
        exact nofun
  | perform before after attempt o next r hattempts hrest =>
    have hbegun : ∀ attempt' ∈
        before ++ ⟨attempt.call, attempt.events ++ [⟨o, r⟩], next r⟩ :: after,
        Leads (serve attempt'.call) attempt'.events attempt'.rest := by
      intro attempt' hmem
      have hold := hs.begun
      rw [hattempts] at hold
      rcases List.mem_append.mp hmem with hmem | hmem
      · exact hold attempt' (List.mem_append_left _ hmem)
      · rcases List.mem_cons.mp hmem with rfl | hmem
        · have hleads := hold attempt (List.mem_append_right _ List.mem_cons_self)
          rw [hrest] at hleads
          exact hleads.step r
        · exact hold attempt' (List.mem_append_right _ (List.mem_cons_of_mem _ hmem))
    have hpast : agentEvents (past ++ [none]) = agentEvents past := agentEvents_silent past
    refine ⟨by rw [hpast]; exact hs.charged, by rw [hpast]; exact hs.kept, hbegun, ?_⟩
    rw [hpast]
    rcases cut_around (hattempts.symm.trans hsplit) with ⟨as, rfl, rfl⟩ | ⟨bs, rfl, rfl⟩
    · -- it serves a call that is over
      refine ⟨before ++ ⟨attempt.call, attempt.events ++ [⟨o, r⟩], next r⟩ :: as, current, ?_,
        hlength, ?_, hreturned⟩
      · rw [List.append_assoc]
        rfl
      · exact (unrefused_perform hrest _).trans hcount
    · -- it serves the call under way, of which nothing has been kept
      refine ⟨earlier, bs ++ ⟨attempt.call, attempt.events ++ [⟨o, r⟩], next r⟩ :: after, ?_, ?_,
        hcount, ?_⟩
      · rw [List.append_assoc]
      · rw [← hlength]
        simp
      · intro flight result hflight hkept
        obtain ⟨last, hone, hlast⟩ := hreturned flight result hflight hkept
        cases bs with
        | nil =>
          cases hone
          rw [hrest] at hlast
          cases hlast
        | cons b bs =>
          have hlen := congrArg List.length hone
          simp at hlen

theorem walk_ledger {past : List (Option Event)} {s : Joint}
    (h : Walk (JointStep serve) (.initial settings session) past s) :
    Ledger serve settings past s :=
  h.keeps (fun _ _ _ _ hs hstep => hs.step hstep) (ledger_initial settings session)

/-- The attempts that are not refused are no more than the cap on runs. -/
theorem Ledger.capped {past : List (Option Event)} {s : Joint} (hs : Ledger serve settings past s) :
    unrefused s.attempts ≤ settings.maxRuns.toNat := by
  obtain ⟨earlier, current, hsplit, hlength, hcount, -⟩ := hs.counted
  have hcurrent : unrefused current ≤ current.length := List.countP_le_length
  have hcapped := hs.charged.capped
  rw [hsplit, unrefused_append]
  omega

end Ledger

/-! ### What the gateway does for the agent -/

section Serving

variable {deps : Deps} {net : Network} {engine : Engine} {p : String}
variable {errorText : String → Json → String}

/-- The gateway's handler, for the principal of the agent's token. -/
def serving (errorText : String → Json → String) (deps : Deps) (engine : Engine) (p : String)
    (call : ToolCall) : Gateway (Except ErrorData CallToolResult) :=
  Server.callTool errorText deps engine (some p) ⟨call.name, some call.args⟩

/-- A call is an execute, or sends nothing. -/
theorem serving_cases (call : ToolCall) :
    (serving errorText deps engine p call).Uses Sendless ∨
      ∃ a, serving errorText deps engine p call = Server.execute deps engine p a := by
  rcases hread : Server.ExecuteArgs.fromJson (.obj call.args) with - | a
  · refine Or.inl (Uses.mono ?_ (callTool_quiet fun _ => hread))
    rintro o ⟨message, rfl⟩
    trivial
  · by_cases hname : call.name = "execute"
    · exact Or.inr ⟨a, Server.callTool_execute hname hread⟩
    · refine Or.inl (Uses.mono ?_ (callTool_quiet fun h => absurd h hname))
      rintro o ⟨message, rfl⟩
      trivial

/-- A lint error is answered before anything is sent. -/
theorem serving_refused {call : ToolCall} {evs : List (Program.Event Op Res)}
    {answer : Except ErrorData CallToolResult}
    (h : Runs (serving errorText deps engine p call) evs answer)
    (hlint : read answer = .lintError) : requests evs = [] := by
  rcases serving_cases call with hquiet | ⟨a, ha⟩
  · exact requests_of_sendless (h.allowed hquiet)
  · rw [ha] at h
    rw [(meant h).lintError hlint]
    rfl

theorem serving_sends (hds : engine.downstreams.WellFormed net) {call : ToolCall}
    {evs : List (Program.Event Op Res)} {rest : Gateway (Except ErrorData CallToolResult)}
    (h : Leads (serving errorText deps engine p call) evs rest) :
    (∀ r ∈ requests evs, Warranted deps net engine p r) ∧
    ∀ n, (∀ program, (deps.execute program (VmConfig.ofSettings engine.vm)).AtMost n) →
      (requests evs).length ≤ n := by
  rcases serving_cases call with hquiet | ⟨a, ha⟩
  · rw [requests_of_sendless (h.allowed hquiet).1]
    exact ⟨nofun, fun n _ => Nat.zero_le n⟩
  · rw [ha] at h
    rcases leads_bind h with ⟨left, hexecute, -⟩ | ⟨outcome, evs₁, evs₂, rfl, hexecute, hanswer⟩
    · exact execute_begun_sends hds hexecute
    · rw [Program.Leads.of_ret hanswer, List.append_nil]
      exact execute_begun_sends hds hexecute.leads

/-- Where refused attempts send nothing and others at most `n` requests, the
task sends no more than the cap on runs allows. -/
theorem requests_le_unrefused {n : Nat} {attempts : List Attempt}
    (hrefused : ∀ attempt ∈ attempts, attempt.isRefused = true → requests attempt.events = [])
    (hn : ∀ attempt ∈ attempts, (requests attempt.events).length ≤ n) :
    (attempts.map fun attempt => requests attempt.events).flatten.length ≤
      unrefused attempts * n := by
  induction attempts with
  | nil => exact Nat.zero_le _
  | cons attempt attempts ih =>
    rw [List.forall_mem_cons] at hrefused hn
    have hrest := ih hrefused.2 hn.2
    rw [List.map_cons, List.flatten_cons, List.length_append, unrefused, List.countP_cons,
      ← unrefused, Nat.add_mul]
    cases hr : attempt.isRefused with
    | true =>
      rw [hrefused.1 hr]
      simpa using hrest
    | false =>
      have hlast := hn.1
      simp only [Bool.not_false, if_true, Nat.one_mul]
      omega

end Serving

/-! ### What a task can spend -/

section Task

variable {deps : Deps} {alloy : Wallet.Alloy} {from_ : alloy.Address} {settings : Settings}
variable {session : String}

/-- **What a task spends is bounded.**  Whatever the model replies, in whatever
order the calls start, and however far each of the gateway's threads gets:
where the rules bound the amount of the wallet's transfers and core keeps to a
limit of tool calls, all attempts of a task together move no more than the
bound, times the limit, times the cap on runs. -/
theorem task_spending_bounded (d : Deployment deps) (errorText : String → Json → String)
    (p : String) {past : List (Option Event)} {s : Joint}
    (h : Walk (JointStep (serving errorText deps d.engine p)) (.initial settings session) past s)
    {server : String} {cap : Int64}
    (hbound : d.engine.policy.bound (server ++ ".transfer") "amount" = some cap)
    {txs : List (Wallet.TransactionRequest alloy.Address)}
    (hspends : Spends alloy from_ server s.requests txs) :
    (∀ tx ∈ txs, tx.from_ = from_ ∧ 0 < tx.value ∧
      tx.value ≤ cap.toInt.toNat * Wallet.milliEthWei) ∧
    ∀ n, (∀ program, (deps.execute program (VmConfig.ofSettings d.engine.vm)).AtMost n) →
      (txs.map fun tx => tx.value).sum ≤
        settings.maxRuns.toNat * n * (cap.toInt.toNat * Wallet.milliEthWei) := by
  have hledger := walk_ledger h
  have hwarranted : ∀ r ∈ s.requests, ∃ p, Warranted deps d.net d.engine p r := by
    intro r hr
    obtain ⟨sent, hsent, hmem⟩ := List.mem_flatten.mp hr
    obtain ⟨attempt, hattempt, rfl⟩ := List.mem_map.mp hsent
    exact ⟨p, (serving_sends d.ready.2.2 (hledger.begun attempt hattempt)).1 r hmem⟩
  obtain ⟨heach, hsum⟩ := hspends.bounded hwarranted hbound
  refine ⟨heach, fun n hn => hsum _ ?_⟩
  have hrefused : ∀ attempt ∈ s.attempts, attempt.isRefused = true →
      requests attempt.events = [] := by
    intro attempt hattempt href
    have hleads := hledger.begun attempt hattempt
    unfold Attempt.isRefused at href
    split at href
    case h_1 answer hrest =>
      rw [hrest] at hleads
      have hruns : Runs (serving errorText deps d.engine p attempt.call) (attempt.events ++ [])
          answer :=
        hleads.runs (Runs.ret answer)
      rw [List.append_nil] at hruns
      exact serving_refused hruns (of_decide_eq_true href)
    case h_2 => cases href
  have hlength := requests_le_unrefused hrefused fun attempt hattempt =>
    (serving_sends d.ready.2.2 (hledger.begun attempt hattempt)).2 n hn
  exact hlength.trans (Nat.mul_le_mul_right n hledger.capped)

end Task

end DemoAgent

/-! ### At a task -/

namespace Reference

open DemoAgent Transitions

def payCall : ToolCall := ⟨"execute", [("program", .str "return s.t{}")], some "call_1"⟩

def payTask : Task := ⟨0, 0, payCall, [[payCall]]⟩

/-- The call as it is sent. -/
def paySent : ToolCall where
  name := "execute"
  args := [("program", .str "return s.t{}"), ("request", .str "task"), ("session", .str "s")]
  id := some "call_1"

def payServing : ToolCall → Gateway (Except ErrorData CallToolResult) :=
  serving (fun _ _ => "") payDeps payEngine "alice"

/-- A thread runs to its end while the agent waits. -/
theorem perform_walk {serve : ToolCall → Gateway (Except ErrorData CallToolResult)}
    (agent : AgentState) (call : ToolCall) {thread : Gateway (Except ErrorData CallToolResult)}
    {evs : List (Program.Event Op Res)} {answer : Except ErrorData CallToolResult}
    (h : Runs thread evs answer) (past : List (Program.Event Op Res)) :
    Walk (JointStep serve) ⟨agent, [⟨call, past, thread⟩]⟩ (List.replicate evs.length none)
      ⟨agent, [⟨call, past ++ evs, .ret answer⟩]⟩ := by
  induction h generalizing past with
  | ret a =>
    rw [List.append_nil]
    exact .nil _
  | call o next r _ ih =>
    have hrest := ih (past ++ [⟨o, r⟩])
    rw [List.append_assoc] at hrest
    exact .cons none (.perform _ [] [] ⟨call, past, .call o next⟩ o next r rfl rfl) hrest

/-- What the gateway makes of its arguments. -/
def payAsk : ExecuteRequest := ⟨ask.program, some "s", some "task"⟩

/-- What runs does not depend on the session or the task. -/
theorem payAsk_runs : ∃ run, Runs (payEngine.runThread payDeps
    (payEngine.preparedOf payDeps "alice" payAsk .ask "0a"))
    [⟨Op.toolsCall client Wallet.Anvil.transferParams, .error "gone"⟩] run ∧
      run.outcome.output = none := pay_runs

theorem payAsk_sends : ∃ evs response,
    Runs (payEngine.execute payDeps "alice" payAsk) evs (.ok response) ∧
      requests evs = [payRequest] := by
  obtain ⟨run, hrun, hout⟩ := payAsk_runs
  have hcompiled : compileProgram payDeps
      (build payDeps (payEngine.allowedSchemas "alice")).prelude payAsk.program = .ok .ask :=
    pay_compiles
  have hnone : ∀ json, run.outcome.output = some json → ∃ v, payDeps.fromStr json = .ok v := by
    intro json hjson
    rw [hout] at hjson
    cases hjson
  exact execute_sends (TraceStore.under_separate "/store") hcompiled
    (show validKey "0a" = true by decide) hrun hnone

theorem pay_serves : ∃ evs answer, Runs (payServing paySent) evs answer ∧
    requests evs = [payRequest] := by
  obtain ⟨evs, response, hexecute, hsent⟩ := payAsk_sends
  have hread : Server.ExecuteArgs.fromJson (.obj paySent.args) =
      some ⟨"return s.t{}", some "s", some "task"⟩ := rfl
  have hcall : payServing paySent =
      Server.execute payDeps payEngine "alice" ⟨"return s.t{}", some "s", some "task"⟩ := by
    show Server.callTool (fun _ _ => "") payDeps payEngine (some "alice") ⟨paySent.name,
      some paySent.args⟩ = _
    exact Server.callTool_execute rfl hread
  refine ⟨evs ++ [], Server.answer (.ok response), ?_, ?_⟩
  · rw [hcall]
    exact runs_bind_iff.mpr ⟨_, evs, [], rfl, hexecute, Runs.ret _⟩
  · rw [List.append_nil, hsent]

/-- The agent sends one payment, and waits. -/
theorem pay_walk : ∃ past s, Walk (JointStep payServing) (.initial strict "s") past s ∧
    s.requests = [payRequest] := by
  obtain ⟨evs, answer, hruns, hsent⟩ := pay_serves
  refine ⟨_, _, .cons _ (.alone _ _ _ rfl rfl (.ask _ [payCall] _ rfl rfl)) <|
    .cons _ (.send _ payTask paySent _ (.send _ [] [] payTask _ paySent rfl rfl rfl rfl)) <|
    perform_walk _ paySent hruns [], ?_⟩
  show requests ([] ++ evs) ++ [] = [payRequest]
  rw [List.append_nil, List.nil_append, hsent]

end Reference

open Reference in
/-- The wallet has submitted the transfer when the connection goes. -/
theorem task_spending_bounded_reference : ∃ past s,
    Transitions.Walk (DemoAgent.JointStep payServing) (.initial strict "s") past s ∧
    Spends Wallet.Anvil.alloy "0x00" "s" s.requests [⟨"0x00", "0x01", 5000000000000000⟩] ∧
    5000000000000000 ≤ strict.maxRuns.toNat * 1 * (50 * Wallet.milliEthWei) := by
  obtain ⟨past, s, hwalk, hsent⟩ := pay_walk
  have hspends : Spends Wallet.Anvil.alloy "0x00" "s" s.requests
      [⟨"0x00", "0x01", 5000000000000000⟩] := by
    rw [hsent]
    exact pay_spends
  have hbound : payEngine.policy.bound ("s" ++ ".transfer") "amount" = some 50 := rfl
  obtain ⟨-, hlimit⟩ := DemoAgent.task_spending_bounded payDeployment (fun _ _ => "") "alice" hwalk
    hbound hspends
  exact ⟨past, s, hwalk, hspends, hlimit 1 fun _ => pay_atMost⟩

end ProvenoGateway
