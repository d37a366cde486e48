/-
ProvenoGateway/StopRules.lean

The agent's stop rules, on every run.

The counters of the guard are functions of what has happened (`Tallies`), the
caps are never passed (`Caps`), and `stop` is set as soon as there is a reason
to stop (`Flags`).  What follows the setting of `stop` is one lemma for all
rules: from then on nothing is sent and the model is not asked
(`Step.stopped`).
-/
import ProvenoGateway.AgentRun

namespace ProvenoGateway

namespace DemoAgent

open Transitions

/-! ### After the flag is set -/

/-- Neither an `execute` is sent nor is the model asked. -/
def Quiet (e : Event) : Prop := e.isSent = false ∧ e.isAsked = false

/-- The flag keeps its value, whatever happens. -/
theorem Step.stop {s s' : AgentState} {e : Event} (h : Step s e s') {why : Stop}
    (hstop : s.guard.report.stop = some why) : s'.guard.report.stop = some why := by
  cases h.moves with
  | asks calls _ hnone _ _ _ =>
    rw [hstop] at hnone
    cases hnone
  | sends task call _ _ _ _ _ hidle _ => exact hidle.stop why hstop
  | counts _ _ outcome flight _ _ _ _ hcounts _ => exact hcounts.stop why hstop
  | idles _ _ _ _ _ hidle _ => exact hidle.stop why hstop

theorem Step.stopped {s s' : AgentState} {e : Event} {why : Stop}
    (hstop : s.guard.report.stop = some why) (h : Step s e s') :
    Quiet e ∧ s'.guard.report.stop = some why := by
  refine ⟨?_, h.stop hstop⟩
  cases h.moves with
  | asks calls _ hnone _ _ _ =>
    rw [hstop] at hnone
    cases hnone
  | sends task call _ hnone _ _ _ _ _ =>
    rw [hstop] at hnone
    cases hnone
  | counts _ _ outcome flight _ hasked hsent _ _ _ => exact ⟨hsent, hasked⟩
  | idles _ _ _ hasked hsent _ _ => exact ⟨hsent, hasked⟩

theorem stopped_quiet {s s' : AgentState} {evs : List Event} (h : Walk Step s evs s')
    (hstop : s.guard.report.stop ≠ none) : ∀ e ∈ evs, Quiet e := by
  obtain ⟨why, hwhy⟩ := Option.ne_none_iff_exists'.mp hstop
  exact (h.stays (fun _ _ _ hs hstep => hstep.stopped hs) hwhy).1

/-! ### The counters -/

/-- The number of the attempt under way. -/
def AgentState.attempt (s : AgentState) : Option Nat := s.flight.map Flight.attempt

/-- The outcomes of the attempts so far. -/
def outcomes (evs : List Event) : List Outcome := evs.filterMap Event.outcome

theorem outcomes_concat_none {evs : List Event} {e : Event} (h : e.outcome = none) :
    outcomes (evs ++ [e]) = outcomes evs := by
  simp [outcomes, h]

theorem outcomes_concat_some {evs : List Event} {e : Event} {outcome : Outcome}
    (h : e.outcome = some outcome) : outcomes (evs ++ [e]) = outcomes evs ++ [outcome] := by
  simp [outcomes, h]

/-- The guard has counted what has happened. -/
structure Tallies (evs : List Event) (s : AgentState) : Prop where
  outcomes : s.guard.report.runs.map Run.outcome = outcomes evs
  attempts : s.guard.report.runs.map Run.attempt = List.range' 1 s.guard.report.runs.length
  attempt : ∀ n, s.attempt = some n → n = s.guard.report.runs.length + 1
  sent : evs.countP Event.isSent = s.guard.report.runs.length + s.attempt.toList.length
  successes : s.guard.successes = (DemoAgent.outcomes evs).count .ok
  modelCalls : s.guard.modelCalls = evs.countP Event.isAsked
  lintStreak : s.guard.lintStreak = (DemoAgent.outcomes evs).foldl nextStreak 0

theorem tallies_initial (settings : Settings) (session : String) :
    Tallies [] (.initial settings session) :=
  ⟨rfl, rfl, nofun, rfl, rfl, rfl, rfl⟩

theorem Tallies.step {evs : List Event} {s s' : AgentState} {e : Event} (hs : Tallies evs s)
    (h : Step s e s') : Tallies (evs ++ [e]) s' := by
  cases h.moves with
  | asks calls _ _ _ hguard hflight =>
    have hattempt : s'.attempt = s.attempt := congrArg (Option.map Flight.attempt) hflight
    have houtcomes : DemoAgent.outcomes (evs ++ [.asked calls]) = DemoAgent.outcomes evs :=
      outcomes_concat_none rfl
    constructor
    · rw [hguard, houtcomes]
      exact hs.outcomes
    · rw [hguard]
      exact hs.attempts
    · rw [hguard, hattempt]
      exact hs.attempt
    · rw [hguard, hattempt, List.countP_append]
      exact hs.sent
    · rw [hguard, houtcomes]
      exact hs.successes
    · rw [hguard, List.countP_append, ← hs.modelCalls]
      rfl
    · rw [hguard, houtcomes]
      exact hs.lintStreak
  | sends task call _ _ _ _ hnone hidle hflight =>
    have hattempt : s'.attempt = some (s.guard.report.runs.length + 1) :=
      congrArg (Option.map Flight.attempt) hflight
    have hbefore : s.attempt = none := congrArg (Option.map Flight.attempt) hnone
    have houtcomes : DemoAgent.outcomes (evs ++ [.sent task call]) = DemoAgent.outcomes evs :=
      outcomes_concat_none rfl
    have hsent : evs.countP Event.isSent = s.guard.report.runs.length := by
      rw [hs.sent, hbefore]
      rfl
    constructor
    · rw [hidle.runs, houtcomes]
      exact hs.outcomes
    · rw [hidle.runs]
      exact hs.attempts
    · rw [hidle.runs, hattempt]
      exact fun n hn => (Option.some.inj hn).symm
    · rw [hidle.runs, hattempt, List.countP_append, hsent]
      rfl
    · rw [hidle.successes, houtcomes]
      exact hs.successes
    · rw [hidle.modelCalls, List.countP_append]
      exact hs.modelCalls
    · rw [hidle.lintStreak, houtcomes]
      exact hs.lintStreak
  | counts _ _ outcome flight houtcome hasked hsent hflight hcounts hnone =>
    obtain ⟨run, hruns, hattempt, hrun⟩ := hcounts.runs
    have hbefore : s.attempt = some flight.attempt := congrArg (Option.map Flight.attempt) hflight
    have hafter : s'.attempt = none := congrArg (Option.map Flight.attempt) hnone
    have hnumber : flight.attempt = s.guard.report.runs.length + 1 := hs.attempt _ hbefore
    have houtcomes : DemoAgent.outcomes (evs ++ [e]) = DemoAgent.outcomes evs ++ [outcome] :=
      outcomes_concat_some houtcome
    constructor
    · rw [hruns, houtcomes, List.map_append, hs.outcomes, ← hrun]
      rfl
    · rw [hruns, List.map_append, hs.attempts, List.length_append, List.length_singleton,
        List.range'_concat, List.map_singleton, hattempt.trans hnumber, Nat.one_mul, Nat.add_comm]
    · rw [hafter]
      exact nofun
    · rw [hruns, hafter, List.countP_append, hs.sent, hbefore]
      simp [hsent]
    · rw [hcounts.successes, houtcomes, hs.successes, List.count_append, List.count_singleton]
      simp
    · rw [hcounts.modelCalls, List.countP_append, hs.modelCalls]
      simp [hasked]
    · rw [hcounts.lintStreak, houtcomes, List.foldl_append, ← hs.lintStreak]
      rfl
  | idles _ _ houtcome hasked hsent hidle hflight =>
    have hattempt : s'.attempt = s.attempt := hflight
    have houtcomes : DemoAgent.outcomes (evs ++ [e]) = DemoAgent.outcomes evs :=
      outcomes_concat_none houtcome
    constructor
    · rw [hidle.runs, houtcomes]
      exact hs.outcomes
    · rw [hidle.runs]
      exact hs.attempts
    · rw [hidle.runs, hattempt]
      exact hs.attempt
    · rw [hidle.runs, hattempt, List.countP_append, hs.sent]
      simp [hsent]
    · rw [hidle.successes, houtcomes]
      exact hs.successes
    · rw [hidle.modelCalls, List.countP_append, hs.modelCalls]
      simp [hasked]
    · rw [hidle.lintStreak, houtcomes]
      exact hs.lintStreak

/-! ### The caps -/

variable {settings : Settings} {session : String}

/-- No cap is passed, and what is sent is signed. -/
structure Caps (settings : Settings) (session : String) (evs : List Event) (s : AgentState) :
    Prop where
  made : s.guard.settings = settings
  named : s.guard.report.session = session
  successes : (s.guard.successes : Int) ≤ max settings.maxRuns 0
  under : s.attempt ≠ none → (s.guard.successes : Int) < settings.maxRuns
  modelCalls : (s.guard.modelCalls : Int) ≤ max settings.maxModelCalls 0
  signed : ∀ task call, .sent task call ∈ evs → ExecuteGuard.Signed settings session call

theorem caps_initial (settings : Settings) (session : String) :
    Caps settings session [] (.initial settings session) := by
  refine ⟨rfl, rfl, ?_, ?_, ?_, ?_⟩
  · exact le_max_right _ _
  · exact fun h => absurd rfl h
  · exact le_max_right _ _
  · exact nofun

theorem mem_concat_sent {evs : List Event} {e : Event} (he : e.isSent = false) {task : Task}
    {call : ToolCall} (h : .sent task call ∈ evs ++ [e]) : .sent task call ∈ evs := by
  rcases List.mem_append.mp h with h | h
  · exact h
  · rw [List.mem_singleton] at h
    rw [← h] at he
    cases he

theorem Caps.step {evs : List Event} {s s' : AgentState} {e : Event}
    (hs : Caps settings session evs s) (h : Step s e s') :
    Caps settings session (evs ++ [e]) s' := by
  cases h.moves with
  | asks calls _ _ hcalls hguard hflight =>
    have hattempt : s'.attempt = s.attempt := congrArg (Option.map Flight.attempt) hflight
    rw [hs.made] at hcalls
    constructor
    · rw [hguard]
      exact hs.made
    · rw [hguard]
      exact hs.named
    · rw [hguard]
      exact hs.successes
    · rw [hguard, hattempt]
      exact hs.under
    · rw [hguard]
      show ((s.guard.modelCalls + 1 : Nat) : Int) ≤ _
      omega
    · exact fun task call hmem => hs.signed task call (mem_concat_sent rfl hmem)
  | sends task call _ _ hruns hsigned _ hidle _ =>
    rw [hs.made] at hruns hsigned
    rw [hs.named] at hsigned
    constructor
    · exact hidle.settings.trans hs.made
    · exact hidle.session.trans hs.named
    · rw [hidle.successes]
      exact hs.successes
    · rw [hidle.successes]
      exact fun _ => hruns
    · rw [hidle.modelCalls]
      exact hs.modelCalls
    · intro task' call' hmem
      rcases List.mem_append.mp hmem with hmem | hmem
      · exact hs.signed task' call' hmem
      · rw [List.mem_singleton] at hmem
        cases hmem
        exact hsigned
  | counts _ _ outcome flight _ _ hsent hflight hcounts hnone =>
    have hbefore : s.attempt = some flight.attempt := congrArg (Option.map Flight.attempt) hflight
    have hafter : s'.attempt = none := congrArg (Option.map Flight.attempt) hnone
    have hunder := hs.under (by rw [hbefore]; exact nofun)
    constructor
    · exact hcounts.settings.trans hs.made
    · exact hcounts.session.trans hs.named
    · rw [hcounts.successes]
      split
      · push_cast
        omega
      · push_cast
        omega
    · exact fun hne => absurd hafter hne
    · rw [hcounts.modelCalls]
      exact hs.modelCalls
    · exact fun task call hmem => hs.signed task call (mem_concat_sent hsent hmem)
  | idles _ _ _ _ hsent hidle hflight =>
    have hattempt : s'.attempt = s.attempt := hflight
    constructor
    · exact hidle.settings.trans hs.made
    · exact hidle.session.trans hs.named
    · rw [hidle.successes]
      exact hs.successes
    · rw [hidle.successes, hattempt]
      exact hs.under
    · rw [hidle.modelCalls]
      exact hs.modelCalls
    · exact fun task call hmem => hs.signed task call (mem_concat_sent hsent hmem)

/-! ### The flag -/

/-- `stop` is set if there is a reason to. -/
structure Flags (settings : Settings) (evs : List Event) (s : AgentState) : Prop where
  made : s.guard.settings = settings
  tooMany : settings.maxLintStreak ≤ s.guard.lintStreak → s.guard.report.stop ≠ none
  failed : ∀ outcome ∈ outcomes evs, outcome.isFailure = true → s.guard.report.stop ≠ none

theorem flags_initial (settings : Settings) (session : String) (h : 1 ≤ settings.maxLintStreak) :
    Flags settings [] (.initial settings session) := by
  refine ⟨rfl, ?_, nofun⟩
  intro hle
  have hzero : settings.maxLintStreak ≤ 0 := hle
  omega

theorem Step.stop_ne_none {s s' : AgentState} {e : Event} (h : Step s e s')
    (hstop : s.guard.report.stop ≠ none) : s'.guard.report.stop ≠ none := by
  obtain ⟨why, hwhy⟩ := Option.ne_none_iff_exists'.mp hstop
  rw [h.stop hwhy]
  exact nofun

theorem Flags.step (hstreak : 1 ≤ settings.maxLintStreak) {evs : List Event} {s s' : AgentState}
    {e : Event} (hs : Flags settings evs s) (h : Step s e s') :
    Flags settings (evs ++ [e]) s' := by
  cases h.moves with
  | asks calls _ hnone _ hguard _ =>
    constructor
    · rw [hguard]
      exact hs.made
    · rw [hguard]
      exact hs.tooMany
    · rw [outcomes_concat_none rfl, hguard]
      exact hs.failed
  | sends task call _ _ _ _ _ hidle _ =>
    constructor
    · exact hidle.settings.trans hs.made
    · rw [hidle.lintStreak]
      exact fun hle => h.stop_ne_none (hs.tooMany hle)
    · rw [outcomes_concat_none rfl]
      exact fun outcome hmem hfailure => h.stop_ne_none (hs.failed outcome hmem hfailure)
  | counts _ _ outcome flight houtcome _ _ _ hcounts _ =>
    have hsettings := hcounts.settings.trans hs.made
    constructor
    · exact hsettings
    · intro hle
      have hnext := hcounts.lintStreak
      cases outcome with
      | ok =>
        rw [hnext] at hle
        have hzero : settings.maxLintStreak ≤ 0 := hle
        omega
      | lintError => exact hcounts.tooMany rfl (by rw [hsettings]; exact hle)
      | runFailed => exact hcounts.failed rfl
      | unexpected => exact hcounts.failed rfl
    · rw [outcomes_concat_some houtcome]
      intro outcome' hmem hfailure
      rcases List.mem_append.mp hmem with hmem | hmem
      · exact h.stop_ne_none (hs.failed outcome' hmem hfailure)
      · rw [List.mem_singleton] at hmem
        rw [hmem] at hfailure
        exact hcounts.failed hfailure
  | idles _ _ houtcome _ _ hidle _ =>
    constructor
    · exact hidle.settings.trans hs.made
    · rw [hidle.lintStreak]
      exact fun hle => h.stop_ne_none (hs.tooMany hle)
    · rw [outcomes_concat_none houtcome]
      exact fun outcome hmem hfailure => h.stop_ne_none (hs.failed outcome hmem hfailure)

/-! ### Every run -/

/-- Without a success, each lint error counts. -/
theorem count_lintError {l : List Outcome} (h : .ok ∉ l) (streak : Nat) :
    l.foldl nextStreak streak = streak + l.count .lintError := by
  induction l generalizing streak with
  | nil => rfl
  | cons outcome l ih =>
    rw [List.mem_cons, not_or] at h
    rw [List.foldl_cons, ih h.2]
    cases outcome with
    | ok => exact absurd rfl h.1
    | lintError =>
      rw [List.count_cons_self]
      show streak + 1 + l.count .lintError = streak + (l.count .lintError + 1)
      omega
    | runFailed => rfl
    | unexpected => rfl

/-- What holds of a run so far. -/
structure Obeys (settings : Settings) (session : String) (evs : List Event) (s : AgentState) :
    Prop where
  /-- After a failed run, an unexpected answer or a protocol error, nothing is
  sent and the model is not asked. -/
  failed : ∀ before e after outcome, evs = before ++ e :: after → e.outcome = some outcome →
    outcome.isFailure = true → ∀ e' ∈ after, Quiet e'
  /-- So too after too many lint errors with no success between them. -/
  tooMany : ∀ before between after, evs = before ++ (between ++ after) →
    .ok ∉ outcomes between → settings.maxLintStreak ≤ (outcomes between).count .lintError →
    ∀ e' ∈ after, Quiet e'
  /-- A cap below zero admits as much as zero. -/
  successes : ((outcomes evs).count .ok : Int) ≤ max settings.maxRuns 0
  modelCalls : (evs.countP Event.isAsked : Int) ≤ max settings.maxModelCalls 0
  signed : ∀ task call, .sent task call ∈ evs → ExecuteGuard.Signed settings session call
  /-- One run for each attempt, numbered from 1, with the outcome of its
  answer; the last attempt may still be under way. -/
  attempts : s.guard.report.runs.map Run.attempt = List.range' 1 s.guard.report.runs.length
  runs : s.guard.report.runs.map Run.outcome = outcomes evs
  sent : evs.countP Event.isSent = s.guard.report.runs.length + s.attempt.toList.length
  /-- An answer is classified by the raw result of its own call. -/
  raw : ∀ before result after, evs = before ++ .returned result :: after →
    lastKept before = some result
  stop : ∀ before after s', evs = before ++ after →
    Walk Step (.initial settings session) before s' → Walk Step s' after s →
    ∀ why, s'.guard.report.stop = some why → s.guard.report.stop = some why

section Walks

variable {evs : List Event} {s : AgentState}

theorem walk_tallies (h : Walk Step (.initial settings session) evs s) : Tallies evs s :=
  h.keeps (fun _ _ _ _ hs hstep => hs.step hstep) (tallies_initial settings session)

theorem walk_caps (h : Walk Step (.initial settings session) evs s) :
    Caps settings session evs s :=
  h.keeps (fun _ _ _ _ hs hstep => hs.step hstep) (caps_initial settings session)

theorem walk_flags (hstreak : 1 ≤ settings.maxLintStreak)
    (h : Walk Step (.initial settings session) evs s) : Flags settings evs s :=
  h.keeps (fun _ _ _ _ hs hstep => hs.step hstreak hstep) (flags_initial settings session hstreak)

theorem walk_kept (h : Walk Step (.initial settings session) evs s) : Kept evs s := by
  have hstart : Kept [] (.initial settings session) := ⟨nofun, nofun⟩
  exact h.keeps (fun _ _ _ _ hs hstep => hs.step hstep) hstart

end Walks

/-- The stop rules hold on every run of the agent. -/
theorem stop_rules {settings : Settings} {session : String}
    (hstreak : 1 ≤ settings.maxLintStreak) {evs : List Event} {s : AgentState}
    (h : Walk Step (.initial settings session) evs s) : Obeys settings session evs s := by
  have htallies := walk_tallies h
  have hcaps := walk_caps h
  constructor
  · rintro before e after outcome rfl houtcome hfailure
    obtain ⟨s₁, hbefore, hrest⟩ := h.split
    cases hrest with
    | cons _ hstep hafter =>
      have hflags := (walk_flags hstreak hbefore).step hstreak hstep
      refine stopped_quiet hafter (hflags.failed outcome ?_ hfailure)
      rw [outcomes_concat_some houtcome]
      exact List.mem_append_right _ List.mem_cons_self
  · rintro before between after rfl hok hcount
    rw [← List.append_assoc] at h
    obtain ⟨s₁, hbefore, hafter⟩ := h.split
    have hlint := (walk_tallies hbefore).lintStreak
    refine stopped_quiet hafter ((walk_flags hstreak hbefore).tooMany ?_)
    rw [hlint, outcomes, List.filterMap_append, List.foldl_append]
    show settings.maxLintStreak ≤ ((outcomes between).foldl nextStreak _ : Nat)
    rw [count_lintError hok]
    push_cast
    omega
  · rw [← htallies.successes]
    exact hcaps.successes
  · rw [← htallies.modelCalls]
    exact hcaps.modelCalls
  · exact hcaps.signed
  · exact htallies.attempts
  · exact htallies.outcomes
  · exact htallies.sent
  · rintro before result after rfl
    obtain ⟨s₁, hbefore, hrest⟩ := h.split
    cases hrest with
    | cons _ hstep _ => exact (walk_kept hbefore).returned hstep
  · rintro before after s' rfl _ hafter why hwhy
    have hstays := hafter.stays (Q := fun s => s.guard.report.stop = some why)
      (fun _ _ _ hs hstep => hstep.stopped hs) hwhy
    exact hstays.2

end DemoAgent

/-! ### At a run -/

namespace Reference

open DemoAgent Transitions

/-- One lint error is too many. -/
def strict : Settings := ⟨"task", 1, 5, 12⟩

def oopsCall : ToolCall := ⟨"execute", [("program", .str "oops")], some "call_1"⟩

def oopsTask : Task := ⟨0, 0, oopsCall, [[oopsCall]]⟩

/-- The call as it is sent. -/
def oopsSent : ToolCall where
  name := "execute"
  args := [("program", .str "oops"), ("request", .str "task"), ("session", .str "s")]
  id := some "call_1"

def oopsResult : CallToolResult := .error [.text "line 1: unknown program"]

def oopsEvents : List Event :=
  [.asked [oopsCall], .sent oopsTask oopsSent, .kept oopsResult, .returned oopsResult, .jumped]

theorem oops_walk : ∃ s, Walk Step (.initial strict "s") oopsEvents s :=
  ⟨_, .cons _ (.ask _ [oopsCall] _ rfl rfl) <|
    .cons _ (.send _ [] [] oopsTask _ oopsSent rfl rfl rfl rfl) <|
    .cons _ (.keep _ _ oopsResult rfl) <|
    .cons _ (.return_ _ _ oopsResult rfl rfl rfl) <|
    .cons _ (.jump _ _ rfl rfl) <| .nil _⟩

end Reference

open Reference in
theorem stop_rules_oops : ∃ s, DemoAgent.Obeys strict "s" oopsEvents s := by
  obtain ⟨s, hwalk⟩ := oops_walk
  exact ⟨s, DemoAgent.stop_rules (by decide) hwalk⟩

end ProvenoGateway
