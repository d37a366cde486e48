/-
ProvenoGateway/Mediation.lean

What a tool call goes through before anything leaves the gateway.

A call either meets its `FirstRefusal`, the first of the four stages that
fails, or `Passes` all four with one tool and one JSON value.  `callTool_runs`
says what the host does in either case, and everything after it is read off
that lemma: which client is asked for what, how the log grows, what the
program sees.  `Calls` is any sequence of calls on one host, with the
attestation taken or not in between.

That the tool that was checked is the tool that is asked rests on two other
modules: an accepted configuration has distinct, undotted downstream names,
so cutting a qualified name at its first dot gives the server back, and the
client under that name is the one that listed the tool.
-/
import ProvenoGateway.Host
import ProvenoGateway.Reference

namespace ProvenoGateway

open Program

/-! ### The discovered tools -/

/-- The client lists this tool under its server's name. -/
def Client.Lists (net : Network) (client : Client) (tool : ToolSchema) : Prop :=
  ∃ listed t, net.listAllTools client = .ok listed ∧ t ∈ listed ∧
    toolSchema client.server t = .ok tool

/-- No server name has a dot, and each tool's server has the client that
listed it. -/
structure Downstreams.WellFormed (net : Network) (ds : Downstreams) : Prop where
  undotted : ∀ t ∈ ds.tools, Text.contains '.' t.server = false
  served : ∀ t ∈ ds.tools, ∃ client, ds.clients.get t.server = some client ∧
    client.server = t.server ∧ client.Lists net t

theorem toolSchema_ok {server : String} {tool : Tool} {schema : ToolSchema}
    (h : toolSchema server tool = .ok schema) :
    schema.server = server ∧ schema.name = tool.name ∧ Text.contains '.' tool.name = false := by
  unfold toolSchema at h
  split at h
  case isTrue => cases h
  case isFalse hdot =>
    cases h
    exact ⟨rfl, rfl, by simpa using hdot⟩

theorem mapM_toolSchema {server : String} {listed : List Tool} {tools : List ToolSchema}
    (h : listed.mapM (toolSchema server) = .ok tools) :
    ∀ schema ∈ tools, ∃ t ∈ listed, toolSchema server t = .ok schema :=
  fun _ hschema => exists_left (mapM_eq_ok.mp h) hschema

/-- One round of the loop over the downstreams. -/
theorem connectAll_cons_iff {env : String → Option String} {net : Network}
    {config : DownstreamConfig} {rest : List DownstreamConfig} {ds ds' : Downstreams} :
    connectAll env net (config :: rest) ds = .ok ds' ↔
      ∃ spec, launch env config = .ok spec ∧ net.start ⟨config.name, spec⟩ = .ok () ∧
        ∃ listed, net.listAllTools ⟨config.name, spec⟩ = .ok listed ∧
        ∃ tools, listed.mapM (toolSchema config.name) = .ok tools ∧
          connectAll env net rest
            ⟨ds.clients.insert config.name ⟨config.name, spec⟩, ds.tools ++ tools⟩ = .ok ds' := by
  rw [connectAll, bind_eq_ok]
  refine exists_congr fun spec => and_congr_right fun _ => ?_
  rw [bind_eq_ok]
  constructor
  · rintro ⟨⟨⟩, hstart, h⟩
    obtain ⟨listed, hlisted, h⟩ := bind_eq_ok.mp h
    obtain ⟨tools, htools, h⟩ := bind_eq_ok.mp h
    exact ⟨mapError_eq_ok.mp hstart, listed, mapError_eq_ok.mp hlisted, tools, htools, h⟩
  · rintro ⟨hstart, listed, hlisted, tools, htools, h⟩
    refine ⟨(), mapError_eq_ok.mpr hstart, ?_⟩
    exact bind_eq_ok.mpr ⟨listed, mapError_eq_ok.mpr hlisted,
      bind_eq_ok.mpr ⟨tools, htools, h⟩⟩

theorem connectAll_cons {env : String → Option String} {net : Network} {config : DownstreamConfig}
    {rest : List DownstreamConfig} {ds ds' : Downstreams}
    (h : connectAll env net (config :: rest) ds = .ok ds') :
    ∃ client listed tools, client.server = config.name ∧ net.listAllTools client = .ok listed ∧
      listed.mapM (toolSchema config.name) = .ok tools ∧
      connectAll env net rest ⟨ds.clients.insert config.name client, ds.tools ++ tools⟩ =
        .ok ds' := by
  obtain ⟨spec, -, -, listed, hlisted, tools, htools, h⟩ := connectAll_cons_iff.mp h
  exact ⟨⟨config.name, spec⟩, listed, tools, rfl, hlisted, htools, h⟩

theorem connectAll_wellFormed {env : String → Option String} {net : Network}
    {configs : List DownstreamConfig} {ds ds' : Downstreams} (hc : DownstreamConfigs configs)
    (hds : ds.WellFormed net) (hnew : ∀ t ∈ ds.tools, t.server ∉ configs.map DownstreamConfig.name)
    (h : connectAll env net configs ds = .ok ds') : ds'.WellFormed net := by
  induction configs generalizing ds with
  | nil =>
    cases h
    exact hds
  | cons config rest ih =>
    obtain ⟨client, listed, tools, hname, hl, hm, h⟩ := connectAll_cons h
    have hnodup := List.nodup_cons.mp hc.nodup
    have htools := mapM_toolSchema hm
    refine ih ⟨fun d hd => hc.undotted d (List.mem_cons_of_mem _ hd), hnodup.2⟩ ⟨?_, ?_⟩ ?_ h
    · intro t ht
      rcases List.mem_append.mp ht with ht | ht
      · exact hds.undotted t ht
      · obtain ⟨u, -, hu⟩ := htools t ht
        rw [(toolSchema_ok hu).1]
        exact hc.undotted config List.mem_cons_self
    · intro t ht
      rcases List.mem_append.mp ht with ht | ht
      · -- an earlier tool: its server is not the new name
        have hne : t.server ≠ config.name := fun he => hnew t ht (by simp [he])
        rw [OrdMap.get_insert_ne _ hne]
        exact hds.served t ht
      · obtain ⟨u, hul, hu⟩ := htools t ht
        have hs := (toolSchema_ok hu).1
        refine ⟨client, ?_, by rw [hs, hname], listed, u, hl, hul, by rw [hname]; exact hu⟩
        rw [hs]
        exact OrdMap.get_insert_self _ _ _
    · intro t ht
      rcases List.mem_append.mp ht with ht | ht
      · exact fun hm' => hnew t ht (List.mem_cons_of_mem _ hm')
      · obtain ⟨u, -, hu⟩ := htools t ht
        rw [(toolSchema_ok hu).1]
        exact hnodup.1

/-- The discovered tools of an accepted configuration. -/
theorem connect_wellFormed {env : String → Option String} {net : Network}
    {configs : List DownstreamConfig} {ds : Downstreams} (hc : DownstreamConfigs configs)
    (h : Downstreams.connect env net configs = .ok ds) : ds.WellFormed net := by
  unfold Downstreams.connect at h
  cases ha : connectAll env net configs ⟨OrdMap.empty, []⟩ with
  | error e => simp [ha, bind, Except.bind] at h
  | ok all =>
    simp only [ha, bind, Except.bind, Except.ok.injEq] at h
    subst h
    have hall : all.WellFormed net :=
      connectAll_wellFormed hc ⟨by simp, by simp⟩ (by simp) ha
    have hmem : ∀ t, t ∈ sortTools all.tools ↔ t ∈ all.tools := fun t =>
      (List.perm_insertionSort _ _).mem_iff
    exact ⟨fun t ht => hall.undotted t ((hmem t).mp ht),
      fun t ht => hall.served t ((hmem t).mp ht)⟩

/-! ### The four stages -/

section Stages

variable (deps : Deps) (host : GatewayHost) (name : String) (args : deps.Table)

/-- The decision of the first stage that fails. -/
inductive FirstRefusal : CallDecision → Prop
  | serialise (e : String) :
      tableToJson deps args = .error e → FirstRefusal (.rejectedBySchema s!"{name}: {e}")
  | allowList (v : Json) :
      tableToJson deps args = .ok v → (∀ t ∈ host.allowed, t.qualifiedName ≠ name) →
      FirstRefusal (.deniedByPolicy s!"tool {name} is not allowed for {host.principal}")
  | schema (v : Json) (tool : ToolSchema) (reason : String) :
      tableToJson deps args = .ok v →
      host.allowed.find? (fun t => t.qualifiedName = name) = some tool →
      checkArgs deps tool v = .error reason → FirstRefusal (.rejectedBySchema reason)
  | policy (v : Json) (tool : ToolSchema) (reason : String) :
      tableToJson deps args = .ok v →
      host.allowed.find? (fun t => t.qualifiedName = name) = some tool →
      checkArgs deps tool v = .ok () →
      host.policy.check host.principal name v = .deny reason →
      FirstRefusal (.deniedByPolicy reason)

/-- All four stages pass, with this tool and this JSON value. -/
structure Passes (tool : ToolSchema) (v : Json) : Prop where
  serialises : tableToJson deps args = .ok v
  found : host.allowed.find? (fun t => t.qualifiedName = name) = some tool
  valid : checkArgs deps tool v = .ok ()
  allowed : host.policy.check host.principal name v = .allow

/-- The error the program catches for a refusal. -/
def refusalText : CallDecision → String
  | .allowed => ""
  | .rejectedBySchema reason => s!"schema: {reason}"
  | .deniedByPolicy reason => s!"policy: {reason}"

variable {deps host name args}

theorem Passes.mem {tool : ToolSchema} {v : Json} (h : Passes deps host name args tool v) :
    tool ∈ host.allowed ∧ tool.qualifiedName = name :=
  ⟨List.mem_of_find?_eq_some h.found, by simpa using List.find?_some h.found⟩

theorem FirstRefusal.not_allowed (h : FirstRefusal deps host name args .allowed) : False := by
  cases h

/-- No call meets both. -/
theorem FirstRefusal.not_passes {d : CallDecision} {tool : ToolSchema} {v : Json}
    (h : FirstRefusal deps host name args d) (hp : Passes deps host name args tool v) : False := by
  have hs := hp.serialises
  have hf := hp.found
  cases h with
  | serialise e he => rw [he] at hs; cases hs
  | allowList w _ hnone => exact hnone tool hp.mem.1 hp.mem.2
  | schema w t reason hw ht he =>
    rw [hw] at hs; cases hs
    rw [ht] at hf; cases hf
    rw [hp.valid] at he; cases he
  | policy w t reason hw ht _ he =>
    rw [hw] at hs; cases hs
    rw [hp.allowed] at he; cases he

/-- A call fails at one stage only. -/
theorem FirstRefusal.unique {d d' : CallDecision} (h : FirstRefusal deps host name args d)
    (h' : FirstRefusal deps host name args d') : d = d' := by
  cases h <;> cases h' <;> grind

/-- **What one call does**: it is refused by the first failing stage, or it
passes and is dispatched. -/
theorem callTool_runs {evs : List (Event Op Res)} {answer : Except String deps.Table}
    {next : GatewayHost} (h : Runs (host.callTool deps name args) evs (answer, next)) :
    (∃ d, FirstRefusal deps host name args d ∧ evs = [] ∧ answer = .error (refusalText d) ∧
      next = { host with attestation := none }.push d .unsigned) ∨
    (∃ tool v response, Passes deps host name args tool v ∧
      Runs (host.downstreams.call deps name v) evs response ∧
      (answer, next) = { host with attestation := none }.conclude deps name response) := by
  unfold GatewayHost.callTool at h
  dsimp only at h
  split at h
  case h_1 e he =>
    simp only [pure_eq, runs_ret_iff, GatewayHost.refuse, Prod.mk.injEq] at h
    exact Or.inl ⟨_, .serialise e he, h.1, h.2.1, h.2.2⟩
  case h_2 v hv =>
    split at h
    case h_1 hnone =>
      simp only [pure_eq, runs_ret_iff, GatewayHost.refuse, Prod.mk.injEq] at h
      refine Or.inl ⟨_, .allowList v hv ?_, h.1, h.2.1, h.2.2⟩
      simpa using List.find?_eq_none.mp hnone
    case h_2 tool htool =>
      split at h
      case h_1 reason hreason =>
        simp only [pure_eq, runs_ret_iff, GatewayHost.refuse, Prod.mk.injEq] at h
        exact Or.inl ⟨_, .schema v tool reason hv htool hreason, h.1, h.2.1, h.2.2⟩
      case h_2 hcheck =>
        split at h
        case h_1 reason hreason =>
          simp only [pure_eq, runs_ret_iff, GatewayHost.refuse, Prod.mk.injEq] at h
          exact Or.inl ⟨_, .policy v tool reason hv htool hcheck hreason, h.1, h.2.1, h.2.2⟩
        case h_2 hallow =>
          obtain ⟨response, evs₁, evs₂, rfl, h₁, h₂⟩ := runs_bind_iff.mp h
          obtain ⟨rfl, hconclude⟩ := runs_ret_iff.mp h₂
          rw [List.append_nil]
          exact Or.inr ⟨tool, v, response, ⟨hv, htool, hcheck, hallow⟩, h₁, hconclude⟩

end Stages

/-! ### Dispatch -/

/-- The names the gateway looks up are cut where they were put together. -/
theorem splitOnce_qualifiedName {tool : ToolSchema} (h : Text.contains '.' tool.server = false) :
    Text.splitOnce '.' tool.qualifiedName = some (tool.server, tool.name) :=
  Text.splitOnce_append h tool.name

/-- What a dispatched call does: one request to the client of the tool's
server, or none if the arguments are not an object. -/
theorem call_runs {deps : Deps} {net : Network} {ds : Downstreams} (hds : ds.WellFormed net)
    {tool : ToolSchema} (ht : tool ∈ ds.tools) {v : Json} {evs : List (Event Op Res)}
    {response : Except String ToolResponse}
    (h : Runs (ds.call deps tool.qualifiedName v) evs response) :
    (∃ client arguments answer, ds.clients.get tool.server = some client ∧
      client.server = tool.server ∧ client.Lists net tool ∧
      requestArguments v = some arguments ∧
      evs = [⟨.toolsCall client ⟨tool.name, arguments⟩, answer⟩] ∧
      response = readResult deps tool.qualifiedName tool.server answer) ∨
    (requestArguments v = none ∧ evs = [] ∧
      response = .error s!"{tool.qualifiedName}: arguments must be a JSON object") := by
  obtain ⟨client, hclient, hserver, hlists⟩ := hds.served tool ht
  have hknown : (ds.tools.any fun t => t.server = tool.server && t.name = tool.name) = true :=
    List.any_eq_true.mpr ⟨tool, ht, by simp⟩
  unfold Downstreams.call at h
  simp only [splitOnce_qualifiedName (hds.undotted tool ht), hclient, hknown,
    Option.filter_some, if_true] at h
  cases hv : requestArguments v with
  | none =>
    simp only [hv, pure_eq, runs_ret_iff] at h
    exact Or.inr ⟨rfl, h.1, h.2⟩
  | some arguments =>
    simp only [hv, op_bind, pure_eq, runs_call_iff, runs_ret_iff] at h
    obtain ⟨answer, evs', rfl, rfl, rfl⟩ := h
    exact Or.inl ⟨client, arguments, answer, hclient, hserver, hlists, rfl, rfl, rfl⟩

/-! ### Sequences of calls -/

/-- One call on a host: what it was asked, what it did, what came of it. -/
structure CallStep (deps : Deps) where
  host : GatewayHost
  name : String
  args : deps.Table
  events : List (Event Op Res)
  answer : Except String deps.Table
  next : GatewayHost

/-- The call is one the code can make. -/
def CallStep.Ok {deps : Deps} (c : CallStep deps) : Prop :=
  Runs (c.host.callTool deps c.name c.args) c.events (c.answer, c.next)

/-- Any calls, one after the other, on one host. -/
inductive Calls (deps : Deps) : GatewayHost → List (CallStep deps) → GatewayHost → Prop
  | nil (host : GatewayHost) : Calls deps host [] host
  | call (c : CallStep deps) {rest : List (CallStep deps)} {last : GatewayHost} :
      c.Ok → Calls deps c.next rest last → Calls deps c.host (c :: rest) last
  | take {host : GatewayHost} {steps : List (CallStep deps)} {last : GatewayHost} :
      Calls deps host.takeAttestation.2 steps last → Calls deps host steps last

/-- What a host is configured with does not change. -/
structure SameRules (host host' : GatewayHost) : Prop where
  principal : host'.principal = host.principal
  downstreams : host'.downstreams = host.downstreams
  allowed : host'.allowed = host.allowed
  policy : host'.policy = host.policy

theorem SameRules.refl (host : GatewayHost) : SameRules host host := ⟨rfl, rfl, rfl, rfl⟩

theorem SameRules.trans {a b c : GatewayHost} (h : SameRules a b) (h' : SameRules b c) :
    SameRules a c :=
  ⟨h'.principal.trans h.principal, h'.downstreams.trans h.downstreams,
    h'.allowed.trans h.allowed, h'.policy.trans h.policy⟩

/-- Emptying the attestation slot. -/
theorem SameRules.cleared (host : GatewayHost) :
    SameRules host { host with attestation := none } := ⟨rfl, rfl, rfl, rfl⟩

section Same

variable {deps : Deps} {host host' : GatewayHost} {name : String} {args : deps.Table}

theorem FirstRefusal.same (h : SameRules host host') {d : CallDecision} :
    FirstRefusal deps host' name args d ↔ FirstRefusal deps host name args d := by
  obtain ⟨p, ds, a, pol, log, att⟩ := host
  obtain ⟨p', ds', a', pol', log', att'⟩ := host'
  obtain ⟨hp, hd, ha, hpol⟩ := h
  dsimp only at hp hd ha hpol
  subst hp hd ha hpol
  constructor <;> rintro (⟨e, he⟩ | ⟨v, hv, hn⟩ | ⟨v, t, r, hv, ht, hr⟩ | ⟨v, t, r, hv, ht, hc, hr⟩)
  · exact .serialise e he
  · exact .allowList v hv hn
  · exact .schema v t r hv ht hr
  · exact .policy v t r hv ht hc hr
  · exact .serialise e he
  · exact .allowList v hv hn
  · exact .schema v t r hv ht hr
  · exact .policy v t r hv ht hc hr

theorem Passes.same (h : SameRules host host') {tool : ToolSchema} {v : Json} :
    Passes deps host' name args tool v ↔ Passes deps host name args tool v := by
  constructor
  · rintro ⟨h₁, h₂, h₃, h₄⟩
    exact ⟨h₁, by rw [← h.allowed]; exact h₂, h₃, by rw [← h.policy, ← h.principal]; exact h₄⟩
  · rintro ⟨h₁, h₂, h₃, h₄⟩
    exact ⟨h₁, by rw [h.allowed]; exact h₂, h₃, by rw [h.policy, h.principal]; exact h₄⟩

end Same

/-- The entry a call adds to the log. -/
theorem conclude_push {deps : Deps} {host next : GatewayHost} {name : String}
    {response : Except String ToolResponse} {answer : Except String deps.Table}
    (h : (answer, next) = host.conclude deps name response) :
    SameRules host next ∧ ∃ provenance, next.log = host.log ++ [(.allowed, provenance)] := by
  unfold GatewayHost.conclude at h
  split at h
  · cases h
    exact ⟨⟨rfl, rfl, rfl, rfl⟩, _, rfl⟩
  · cases h
    exact ⟨⟨rfl, rfl, rfl, rfl⟩, _, rfl⟩

theorem CallStep.Ok.sameRules {deps : Deps} {c : CallStep deps} (h : c.Ok) :
    SameRules c.host c.next := by
  rcases callTool_runs h with ⟨d, -, -, -, hnext⟩ | ⟨tool, v, response, -, -, hc⟩
  · rw [hnext]
    exact ⟨rfl, rfl, rfl, rfl⟩
  · exact (SameRules.cleared c.host).trans (conclude_push hc).1

/-- What is true of one call and the entry it left, under the rules of
`host`. -/
structure Mediated (deps : Deps) (net : Network) (host : GatewayHost) (c : CallStep deps)
    (entry : CallDecision × Provenance) : Prop where
  /-- Whatever is sent goes to the client that listed the checked tool, under
  that tool's name, with the value that was checked. -/
  sent : ∀ e ∈ c.events, ∃ tool v client arguments answer,
    Passes deps host c.name c.args tool v ∧
    tool ∈ host.allowed ∧ tool.qualifiedName = c.name ∧
    host.downstreams.clients.get tool.server = some client ∧ client.server = tool.server ∧
    client.Lists net tool ∧ requestArguments v = some arguments ∧
    e = ⟨.toolsCall client ⟨tool.name, arguments⟩, answer⟩
  once : c.events.length ≤ 1
  /-- A call that fails a stage sends nothing, and leaves and raises the
  decision of that stage. -/
  refused : ∀ d, FirstRefusal deps host c.name c.args d →
    c.events = [] ∧ entry = (d, .unsigned) ∧ c.answer = .error (refusalText d)
  decided : (∃ d, FirstRefusal deps host c.name c.args d) ∨
    ∃ tool v, Passes deps host c.name c.args tool v

/-- One call under the rules of its host. -/
theorem CallStep.Ok.mediated {deps : Deps} {net : Network} {c : CallStep deps} (h : c.Ok)
    (hds : c.host.downstreams.WellFormed net)
    (hallowed : ∀ t ∈ c.host.allowed, t ∈ c.host.downstreams.tools) :
    ∃ entry, c.next.log = c.host.log ++ [entry] ∧ Mediated deps net c.host c entry := by
  rcases callTool_runs h with ⟨d, hd, hevs, hanswer, hnext⟩ | ⟨tool, v, response, hp, hcall, hc⟩
  · refine ⟨(d, .unsigned), by rw [hnext]; rfl, ⟨?_, ?_, ?_, Or.inl ⟨d, hd⟩⟩⟩
    · simp [hevs]
    · simp [hevs]
    · intro d' hd'
      obtain rfl := hd.unique hd'
      exact ⟨hevs, rfl, hanswer⟩
  · obtain ⟨hmem, hname⟩ := hp.mem
    obtain ⟨-, provenance, hlog⟩ := conclude_push hc
    rw [← hname] at hcall
    refine ⟨_, hlog, ⟨?_, ?_, ?_, Or.inr ⟨tool, v, hp⟩⟩⟩
    · rcases call_runs hds (hallowed tool hmem) hcall with
        ⟨client, arguments, answer, hget, hserver, hlists, hargs, hevs, -⟩ | ⟨-, hevs, -⟩
      · intro e he
        rw [hevs, List.mem_singleton] at he
        exact ⟨tool, v, client, arguments, answer, hp, hmem, hname, hget, hserver, hlists,
          hargs, he⟩
      · simp [hevs]
    · rcases call_runs hds (hallowed tool hmem) hcall with
        ⟨client, arguments, answer, -, -, -, -, hevs, -⟩ | ⟨-, hevs, -⟩
      · simp [hevs]
      · simp [hevs]
    · exact fun d hd => (hd.not_passes hp).elim

theorem Mediated.same {deps : Deps} {net : Network} {host host' : GatewayHost}
    (h : SameRules host host') {c : CallStep deps} {entry : CallDecision × Provenance}
    (hm : Mediated deps net host' c entry) : Mediated deps net host c entry where
  sent e he := by
    obtain ⟨tool, v, client, arguments, answer, hp, hmem, hrest⟩ := hm.sent e he
    rw [h.allowed] at hmem
    rw [h.downstreams] at hrest
    exact ⟨tool, v, client, arguments, answer, (Passes.same h).mp hp, hmem, hrest⟩
  once := hm.once
  refused d hd := hm.refused d ((FirstRefusal.same h).mpr hd)
  decided := by
    rcases hm.decided with ⟨d, hd⟩ | ⟨tool, v, hp⟩
    · exact Or.inl ⟨d, (FirstRefusal.same h).mp hd⟩
    · exact Or.inr ⟨tool, v, (Passes.same h).mp hp⟩

/-- **Every sequence of calls** adds one entry for each call, and what holds
of each single call under the rules of the first host holds along the whole
sequence. -/
theorem Calls.each {deps : Deps} {P : CallStep deps → CallDecision × Provenance → Prop}
    {host last : GatewayHost} {steps : List (CallStep deps)} (h : Calls deps host steps last)
    (hstep : ∀ c : CallStep deps, c.Ok → SameRules host c.host →
      ∃ entry, c.next.log = c.host.log ++ [entry] ∧ P c entry) :
    ∃ entries, last.log = host.log ++ entries ∧ List.Forall₂ P steps entries := by
  induction h with
  | nil host => exact ⟨[], by simp, .nil⟩
  | call c hok _ ih =>
    obtain ⟨entry, hlog, hp⟩ := hstep c hok (SameRules.refl _)
    obtain ⟨entries, hlast, hall⟩ := ih fun d hd hsame => hstep d hd (hok.sameRules.trans hsame)
    exact ⟨entry :: entries, by rw [hlast, hlog]; simp, .cons hp hall⟩
  | take _ ih =>
    exact ih fun d hd hsame => hstep d hd ((SameRules.cleared _).trans hsame)

/-! ### Complete mediation -/

/-- Every sequence of calls on a host for tools discovered from an accepted
configuration is mediated. -/
theorem complete_mediation {deps : Deps} {net : Network} {env : String → Option String}
    {toml : String → Except String GatewayConfig} {text base : String} {config : GatewayConfig}
    {ds : Downstreams} (hparse : parse toml text base = .ok config)
    (hconnect : Downstreams.connect env net config.downstream = .ok ds)
    (principal : String) (policy : Policy) {allowed : List ToolSchema}
    (hallowed : ∀ t ∈ allowed, t ∈ ds.tools) {steps : List (CallStep deps)} {last : GatewayHost}
    (h : Calls deps (GatewayHost.fresh principal ds allowed policy) steps last) :
    last.log.length = steps.length ∧
      List.Forall₂ (Mediated deps net (GatewayHost.fresh principal ds allowed policy)) steps
        last.log := by
  have hds : ds.WellFormed net := connect_wellFormed (parse_downstreams hparse) hconnect
  obtain ⟨entries, hlog, hall⟩ := h.each fun c hok hsame => by
    obtain ⟨entry, hentry, hm⟩ := hok.mediated
      (show c.host.downstreams.WellFormed net by rw [hsame.downstreams]; exact hds)
      (by rw [hsame.allowed, hsame.downstreams]; exact hallowed)
    exact ⟨entry, hentry, hm.same hsame⟩
  have hlog : last.log = entries := hlog
  rw [hlog]
  exact ⟨hall.length_eq.symm, hall⟩

/-! ### At the instance -/

namespace Reference

/-- A server `s` with one tool `t` of the given input schema. -/
def network (schema : List (String × Json)) : Network where
  start _ := .ok ()
  listAllTools _ := .ok [⟨"t", none, schema, none⟩]

def config : GatewayConfig where
  server := ⟨"127.0.0.1:0", ⟨"env:KEY", "KEY", by decide⟩⟩
  vm := vmDefault
  downstream := [⟨"s", .http "http://s", none⟩]
  policy := ⟨"/policy.toml"⟩
  store := ⟨"/store"⟩
  principals := []

def client : Client := ⟨"s", .http "http://s" none⟩

def tool (schema : List (String × Json)) : ToolSchema := ⟨"s", "t", "", .obj schema, none⟩

def downstreams (schema : List (String × Json)) : Downstreams :=
  ⟨OrdMap.empty.insert "s" client, [tool schema]⟩

/-- `alice` may call `s.t`. -/
def policy : Policy := ⟨OrdMap.empty.insert "alice" (OrdSet.ofList ["s.t"]), OrdMap.empty⟩

def host (schema : List (String × Json)) : GatewayHost :=
  GatewayHost.fresh "alice" (downstreams schema) [tool schema] policy

def objectSchema : List (String × Json) := [("type", .str "object")]

theorem parse_config : parse (fun _ => .ok config) "" "" = .ok config := rfl

theorem connect_config (schema : List (String × Json)) :
    Downstreams.connect (fun _ => none) (network schema) config.downstream =
      .ok (downstreams schema) := by
  have ht : toolSchema "s" ⟨"t", none, schema, none⟩ = .ok (tool schema) := by
    simp [toolSchema, tool, Text.contains]
  simp [Downstreams.connect, connectAll, config, launch, network, ht, downstreams, client,
    sortTools, Except.mapError, bind, Except.bind, pure, Except.pure]

theorem fromStr_text {t : Table} {v : Json} (h : t.toJson.toValue some = some v) :
    reference.fromStr t.text = .ok v := by
  have hp : Json.parse t.text = some t.toJson := Json.parse_print _ t.exact
  have hd : t.toJson.depth ≤ Json.recursionLimit := by
    rw [t.depth_toJson]
    decide
  have hf : Json.fromStr some t.text = some v := by
    simp [Json.fromStr, hp, hd, h]
  simp [reference, Deps.fromStr, hf]

theorem tableToJson_eq {t : Table} {v : Json} (h : t.toJson.toValue some = some v) :
    tableToJson reference t = .ok v := by
  have hf : reference.fromStr t.text = .ok v := fromStr_text h
  simp only [tableToJson, show reference.canonicalSerializeTable t = .ok t.text from rfl, hf]

/-- An answer with a provenance. -/
def noted : CallToolResult where
  content := []
  structuredContent := some (.obj [("v", .num (.posInt 1))])
  isError := none
  meta_ := some [("proveno/provenance",
    .obj [("type", .str "notarized"), ("scheme", .str "x"), ("reference", .str "y")])]

/-- A call of `s.t` without arguments, and what comes of it. -/
def asked (answer : Except String CallToolResult) : CallStep reference :=
  let result := GatewayHost.conclude reference (host objectSchema) "s.t"
    (readResult reference "s.t" "s" answer)
  ⟨host objectSchema, "s.t", .fields [], [⟨Op.toolsCall client ⟨"t", some []⟩, answer⟩],
    result.1, result.2⟩

theorem host_callTool : (host objectSchema).callTool reference "s.t" (.fields []) =
    toolsCall client ⟨"t", some []⟩ >>= fun answer =>
      pure (GatewayHost.conclude reference (host objectSchema) "s.t"
        (readResult reference "s.t" "s" answer)) := by
  have hargs : tableToJson reference (.fields []) = .ok (.obj []) := tableToJson_eq rfl
  unfold GatewayHost.callTool
  dsimp only
  rw [hargs]
  rfl

theorem asked_ok (answer : Except String CallToolResult) : (asked answer).Ok := by
  show Runs ((host objectSchema).callTool reference "s.t" (.fields [])) _ _
  rw [host_callTool]
  simp [asked]

end Reference

open Reference in
theorem complete_mediation_reference :
    (asked (.ok noted)).next.log.length = 1 ∧
      List.Forall₂ (Mediated reference (network objectSchema) (host objectSchema))
        [asked (.ok noted)] (asked (.ok noted)).next.log :=
  complete_mediation parse_config (connect_config objectSchema) "alice" policy
    (fun _ ht => ht) (.call _ (asked_ok (.ok noted)) (.nil _))

end ProvenoGateway
