/-
ProvenoGateway/Startup.lean

Starting the engine (`Engine::new`), and what the names it has checked say
about the preludes it generates later.

Start-up checks the tools of the principals of the gateway's configuration.
The tools offered come from the principals of the rules file, and the entry
points take any string.  A principal of neither file has no tools, so what is
left unchecked are the principals that only the rules file has
(`names_usable_iff`).
-/
import ProvenoGateway.Engine
import ProvenoGateway.LuaNames
import ProvenoGateway.Mediation
import ProvenoGateway.Signing

namespace ProvenoGateway

open Program

/-! ### Loading the rules -/

/-- The path a text names: a directory, and what follows the last slash. -/
def Path.ofText (s : String) : Path :=
  let name := s.toList.reverse.takeWhile (· ≠ '/')
  ⟨String.ofList (s.toList.take (s.toList.length - name.length)), String.ofList name.reverse⟩

/-- `Policy::load`. -/
def Policy.load (toml : String → Except String PolicyFile) (file : String) :
    Gateway (Except PolicyError Policy) := do
  match ← Fs.read (Path.ofText file) with
  | .error e => pure (.error (.invalid s!"{file}: {e.text}"))
  | .ok bytes =>
      match String.fromUTF8? bytes with
      | none => pure (.error (.invalid s!"{file}: stream did not contain valid UTF-8"))
      | some text =>
          match parse toml text with
          | .error (.invalid message) => pure (.error (.invalid s!"{file}: {message}"))
          | .ok policy => pure (.ok policy)

/-! ### Start-up -/

inductive SetupCause
  | policy (e : PolicyError)
  | downstream (e : DownstreamError)
  | store (e : StoreError)
  | config (e : ConfigError)
  | trace (e : TraceError)
  | message (text : String)

/-- Why the engine did not start: what was being done, if that is said, and the
error. -/
structure SetupError where
  context : Option String
  cause : SetupCause

/-- The key the configuration refers to. -/
def setupKey (env : String → Option String) (config : GatewayConfig) :
    Except SetupError SigningKey := do
  let hex ← (config.server.signingKey.resolve env).mapError fun e =>
    ⟨some "server.signing_key", .config e⟩
  (signingKeyFromHex hex).mapError fun e => ⟨some "server.signing_key", .trace e⟩

/-- Every principal's token has to be set. -/
def checkTokens (env : String → Option String) :
    List (String × PrincipalConfig) → Except SetupError Unit
  | [] => .ok ()
  | (name, principal) :: rest => do
      let _ ← (principal.token.resolve env).mapError fun e =>
        SetupError.mk (some s!"principal `{name}` token") (.config e)
      checkTokens env rest

/-- The tools of one principal. -/
def checkTools (principal : String) : List ToolSchema → Except SetupError Unit
  | [] => .ok ()
  | tool :: rest => do
      (checkLuaNames tool).mapError fun e =>
        SetupError.mk none (.message s!"principal `{principal}`: {e}")
      checkTools principal rest

namespace Engine

/-- The loop over the principals of the configuration. -/
def checkPrincipals (engine : Engine) : List String → Except SetupError Unit
  | [] => .ok ()
  | principal :: rest => do
      checkTools principal (engine.allowedSchemas principal)
      checkPrincipals engine rest

/-- `Engine::new`; `net` is the network, `toml` the decoder of the rules
file. -/
def new (env : String → Option String) (net : Network)
    (toml : String → Except String PolicyFile) (config : GatewayConfig) :
    Gateway (Except SetupError Engine) := do
  match ← Policy.load toml config.policy.file with
  | .error e => pure (.error ⟨none, .policy e⟩)
  | .ok policy =>
      match Downstreams.connect env net config.downstream with
      | .error e => pure (.error ⟨none, .downstream e⟩)
      | .ok downstreams => do
          match ← TraceStore.openDir config.store.dir with
          | .error e => pure (.error ⟨some s!"store {config.store.dir}", .store e⟩)
          | .ok store => pure (do
              let signingKey ← setupKey env config
              checkTokens env config.principals
              let engine : Engine := ⟨config.vm, policy, downstreams, store, signingKey⟩
              engine.checkPrincipals (config.principals.map Prod.fst)
              .ok engine)

def descriptionFor (deps : Deps) (engine : Engine) (principal : String) : ToolDescription :=
  build deps (engine.allowedSchemas principal)

/-- Whether a program lints, for a principal. -/
def check (deps : Deps) (engine : Engine) (principal program : String) : Compiled Unit :=
  match compileProgram deps (engine.descriptionFor deps principal).prelude program with
  | .ok _ => .ok ()
  | .lint e => .lint e
  | .panic message => .panic message

end Engine

/-! ### What an engine was started with -/

theorem Policy.load_runs {toml : String → Except String PolicyFile} {file : String}
    {evs : List (Event Op Res)} {policy : Policy}
    (h : Runs (Policy.load toml file) evs (.ok policy)) :
    ∃ bytes text, evs = [⟨.read (Path.ofText file), .ok bytes⟩] ∧
      String.fromUTF8? bytes = some text ∧ Policy.parse toml text = .ok policy := by
  unfold Policy.load at h
  rw [op_bind, runs_call_iff] at h
  obtain ⟨r, evs', rfl, h⟩ := h
  cases r with
  | error e =>
    have hend := (runs_ret_iff.mp h).2
    cases hend
  | ok bytes =>
    cases htext : String.fromUTF8? bytes with
    | none => simp only [htext, pure_eq, runs_ret_iff, reduceCtorEq, and_false] at h
    | some text =>
      cases hparse : Policy.parse toml text with
      | error e =>
        cases e
        simp only [htext, hparse, pure_eq, runs_ret_iff, reduceCtorEq, and_false] at h
      | ok p =>
        simp only [htext, hparse, pure_eq, runs_ret_iff, Except.ok.injEq] at h
        obtain ⟨rfl, rfl⟩ := h
        exact ⟨bytes, text, rfl, htext, hparse⟩

/-- Opening the store reads nothing. -/
theorem openDir_uses (dir : String) :
    (TraceStore.openDir dir).Uses fun o => ∀ path, o ≠ .read path := by
  refine ⟨by simp, fun r => ?_⟩
  cases r with
  | error e => trivial
  | ok u =>
    refine ⟨by simp, fun r => ?_⟩
    cases r with
    | error e => trivial
    | ok u =>
      refine ⟨by simp, fun r => ?_⟩
      cases r <;> trivial

theorem checkTools_eq_ok {principal : String} {tools : List ToolSchema} :
    checkTools principal tools = .ok () ↔ ∀ tool ∈ tools, checkLuaNames tool = .ok () := by
  induction tools with
  | nil => simp [checkTools]
  | cons tool rest ih =>
    rw [checkTools, bind_eq_ok, List.forall_mem_cons, ← ih]
    simp only [mapError_eq_ok]
    constructor
    · rintro ⟨u, htool, hrest⟩
      exact ⟨htool, hrest⟩
    · rintro ⟨htool, hrest⟩
      exact ⟨(), htool, hrest⟩

theorem Engine.checkPrincipals_eq_ok {engine : Engine} {principals : List String} :
    engine.checkPrincipals principals = .ok () ↔
      ∀ principal ∈ principals, ∀ tool ∈ engine.allowedSchemas principal,
        checkLuaNames tool = .ok () := by
  induction principals with
  | nil => simp [Engine.checkPrincipals]
  | cons principal rest ih =>
    rw [Engine.checkPrincipals, bind_eq_ok, List.forall_mem_cons, ← ih, ← checkTools_eq_ok]
    constructor
    · rintro ⟨u, hfirst, hrest⟩
      exact ⟨hfirst, hrest⟩
    · rintro ⟨hfirst, hrest⟩
      exact ⟨(), hfirst, hrest⟩

/-- What a started engine has gone through. -/
structure Engine.Started (env : String → Option String) (net : Network)
    (toml : String → Except String PolicyFile) (config : GatewayConfig)
    (evs : List (Event Op Res)) (engine : Engine) : Prop where
  rules : ∀ text, ⟨.read (Path.ofText config.policy.file), .ok (String.toUTF8 text)⟩ ∈ evs →
    Policy.parse toml text = .ok engine.policy
  connected : Downstreams.connect env net config.downstream = .ok engine.downstreams
  checked : ∀ principal ∈ config.principals.map Prod.fst,
    ∀ tool ∈ engine.allowedSchemas principal, checkLuaNames tool = .ok ()

theorem Engine.new_started {env : String → Option String} {net : Network}
    {toml : String → Except String PolicyFile} {config : GatewayConfig}
    {evs : List (Event Op Res)} {engine : Engine}
    (h : Runs (Engine.new env net toml config) evs (.ok engine)) :
    Started env net toml config evs engine := by
  unfold Engine.new at h
  obtain ⟨loaded, evs₁, evs₂, rfl, hload, hrun⟩ := runs_bind_iff.mp h
  clear h
  cases loaded with
  | error e =>
    have hend := (runs_ret_iff.mp hrun).2
    cases hend
  | ok policy =>
    obtain ⟨bytes, text, rfl, htext, hparse⟩ := Policy.load_runs hload
    cases hds : Downstreams.connect env net config.downstream with
    | error e => simp only [hds, pure_eq, runs_ret_iff, reduceCtorEq, and_false] at hrun
    | ok downstreams =>
      simp only [hds] at hrun
      obtain ⟨opened, evs₃, evs₄, rfl, hopen, hend⟩ := runs_bind_iff.mp hrun
      cases opened with
      | error e =>
        have herror := (runs_ret_iff.mp hend).2
        cases herror
      | ok store =>
        obtain ⟨rfl, hengine⟩ := runs_ret_iff.mp hend
        obtain ⟨signingKey, -, htokens⟩ := bind_eq_ok.mp hengine.symm
        obtain ⟨u, -, hprincipals⟩ := bind_eq_ok.mp htokens
        obtain ⟨u', hchecked, hok⟩ := bind_eq_ok.mp hprincipals
        cases hok
        refine ⟨?_, hds, Engine.checkPrincipals_eq_ok.mp hchecked⟩
        intro other hmem
        have hreads := hopen.allowed (openDir_uses config.store.dir)
        -- the only read is that of the rules file
        have hbytes : other.toUTF8 = bytes := by
          rcases List.mem_append.mp hmem with hmem | hmem
          · cases List.mem_singleton.mp hmem
            rfl
          · rw [List.append_nil] at hmem
            exact absurd rfl (hreads _ hmem (Path.ofText config.policy.file))
        have hsame : some other = some text := by
          rw [← htext, ← hbytes, Json.fromUTF8_toUTF8]
        cases hsame
        exact hparse

/-! ### The names of later preludes -/

namespace Engine

variable (deps : Deps) (engine : Engine) (principal : String)

/-- The prelude of a principal declares nothing Lua cannot declare. -/
structure Nameable : Prop where
  /-- Every tool offered passes the check of start-up, -/
  checked : ∀ tool ∈ engine.allowedSchemas principal, checkLuaNames tool = .ok ()
  /-- so the names in the prelude are free Lua names, -/
  declarable : ∀ tool ∈ sortTools (engine.allowedSchemas principal), Declarable tool
  /-- and where compiling panics, it is not over a name. -/
  blameless : ∀ program message, engine.check deps principal program = .panic message →
    ∀ tool ∈ sortTools (engine.allowedSchemas principal), Declarable tool

variable {deps engine principal}

theorem nameable_iff : Nameable deps engine principal ↔
    ∀ tool ∈ engine.allowedSchemas principal, checkLuaNames tool = .ok () := by
  constructor
  · exact Nameable.checked
  · intro h
    have hsorted : ∀ tool ∈ sortTools (engine.allowedSchemas principal), Declarable tool := by
      intro tool htool
      have hmem := (List.perm_insertionSort _ _).mem_iff.mp htool
      exact checkLuaNames_eq_ok.mp (h tool hmem)
    exact ⟨h, hsorted, fun _ _ _ => hsorted⟩

theorem mem_allowedSchemas {tool : ToolSchema} : tool ∈ engine.allowedSchemas principal ↔
    tool ∈ engine.downstreams.tools ∧ ∃ allow, engine.policy.principals.get principal = some allow ∧
      allow.contains tool.qualifiedName = true := by
  unfold allowedSchemas Policy.allowedTools
  rw [List.mem_filter]
  cases hp : engine.policy.principals.get principal with
  | none =>
    have hempty : OrdSet.contains OrdMap.empty tool.qualifiedName = false := rfl
    simp [hempty]
  | some allow => simp

end Engine

/-- **What start-up leaves unchecked.**  Every prelude of a started engine has
usable names exactly if the principals that the rules file has and the
configuration has not are allowed nothing but tools with usable names. -/
theorem names_usable_iff (deps : Deps) {env : String → Option String} {net : Network}
    {toml : String → Except String PolicyFile} {config : GatewayConfig}
    {evs : List (Event Op Res)} {engine : Engine} {text : String} {policy : Policy}
    {downstreams : Downstreams}
    (h : Runs (Engine.new env net toml config) evs (.ok engine))
    (hread : ⟨.read (Path.ofText config.policy.file), .ok (String.toUTF8 text)⟩ ∈ evs)
    (hpolicy : Policy.parse toml text = .ok policy)
    (hconnect : Downstreams.connect env net config.downstream = .ok downstreams) :
    (∀ principal, engine.Nameable deps principal) ↔
      ∀ principal allow, policy.principals.get principal = some allow →
        principal ∉ config.principals.map Prod.fst →
        ∀ tool ∈ downstreams.tools, allow.contains tool.qualifiedName = true →
          checkLuaNames tool = .ok () := by
  obtain ⟨hrules, hconnected, hchecked⟩ := Engine.new_started h
  rw [hrules text hread, Except.ok.injEq] at hpolicy
  rw [hconnected, Except.ok.injEq] at hconnect
  subst hpolicy hconnect
  simp only [Engine.nameable_iff]
  constructor
  · intro hall principal allow hallow _ tool htool hcontains
    exact hall principal tool (Engine.mem_allowedSchemas.mpr ⟨htool, allow, hallow, hcontains⟩)
  · intro hrest principal tool htool
    by_cases hconfigured : principal ∈ config.principals.map Prod.fst
    · exact hchecked principal hconfigured tool htool
    · -- only the rules file knows this principal
      obtain ⟨hmem, allow, hallow, hcontains⟩ := Engine.mem_allowedSchemas.mp htool
      exact hrest principal allow hallow hconfigured tool hmem hcontains

namespace Reference

/-! ### A principal of the rules file only -/

/-- A parser that refuses a declaration of `my-server`. -/
def parseHyphenless (text : String) : Except ParseError String :=
  if (Text.stripPrefix "local my-server" text).isSome then .error ⟨.other, 1, "unexpected `-`"⟩
  else .ok text

def hyphenless : Deps := { reference with parse := parseHyphenless }

/-- The server is called `my-server`, and no principal is configured. -/
def hyphenConfig : GatewayConfig :=
  { config with downstream := [⟨"my-server", .http "http://s", none⟩] }

/-- `ops` may call `my-server.t`. -/
def opsRules (_ : String) : Except String PolicyFile :=
  .ok ⟨OrdMap.empty.insert "ops" ⟨["my-server.t"]⟩, OrdMap.empty⟩

def hyphenTool : ToolSchema := ⟨"my-server", "t", "", .obj objectSchema, none⟩

def hyphenDownstreams : Downstreams :=
  ⟨OrdMap.empty.insert "my-server" ⟨"my-server", .http "http://s" none⟩, [hyphenTool]⟩

def opsPolicy : Policy := ⟨OrdMap.empty.insert "ops" (OrdSet.ofList ["my-server.t"]), OrdMap.empty⟩

/-- The engine that starts. -/
def hyphenEngine : Engine :=
  ⟨vmDefault, opsPolicy, hyphenDownstreams, .under "/store", key⟩

/-- Reading the rules and making the three directories. -/
def startEvents : List (Event Op Res) := [
  ⟨.read ⟨"/", "policy.toml"⟩, .ok (String.toUTF8 "rules")⟩,
  ⟨.createDirAll (TraceStore.under "/store").traces, .ok ()⟩,
  ⟨.createDirAll (TraceStore.under "/store").programs, .ok ()⟩,
  ⟨.createDirAll (TraceStore.under "/store").descriptions, .ok ()⟩]

theorem mem_hyphen : hyphenTool ∈ hyphenEngine.allowedSchemas "ops" := List.mem_cons_self

/-- The environment with the key. -/
def keyEnv (_ : String) : Option String := some (Hex.encode key.val)

theorem hyphen_connect :
    Downstreams.connect keyEnv (network objectSchema) hyphenConfig.downstream =
      .ok hyphenDownstreams := rfl

theorem hyphen_rules :
    Runs (Policy.load opsRules "/policy.toml")
      [⟨.read ⟨"/", "policy.toml"⟩, .ok (String.toUTF8 "rules")⟩] (.ok opsPolicy) := by
  have hpath : Path.ofText "/policy.toml" = ⟨"/", "policy.toml"⟩ := by decide
  have hparse : Policy.parse opsRules "rules" = .ok opsPolicy := rfl
  unfold Policy.load
  rw [hpath, op_bind, runs_call_iff]
  refine ⟨.ok (String.toUTF8 "rules"), [], rfl, ?_⟩
  simp only [Json.fromUTF8_toUTF8, hparse]
  exact Runs.ret _

theorem hyphen_starts :
    Runs (Engine.new keyEnv (network objectSchema) opsRules hyphenConfig) startEvents
      (.ok hyphenEngine) := by
  have hkey : setupKey keyEnv hyphenConfig = .ok key := by
    have hdecode : Hex.decodeToSlice 32 (Hex.encode key.val) = some key :=
      Hex.decodeToSlice_encode key
    simp [setupKey, Secret.resolve, keyEnv, signingKeyFromHex, hdecode, Except.mapError, bind,
      Except.bind]
  apply runs_bind_iff.mpr
  refine ⟨.ok opsPolicy, _, _, rfl, hyphen_rules, ?_⟩
  simp only [hyphen_connect]
  apply runs_bind_iff.mpr
  refine ⟨.ok (.under "/store"), startEvents.tail, [], rfl, ?_, ?_⟩
  · apply Runs.call
    apply Runs.call
    apply Runs.call
    exact Runs.ret _
  · simp only [hkey]
    exact Runs.ret _

theorem hyphen_refused :
    hyphenless.parse (terminated (prelude [hyphenTool]) ++ "return nil") =
      .error ⟨.other, 1, "unexpected `-`"⟩ := by
  have hstart : (Text.stripPrefix "local my-server"
      (prelude [hyphenTool] ++ "return nil")).isSome = true := by decide
  rw [terminated_prelude]
  show parseHyphenless (prelude [hyphenTool] ++ "return nil") = _
  rw [parseHyphenless, if_pos hstart]
  rfl

end Reference

open Reference in
/-- A downstream named `my-server` and a rules file that lets `ops` call it:
the engine starts, and checking a program for `ops` panics. -/
theorem rules_only_principal_panics :
    parse (fun _ => .ok hyphenConfig) "" "" = .ok hyphenConfig ∧
    Runs (Engine.new keyEnv (network objectSchema) opsRules hyphenConfig) startEvents
      (.ok hyphenEngine) ∧
    (∃ message, hyphenEngine.check hyphenless "ops" "return nil" = .panic message) ∧
    ¬ ∀ principal, hyphenEngine.Nameable hyphenless principal := by
  refine ⟨rfl, hyphen_starts, ?_, ?_⟩
  · have hprelude : (hyphenEngine.descriptionFor hyphenless "ops").prelude =
        prelude [hyphenTool] := rfl
    have hline : 1 ≤ lineOffset (prelude [hyphenTool]) := by
      rw [lineOffset, terminated_prelude]
      decide
    rw [Engine.check, hprelude, compileProgram, hyphen_refused]
    simp only [located, hline, if_true]
    exact ⟨_, rfl⟩
  · intro h
    have hchecked := (h "ops").checked hyphenTool mem_hyphen
    revert hchecked
    decide

open Reference in
/-- The condition fails for `ops`. -/
theorem names_usable_iff_hyphen :
    ¬ ∀ principal allow, opsPolicy.principals.get principal = some allow →
      principal ∉ hyphenConfig.principals.map Prod.fst →
      ∀ tool ∈ hyphenDownstreams.tools, allow.contains tool.qualifiedName = true →
        checkLuaNames tool = .ok () := by
  intro hrest
  have hall := (names_usable_iff hyphenless hyphen_starts
    List.mem_cons_self rfl hyphen_connect).mpr hrest
  have hchecked := (hall "ops").checked hyphenTool mem_hyphen
  revert hchecked
  decide

end ProvenoGateway
