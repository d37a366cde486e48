/-
ProvenoGateway/Config.lean

Gateway configuration (`config.rs`).

TOML decoding is third-party, so the decoder is an argument of `parse`; what
`config.rs` adds to it is here: the `env:NAME` form of a secret, the two
transports, and the checks on downstream names.  A `Secret` carries the proof
that it names a variable, and `DownstreamConfigs` is the invariant `parse`
establishes on the list of downstreams: names without a dot, no name twice.

`usize` is 64 bits wide.
-/
import Mathlib.Data.List.Nodup
import ProvenoGateway.Text

namespace ProvenoGateway

inductive ConfigError
  | invalid (message : String)
  deriving DecidableEq

/-! ### Secrets -/

/-- A reference to a secret, never the secret itself: the text `env:NAME`. -/
structure Secret where
  text : String
  name : String
  named : Text.stripPrefix "env:" text = some name ∧ name ≠ ""

namespace Secret

def tryFrom (s : String) : Except String Secret :=
  match h : Text.stripPrefix "env:" s with
  | some name =>
      if hn : name ≠ "" then .ok ⟨s, name, h, hn⟩
      else .error s!"secret `{s}` must have the form `env:NAME`; no other form is accepted"
  | none => .error s!"secret `{s}` must have the form `env:NAME`; no other form is accepted"

/-- The variable name in `env:NAME`. -/
def envName (s : Secret) : String := s.name

/-- Reads the named environment variable. -/
def resolve (env : String → Option String) (s : Secret) : Except ConfigError String :=
  match env s.envName with
  | some value => .ok value
  | none => .error (.invalid s!"environment variable `{s.envName}` is not set")

end Secret

/-! ### The configuration -/

/-- Mirror of core's `VmConfig`, recorded in the trace header. -/
structure VmSettings where
  gasLimit : UInt64
  memoryLimitBytes : UInt64
  maxCallDepth : UInt64
  maxToolCalls : UInt64
  maxToolBytesIn : UInt64
  maxToolBytesOut : UInt64
  maxOutputBytes : UInt64
  deriving DecidableEq

/-- Core's VM limits. -/
structure VmConfig where
  gasLimit : UInt64
  memoryLimitBytes : UInt64
  maxCallDepth : UInt64
  maxToolCalls : UInt64
  maxToolBytesIn : UInt64
  maxToolBytesOut : UInt64
  maxOutputBytes : UInt64
  recordTrace : Bool
  deriving DecidableEq

/-- `VmConfig::from(&VmSettings)`. -/
def VmConfig.ofSettings (s : VmSettings) : VmConfig where
  gasLimit := s.gasLimit
  memoryLimitBytes := s.memoryLimitBytes
  maxCallDepth := s.maxCallDepth
  maxToolCalls := s.maxToolCalls
  maxToolBytesIn := s.maxToolBytesIn
  maxToolBytesOut := s.maxToolBytesOut
  maxOutputBytes := s.maxOutputBytes
  recordTrace := false

inductive Transport
  | stdio (command : String)
  | http (url : String)
  deriving DecidableEq

structure DownstreamConfig where
  name : String
  transport : Transport
  credential : Option Secret

/-- The flat TOML shape of a downstream. -/
structure RawDownstream where
  name : String
  transport : String
  command : Option String
  url : Option String
  credential : Option Secret

def DownstreamConfig.tryFrom (raw : RawDownstream) : Except String DownstreamConfig := do
  let name := raw.name
  let transport ← match raw.transport, raw.command, raw.url with
    | "stdio", some command, none => .ok (Transport.stdio command)
    | "http", none, some url => .ok (Transport.http url)
    | "stdio", _, some _ =>
        .error s!"downstream `{name}`: stdio transport takes `command`, not `url`"
    | "stdio", none, none =>
        .error s!"downstream `{name}`: stdio transport requires `command`"
    | "http", some _, _ =>
        .error s!"downstream `{name}`: http transport takes `url`, not `command`"
    | "http", none, none =>
        .error s!"downstream `{name}`: http transport requires `url`"
    | other, _, _ =>
        .error s!"downstream `{name}`: unknown transport `{other}`, expected `stdio` or `http`"
  .ok ⟨raw.name, transport, raw.credential⟩

structure ServerConfig where
  listen : String
  signingKey : Secret

structure PolicyRef where
  file : String

structure StoreConfig where
  dir : String

structure PrincipalConfig where
  token : Secret

/-- The principals are a map, kept as an association list. -/
structure GatewayConfig where
  server : ServerConfig
  vm : VmSettings
  downstream : List DownstreamConfig
  policy : PolicyRef
  store : StoreConfig
  principals : List (String × PrincipalConfig)

/-- What is started for a downstream, with its credential attached. -/
inductive Launch
  | stdio (program : String) (args : List String) (env : List (String × String))
  | http (url : String) (token : Option String)
  deriving DecidableEq

/-- The connection to one downstream. -/
structure Client where
  server : String
  launch : Launch
  deriving DecidableEq

/-! ### `parse` -/

/-- `base.join(path)`: an absolute path replaces the base. -/
def joinPath (base path : String) : String :=
  if path.toList.head? = some '/' then path
  else if base = "" then path
  else if Text.endsWith '/' base then base ++ path
  else base ++ "/" ++ path

/-- The loop over the downstreams: each name is checked for a dot and against
the names before it. -/
def checkNames : List String → List DownstreamConfig → Except ConfigError Unit
  | _, [] => .ok ()
  | names, d :: ds =>
      if Text.contains '.' d.name then
        .error (.invalid s!"downstream `{d.name}`: name must not contain `.`")
      else if d.name ∈ names then
        .error (.invalid s!"downstream `{d.name}`: name is used more than once")
      else checkNames (d.name :: names) ds

/-- `toml` is the third-party decoder. -/
def parse (toml : String → Except String GatewayConfig) (text base : String) :
    Except ConfigError GatewayConfig := do
  let config ← (toml text).mapError ConfigError.invalid
  checkNames [] config.downstream
  .ok { config with
    policy := { config.policy with file := joinPath base config.policy.file }
    store := { config.store with dir := joinPath base config.store.dir } }

/-! ### What an accepted configuration promises -/

/-- No downstream name holds a dot, and none is used twice. -/
structure DownstreamConfigs (ds : List DownstreamConfig) : Prop where
  undotted : ∀ d ∈ ds, Text.contains '.' d.name = false
  nodup : (ds.map DownstreamConfig.name).Nodup

theorem checkNames_ok {names : List String} {ds : List DownstreamConfig}
    (h : checkNames names ds = .ok ()) :
    DownstreamConfigs ds ∧ ∀ d ∈ ds, d.name ∉ names := by
  induction ds generalizing names with
  | nil => exact ⟨⟨by simp, by simp⟩, by simp⟩
  | cons d ds ih =>
    rw [checkNames] at h
    split at h
    case isTrue => cases h
    case isFalse hdot =>
      split at h
      case isTrue => cases h
      case isFalse hnew =>
        obtain ⟨⟨hu, hn⟩, hds⟩ := ih h
        refine ⟨⟨?_, ?_⟩, ?_⟩
        · intro e he
          rcases List.mem_cons.mp he with rfl | he
          · simpa using hdot
          · exact hu e he
        · rw [List.map_cons, List.nodup_cons]
          refine ⟨?_, hn⟩
          intro hm
          obtain ⟨e, he, hname⟩ := List.mem_map.mp hm
          exact hds e he (by rw [hname]; exact List.mem_cons_self)
        · intro e he
          rcases List.mem_cons.mp he with rfl | he
          · exact hnew
          · exact fun hm => hds e he (List.mem_cons_of_mem _ hm)

/-- What `parse` accepts has distinct, undotted downstream names. -/
theorem parse_downstreams {toml : String → Except String GatewayConfig} {text base : String}
    {config : GatewayConfig} (h : parse toml text base = .ok config) :
    DownstreamConfigs config.downstream := by
  unfold parse at h
  cases ht : toml text with
  | error e => simp [ht, Except.mapError, bind, Except.bind] at h
  | ok c =>
    cases hc : checkNames [] c.downstream with
    | error e => simp [ht, hc, Except.mapError, bind, Except.bind] at h
    | ok u =>
      simp only [ht, hc, Except.mapError, bind, Except.bind, Except.ok.injEq] at h
      subst h
      exact (checkNames_ok hc).1

end ProvenoGateway
