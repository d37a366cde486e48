/-
ProvenoGateway/Downstream.lean

The downstream tool servers (`downstream.rs`) and the check of a call's
arguments against a tool's schema (`schema.rs`).

Opening a connection and listing a server's tools is third-party; `Network`
stands for it.  A `tools/call` request is an operation of the gateway.
-/
import Mathlib.Data.List.Sort
import ProvenoGateway.Store

namespace ProvenoGateway

/-- The reserved result `_meta` key a downstream reports its provenance
under. -/
def provenanceMetaKey : String := "proveno/provenance"

structure ToolSchema where
  server : String
  name : String
  description : String
  inputSchema : Json
  outputSchema : Option Json

def ToolSchema.qualifiedName (t : ToolSchema) : String := t.server ++ ("." ++ t.name)

/-- A tool as a server lists it. -/
structure Tool where
  name : String
  description : Option String
  inputSchema : List (String × Json)
  outputSchema : Option (List (String × Json))

/-- The connections by name, and every discovered tool. -/
structure Downstreams where
  clients : OrdMap String Client
  tools : List ToolSchema

/-- A successful call: what the program sees, and what only the trace sees. -/
structure ToolResponse where
  value : Json
  provenance : Provenance
  attestation : ByteArray

inductive DownstreamError
  | connect (message : String)

/-! ### Connecting -/

/-- The network: starting a client, which fails at a named stage, and
`tools/list`. -/
structure Network where
  start : Client → Except (String × String) Unit
  listAllTools : Client → Except String (List Tool)

def launch (env : String → Option String) (config : DownstreamConfig) :
    Except DownstreamError Launch := do
  let fail (what e : String) : DownstreamError :=
    .connect s!"downstream `{config.name}`: {what}: {e}"
  let credential ← match config.credential with
    | none => .ok none
    | some secret =>
        match secret.resolve env with
        | .ok value => .ok (some (secret.envName, value))
        | .error (.invalid e) => .error (fail "credential" e)
  match config.transport with
  | .stdio command =>
      match Text.splitWhitespace command with
      | [] => .error (fail "spawn" "command is empty")
      | program :: args =>
          let passed := ["PATH", "HOME"].filterMap fun var => (env var).map fun v => (var, v)
          .ok (.stdio program args (passed ++ credential.toList))
  | .http url => .ok (.http url (credential.map Prod.snd))

/-- A tool name with a dot is refused. -/
def toolSchema (server : String) (tool : Tool) : Except DownstreamError ToolSchema :=
  if Text.contains '.' tool.name then
    .error (.connect s!"downstream `{server}`: tool name `{tool.name}` must not contain `.`")
  else .ok {
    server := server
    name := tool.name
    description := tool.description.getD ""
    inputSchema := .obj tool.inputSchema
    outputSchema := tool.outputSchema.map Json.obj }

/-- The loop over the configured downstreams. -/
def connectAll (env : String → Option String) (net : Network) :
    List DownstreamConfig → Downstreams → Except DownstreamError Downstreams
  | [], ds => .ok ds
  | config :: rest, ds => do
      let client : Client := ⟨config.name, ← launch env config⟩
      (net.start client).mapError fun e =>
        .connect s!"downstream `{config.name}`: {e.1}: {e.2}"
      let listed ← (net.listAllTools client).mapError fun e =>
        DownstreamError.connect s!"downstream `{config.name}`: tools/list: {e}"
      let tools ← listed.mapM (toolSchema config.name)
      connectAll env net rest ⟨ds.clients.insert config.name client, ds.tools ++ tools⟩

/-- Every tool of every downstream, sorted by qualified name. -/
def sortTools (tools : List ToolSchema) : List ToolSchema :=
  tools.insertionSort fun a b => a.qualifiedName ≤ b.qualifiedName

namespace Downstreams

def connect (env : String → Option String) (net : Network) (configs : List DownstreamConfig) :
    Except DownstreamError Downstreams := do
  let ds ← connectAll env net configs ⟨OrdMap.empty, []⟩
  .ok { ds with tools := sortTools ds.tools }

end Downstreams

/-! ### Reading a result -/

def ContentBlock.asText : ContentBlock → Option String
  | text s => some s
  | other => none

/-- The value a `tools/call` result stands for. -/
def mapResult (deps : Deps) (result : CallToolResult) : Except String Json :=
  let texts := result.content.filterMap ContentBlock.asText
  if result.isError = some true then .error (Text.concat texts)
  else
    let wrapped := Json.obj [("text", .str (Text.concat texts))]
    let value := match result.structuredContent, result.content with
      | some structured, _ => structured
      | none, [.text text] =>
          match deps.fromStr text with
          | .ok (.obj members) => .obj members
          | _ => wrapped
      | none, _ => wrapped
    .ok (match value with
      | .obj members => .obj members
      | other => .obj [("value", other)])

/-- JSON with keys sorted and no whitespace. -/
def canonicalJson (fields : List (String × Json)) : ByteArray :=
  (Json.obj (Json.sortMembers fields)).toVec

/-- The provenance a result reports, and the attestation blob.  No report is
`Unsigned`; a report that is not exactly one of the four tags with that tag's
fields is an error. -/
def readProvenance (deps : Deps) (meta_ : Option (List (String × Json))) :
    Except String (Provenance × ByteArray) :=
  match meta_.bind fun m => Json.lookup m provenanceMetaKey with
  | none => .ok (.unsigned, ByteArray.empty)
  | some (.obj reported) =>
      match Provenance.fromJson (.obj reported) with
      | none =>
          .error s!"`{provenanceMetaKey}`: {deps.provenanceErrorText (.obj reported)}"
      | some provenance =>
          let typed := Json.sortMembers (provenance.toJson.asObject.getD [])
          let unknown := (reported.map Prod.fst).filter fun k => !(typed.map Prod.fst).contains k
          if unknown ≠ [] then
            let tag := ((Json.lookup typed "type").bind Json.asStr).getD ""
            let names := (unknown.insertionSort (· ≤ ·)).map fun k => s!"`{k}`"
            .error (s!"`{provenanceMetaKey}`: `{tag}` does not define field(s) " ++
              Text.join ", " names)
          else match typed.find? fun m => m.2.asStr = some "" with
            | some (field, _) => .error s!"`{provenanceMetaKey}`: field `{field}` is empty"
            | none =>
                match provenance with
                | .unsigned => .ok (.unsigned, ByteArray.empty)
                | provenance => .ok (provenance, canonicalJson reported)
  | some _ => .error s!"`{provenanceMetaKey}` must be an object"

/-! ### Calling a tool -/

/-- The arguments of a request: an object as it is, nothing for null. -/
def requestArguments : Json → Option (Option (List (String × Json)))
  | .obj members => some (some members)
  | .null => some none
  | _ => none

/-- From the answer of the client to the response or the error text. -/
def readResult (deps : Deps) (qualified server : String) :
    Except String CallToolResult → Except String ToolResponse
  | .error e => .error s!"{qualified}: {e}"
  | .ok result => do
      let value ← mapResult deps { result with meta_ := none }
      let (provenance, attestation) ← (readProvenance deps result.meta_).mapError fun e =>
        s!"{qualified}: malformed provenance from downstream `{server}`: {e}"
      .ok ⟨value, provenance, attestation⟩

/-- Forward one call to the client of the server its name starts with. -/
def Downstreams.call (deps : Deps) (ds : Downstreams) (qualified : String) (args : Json) :
    Gateway (Except String ToolResponse) :=
  match Text.splitOnce '.' qualified with
  | none => pure (.error s!"unknown tool `{qualified}`")
  | some (server, tool) =>
      let known := ds.tools.any fun t => t.server = server && t.name = tool
      match (ds.clients.get server).filter fun _ => known with
      | none => pure (.error s!"unknown tool `{qualified}`")
      | some client =>
          match requestArguments args with
          | none => pure (.error s!"{qualified}: arguments must be a JSON object")
          | some arguments => do
              let answer ← toolsCall client ⟨tool, arguments⟩
              pure (readResult deps qualified server answer)

/-! ### Checking arguments -/

/-- Validation of the arguments against the tool's input schema. -/
def checkArgs (deps : Deps) (tool : ToolSchema) (args : Json) : Except String Unit :=
  let name := tool.qualifiedName
  match deps.schemaValidator tool.inputSchema with
  | .error e => .error s!"{name}: invalid input schema: {e}"
  | .ok firstError =>
      match firstError args with
      | none => .ok ()
      | some (path, e) =>
          let path := if path = "" then "/" else path
          .error s!"{name}: invalid arguments at {path}: {e}"

end ProvenoGateway
