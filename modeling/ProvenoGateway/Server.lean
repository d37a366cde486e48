/-
ProvenoGateway/Server.lean

What `execute` answers over MCP (`server.rs`).

A run, failed or not, comes back with the structured response; a failed one is
a tool error whose text warns of what has already happened.  A lint error is a
tool error that is only a text.  A store error is a protocol error.
-/
import ProvenoGateway.Engine

namespace ProvenoGateway

/-- A JSON-RPC error. -/
structure ErrorData where
  code : Int
  message : String

def ErrorData.internalError (message : String) : ErrorData := ⟨-32603, message⟩

namespace CallToolResult

def structured (value : Json) : CallToolResult where
  content := [.text value.print]
  structuredContent := some value
  isError := some false
  meta_ := none

def structuredError (value : Json) : CallToolResult where
  content := [.text value.print]
  structuredContent := some value
  isError := some true
  meta_ := none

def error (content : List ContentBlock) : CallToolResult where
  content := content
  structuredContent := none
  isError := some true
  meta_ := none

end CallToolResult

/-- `lint.to_string()`. -/
def LintError.display (e : LintError) : String := s!"line {e.line}: {e.message}"

/-- `serde_json::to_value(&response)`, which has no way to fail here. -/
def ExecuteResponse.toValue (response : ExecuteResponse) : Json :=
  .obj [
    ("result", response.result.getD .null),
    ("status", response.status.toJson),
    ("trace_id", .str response.traceId)]

namespace Server

structure ExecuteArgs where
  program : String
  session : Option String
  request : Option String

/-- The text of a failed run. -/
def failedText (kind message traceId : String) : String :=
  s!"{kind}: {message}\nThe run is recorded as trace {traceId}, and any tool " ++
    "calls it made before failing have already happened, so check them before " ++
    "running it again."

/-- What is made of the engine's outcome. -/
def answer : Except ExecuteError ExecuteResponse → Except ErrorData CallToolResult
  | .ok response =>
      let value := response.toValue
      match response.status with
      | .ok => .ok (.structured value)
      | .error kind message =>
          .ok { CallToolResult.structuredError value with
            content := [.text (failedText kind message response.traceId)] }
  | .error (.lint lint) => .ok (.error [.text lint.display])
  | .error (.store _) =>
      .error (.internalError
        "the trace could not be stored; the program's tool calls may have been made")

/-- `Gateway::execute`. -/
def execute (deps : Deps) (engine : Engine) (principal : String) (args : ExecuteArgs) :
    Gateway (Except ErrorData CallToolResult) := do
  let outcome ← engine.execute deps principal ⟨args.program, args.session, args.request⟩
  pure (answer outcome)

end Server

end ProvenoGateway
