/-
ProvenoGateway/Description.lean

The tool description generated for a principal, and the Lua prelude that goes
with it (`description.rs`).
-/
import Mathlib.Data.List.Destutter
import ProvenoGateway.Dialect
import ProvenoGateway.Downstream

namespace ProvenoGateway

structure ToolDescription where
  text : String
  hash : Digest
  prelude : String

/-! ### The fixed examples -/

/-- The placeholder tool the examples are written against. -/
def exampleTool : String × String := ("example", "lookup")

def examples : List String := [
  "local item = example.lookup\x7b id = \"a1\" \x7d
return item.status",
  "local ok, res = pcall(function()
  return example.lookup\x7b id = \"a1\" \x7d
end)
if not ok then
  return \x7b ok = false, error = res \x7d
end
return \x7b ok = true, status = res.status \x7d",
  "local ids = \x7b \"a1\", \"b2\" \x7d
local statuses = \x7b\x7d
for _, id in ipairs(ids) do
  local item = example.lookup\x7b id = id \x7d
  statuses[id] = item.status
end
return \x7b count = #ids, statuses = statuses \x7d",
  "local item = example.lookup\x7b id = \"a1\" \x7d
local price = decimal.parse(tostring(item.price), 2)
local limit = decimal.parse(\"2500.00\", 2)
if price > limit then
  return \x7b buy = false, price = decimal.format(price, 2) \x7d
end
return \x7b buy = true, cost = decimal.format(price * 3, 2) \x7d"]

def examplesSection : String :=
  let (server, tool) := exampleTool
  let start := "# Examples\n\n`" ++ s!"{server}.{tool}" ++
    "\x7b id: string \x7d -> table` is a placeholder; use the tools listed in the tool API.\n"
  examples.foldl (fun out e => out ++ "\n```lua\n" ++ e ++ "\n```\n") start

/-! ### Rendering a tool -/

def simpleType : String → Option String
  | "boolean" => some "boolean"
  | "string" => some "string"
  | "array" => some "\x7b...\x7d"
  | "object" => some "table"
  | _ => none

/-- The `type` a property declares. -/
def declaredType (prop : Json) : Option String := (prop.get "type").bind Json.asStr

def argumentType (prop : Json) : Option String :=
  match declaredType prop with
  | none => none
  | some "integer" => some "integer"
  | some "number" => some "integer"
  | some other => simpleType other

def returnType (prop : Json) : Option String :=
  match declaredType prop with
  | none => none
  | some "integer" => some "integer"
  | some "number" => some "integer|string(decimal)"
  | some other => simpleType other

/-- Name, schema and whether it is required, for each property of an object
schema, sorted by name. -/
def sortedProperties (schema : Json) : List (String × Json × Bool) :=
  let required := (((schema.get "required").bind Json.asArray).map
    fun r => r.filterMap Json.asStr).getD []
  let props := (((schema.get "properties").bind Json.asObject).map
    fun p => p.map fun m => (m.1, m.2, required.contains m.1)).getD []
  props.insertionSort fun a b => a.1 ≤ b.1

/-- Destination arguments and the source argument that would pair with
each. -/
def directedPairs : List (String × String) :=
  [("to", "from"), ("to_address", "from_address"), ("recipient", "sender"),
    ("destination", "source")]

/-- The source argument a schema names a destination for but does not itself
take. -/
def fixedActorNote (inputSchema : Json) : Option String :=
  let names := (sortedProperties inputSchema).map Prod.fst
  (directedPairs.find? fun pair => names.contains pair.1 && !names.contains pair.2).map Prod.snd

/-- A name, with its type if it has one. -/
def typed (name : String) : Option String → String
  | some ty => s!"{name}: {ty}"
  | none => name

/-- Two lines: a comment with the description and return shape, then the call
signature. -/
def renderTool (tool : ToolSchema) : String :=
  let description :=
    Text.trimEndMatches '.' (Text.join " " (Text.splitWhitespace tool.description))
  let returns : String := match tool.outputSchema with
    | none => "table"
    | some schema =>
        match sortedProperties schema with
        | [] => "table"
        | props =>
            let fields := props.map fun p => typed p.1 (returnType p.2.1)
            "\x7b " ++ Text.join ", " fields ++ " \x7d"
  let comment :=
    if description = "" then s!"-- Returns {returns}."
    else s!"-- {description}. Returns {returns}."
  let note := match fixedActorNote tool.inputSchema with
    | some missing =>
        s!" There is no `{missing}` argument: the account this acts as is " ++
          "fixed by the gateway's credential."
    | none => ""
  let args := (sortedProperties tool.inputSchema).map fun p =>
    typed (p.1 ++ if p.2.2 then "" else "?") (argumentType p.2.1)
  let signature := match args with
    | [] => tool.qualifiedName ++ "\x7b\x7d -> table"
    | args => tool.qualifiedName ++ "\x7b " ++ Text.join ", " args ++ " \x7d -> table"
  comment ++ note ++ "\n" ++ signature ++ "\n"

/-! ### The prelude -/

/-- The function a tool is declared as. -/
def declareTool (tool : ToolSchema) : String :=
  let q := tool.qualifiedName
  s!"{q} = function(args) return tool.call(\"{q}\", args) end\n"

/-- Every server as a local table, then every tool as a function. -/
def prelude (sortedTools : List ToolSchema) : String :=
  let servers := ((sortedTools.map ToolSchema.server).insertionSort (· ≤ ·)).destutter (· ≠ ·)
  Text.concat (servers.map fun server => s!"local {server} = \x7b\x7d\n") ++
    Text.concat (sortedTools.map declareTool)

/-! ### The description -/

def build (deps : Deps) (allowed : List ToolSchema) : ToolDescription :=
  let tools := sortTools allowed
  let api := if tools = [] then "No tools are available.\n" else ""
  let text := dialectRules ++ "\n# Tool API\n\n" ++ api ++
    Text.concat (tools.map renderTool) ++ "\n" ++ examplesSection
  ⟨text, deps.sha256 text.toUTF8, prelude tools⟩

/-! ### The prelude ends a line -/

theorem endsWith_append {c : Char} {s t : String} (ht : Text.endsWith c t = true) :
    Text.endsWith c (s ++ t) = true := by
  simp only [Text.endsWith, String.toList_append, decide_eq_true_eq] at *
  rw [List.getLast?_append, ht]
  rfl

theorem endsWith_declareTool (tool : ToolSchema) :
    Text.endsWith '\n' (declareTool tool) = true := by
  refine endsWith_append ?_
  decide

theorem endsWith_concat {c : Char} {parts : List String} (hne : parts ≠ [])
    (h : ∀ s ∈ parts, Text.endsWith c s = true) :
    Text.endsWith c (Text.concat parts) = true := by
  induction parts with
  | nil => exact absurd rfl hne
  | cons s rest ih =>
    have hs : Text.concat (s :: rest) = s ++ Text.concat rest := rfl
    rw [hs]
    cases rest with
    | nil => simpa [Text.concat] using h s List.mem_cons_self
    | cons t rest =>
      exact endsWith_append (ih (by simp) fun u hu => h u (List.mem_cons_of_mem _ hu))

/-- The prelude ends in a newline or is empty, so compiling adds nothing
between it and the program. -/
theorem terminated_prelude (tools : List ToolSchema) : terminated (prelude tools) = prelude tools := by
  unfold terminated
  rw [if_neg]
  rintro ⟨hne, hend⟩
  refine hend ?_
  cases tools with
  | nil => exact absurd rfl hne
  | cons tool rest =>
    refine endsWith_append (endsWith_concat (by simp) ?_)
    intro s hs
    obtain ⟨t, -, rfl⟩ := List.mem_map.mp hs
    exact endsWith_declareTool t

end ProvenoGateway
