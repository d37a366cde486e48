/-
ProvenoGateway/Advertised.lean

What a principal is shown, and what it can call.

Four pieces of code go by the allow-list: the prelude that declares functions,
the Tool API section that describes them, the lookup of the host and the check
of the policy.  `advertised_iff_callable` is that they agree on every name.
Each is brought to the same form, a tool of that name among the allowed ones;
for the prelude that is the reading of its text as Lua.
-/
import ProvenoGateway.Shadowing
import ProvenoGateway.Startup

namespace ProvenoGateway

open Lua (Token Tree grammar)
open Symbol Grammar Program

/-! ### The four places -/

/-- A statement that assigns a function to a field of a table: the table, the
field and the function. -/
def assignedField : Tree → Option (List Char × List Char × Tree)
  | .node .stat [.token table, .node .onVar [.node .index [_, .token field],
      .node .onVar [.node .targets [], _,
        .node .exp [.node .operand [_, .node .body parts], .node .exptail []],
        .node .exps []]]] => some (table.text, field.text, .node .body parts)
  | _ => none

/-- The text, read as Lua, assigns this function to the dotted name. -/
def AssignsTo (deps : Deps) (tree : deps.Block → Tree) (text q : String) (function : Tree) : Prop :=
  ∃ block, deps.parse text = .ok block ∧ ∃ statement ∈ blockStatements (tree block),
    ∃ table field, assignedField statement = some (table, field, function) ∧
      q.toList = table ++ '.' :: field

/-- The text of the description, but for the rendered tools. -/
def descriptionHead (tools : List ToolSchema) : String :=
  dialectRules ++ "\n# Tool API\n\n" ++ if tools = [] then "No tools are available.\n" else ""

/-- The Tool API section of the description has the lines of a tool of this
name. -/
def Renders (deps : Deps) (allowed : List ToolSchema) (q : String) : Prop :=
  ∃ before tool after, tool.qualifiedName = q ∧
    sortTools allowed = before ++ tool :: after ∧
    (build deps allowed).text = descriptionHead (sortTools allowed) ++
      (Text.concat (before.map renderTool) ++
        (renderTool tool ++ Text.concat (after.map renderTool))) ++ "\n" ++ examplesSection

/-- The check denies on its first or its second test, whatever the bounds. -/
inductive Policy.DeniesOnList (policy : Policy) (principal tool : String) (args : Json) : Prop
  | principal : policy.principals.get principal = none →
      policy.check principal tool args = .deny s!"unknown principal {principal}" →
      DeniesOnList policy principal tool args
  | list (allow : OrdSet String) : policy.principals.get principal = some allow →
      allow.contains tool = false →
      policy.check principal tool args = .deny s!"{tool} is not allowed for principal {principal}" →
      DeniesOnList policy principal tool args

theorem not_deniesOnList_iff {policy : Policy} {principal tool : String} {args : Json} :
    ¬ policy.DeniesOnList principal tool args ↔
      ∃ allow, policy.principals.get principal = some allow ∧ allow.contains tool = true := by
  constructor
  · intro h
    cases hp : policy.principals.get principal with
    | none =>
      refine absurd (.principal hp ?_) h
      simp [Policy.check, hp]
    | some allow =>
      cases ht : allow.contains tool with
      | true => exact ⟨allow, rfl, ht⟩
      | false =>
        refine absurd (.list allow hp ht ?_) h
        simp [Policy.check, hp, ht]
  · rintro ⟨allow, hallow, hcontains⟩ h
    cases h with
    | principal hp _ =>
      rw [hp] at hallow
      cases hallow
    | list other hp ht _ =>
      rw [hp] at hallow
      cases hallow
      rw [hcontains] at ht
      cases ht

/-- `q` names a discovered tool that the policy lists for the principal. -/
def Engine.Offers (engine : Engine) (principal q : String) : Prop :=
  (∃ tool ∈ engine.downstreams.tools, tool.qualifiedName = q) ∧
    ∀ args, ¬ engine.policy.DeniesOnList principal q args

theorem offers_iff {engine : Engine} {principal q : String} :
    engine.Offers principal q ↔ ∃ tool ∈ engine.allowedSchemas principal, tool.qualifiedName = q := by
  constructor
  · rintro ⟨⟨tool, htool, rfl⟩, hlist⟩
    exact ⟨tool, Engine.mem_allowedSchemas.mpr ⟨htool, not_deniesOnList_iff.mp (hlist .null)⟩, rfl⟩
  · rintro ⟨tool, htool, rfl⟩
    obtain ⟨hmem, hallow⟩ := Engine.mem_allowedSchemas.mp htool
    exact ⟨⟨tool, hmem, rfl⟩, fun args => not_deniesOnList_iff.mpr hallow⟩

/-! ### The functions of the prelude -/

theorem toList_qualifiedName (tool : ToolSchema) :
    tool.qualifiedName.toList = tool.server.toList ++ '.' :: tool.name.toList := by
  rw [ToolSchema.qualifiedName, String.toList_append, String.toList_append]
  rfl

theorem assignsTo_iff {deps : Deps} {lex : List Char → Option (List Token)}
    {tree : deps.Block → Tree} (hlex : Lua.Lexes lex) (hparser : LuaParser deps lex tree)
    {tools : List ToolSchema} (htools : ∀ tool ∈ tools, Declarable tool) {q : String}
    {function : Tree} :
    AssignsTo deps tree (prelude tools) q function ↔
      (∃ tool ∈ tools, tool.qualifiedName = q) ∧ function = functionBody q := by
  constructor
  · rintro ⟨own, hown, statement, hstatement, table, field, hassigned, hq⟩
    rw [own_statements hlex hparser htools hown] at hstatement
    obtain ⟨d, hd, rfl⟩ := List.mem_map.mp hstatement
    rcases List.mem_append.mp hd with hd | hd
    · obtain ⟨server, -, rfl⟩ := List.mem_map.mp hd
      cases hassigned
    · obtain ⟨tool, htool, rfl⟩ := List.mem_map.mp hd
      cases hassigned
      obtain rfl : tool.qualifiedName = q := by
        apply String.toList_injective
        rw [toList_qualifiedName, hq]
        rfl
      exact ⟨⟨tool, htool, rfl⟩, rfl⟩
  · rintro ⟨⟨tool, htool, rfl⟩, rfl⟩
    obtain ⟨own, hown⟩ := parses_prelude hlex hparser htools
    refine ⟨own, hown, (Declaration.function tool).own, ?_, _, _, rfl, toList_qualifiedName tool⟩
    rw [own_statements hlex hparser htools hown]
    apply List.mem_map_of_mem
    exact List.mem_append_right _ (List.mem_map_of_mem htool)

/-- Where a field of a table is assigned, the table has been declared. -/
theorem declared_before {tools : List ToolSchema} {before after : List Tree} {statement : Tree}
    (h : (declarations tools).map Declaration.own = before ++ statement :: after)
    {table field : List Char} {function : Tree}
    (hassigned : assignedField statement = some (table, field, function)) :
    table ∈ before.flatMap bindings := by
  have hnotable : ∀ server, statement ≠ (Declaration.table server).own := by
    rintro server rfl
    cases hassigned
  obtain ⟨tool, htool, rfl⟩ : ∃ tool ∈ tools, (Declaration.function tool).own = statement := by
    have hmem : statement ∈ (declarations tools).map Declaration.own := by
      rw [h]
      exact List.mem_append_right _ List.mem_cons_self
    rw [own_declarations] at hmem
    rcases List.mem_append.mp hmem with hmem | hmem
    · obtain ⟨server, -, hserver⟩ := List.mem_map.mp hmem
      exact absurd hserver.symm (hnotable server)
    · exact List.mem_map.mp hmem
  cases hassigned
  have hserver : tool.server.toList ∈
      ((servers tools).map fun server => (Declaration.table server).own).flatMap bindings := by
    rw [bindings_tables]
    exact List.mem_map_of_mem (mem_servers.mpr ⟨tool, htool, rfl⟩)
  rw [own_declarations] at h
  rcases List.append_eq_append_iff.mp h with ⟨middle, rfl, -⟩ | ⟨middle, htables, hrest⟩
  · -- the tables are all before the statement
    rw [List.flatMap_append]
    exact List.mem_append_left _ hserver
  · cases middle with
    | nil =>
      rw [List.append_nil] at htables
      rw [← htables]
      exact hserver
    | cons first middle =>
      -- the statement is not one of the tables
      cases hrest
      have hmem : (Declaration.function tool).own ∈
          (servers tools).map fun server => (Declaration.table server).own := by
        rw [htables]
        exact List.mem_append_right _ List.mem_cons_self
      obtain ⟨server, -, hsame⟩ := List.mem_map.mp hmem
      exact absurd hsame.symm (hnotable server)

/-! ### Calls of other names -/

theorem Calls.of_mem {deps : Deps} {host last : GatewayHost} {steps : List (CallStep deps)}
    (h : Calls deps host steps last) : ∀ c ∈ steps, c.Ok ∧ SameRules host c.host := by
  induction h with
  | nil host => simp
  | call c hok _ ih =>
    rw [List.forall_mem_cons]
    refine ⟨⟨hok, SameRules.refl _⟩, fun d hd => ?_⟩
    exact ⟨(ih d hd).1, hok.sameRules.trans (ih d hd).2⟩
  | take _ ih => exact fun d hd => ⟨(ih d hd).1, (SameRules.cleared _).trans (ih d hd).2⟩

/-- A call of a name that is not on the list: nothing is sent, and the entry
says so. -/
theorem CallStep.Ok.unlisted {deps : Deps} {c : CallStep deps} (h : c.Ok) {v : Json}
    (hargs : tableToJson deps c.args = .ok v)
    (hname : ∀ t ∈ c.host.allowed, t.qualifiedName ≠ c.name) :
    c.events = [] ∧ c.next.log = c.host.log ++
      [(.deniedByPolicy s!"tool {c.name} is not allowed for {c.host.principal}", .unsigned)] := by
  have hrefusal := FirstRefusal.allowList v hargs hname
  rcases callTool_runs h with ⟨d, hd, hevents, -, hnext⟩ | ⟨tool, w, response, hpasses, -, -⟩
  · obtain rfl := hd.unique hrefusal
    rw [hnext]
    exact ⟨hevents, rfl⟩
  · exact (hrefusal.not_passes hpasses).elim

/-! ### The agreement -/

/-- What is advertised to the principal is what it can call. -/
structure Advertised (deps : Deps) (tree : deps.Block → Tree) (engine : Engine)
    (principal : String) (host : GatewayHost) : Prop where
  declared : ∀ q, (∃ function, AssignsTo deps tree (engine.descriptionFor deps principal).prelude q
    function) ↔ engine.Offers principal q
  rendered : ∀ q, Renders deps (engine.allowedSchemas principal) q ↔ engine.Offers principal q
  found : ∀ q, (∃ tool, host.allowed.find? (fun t => t.qualifiedName = q) = some tool) ↔
    engine.Offers principal q
  /-- The function passes the name it is assigned to. -/
  through : ∀ q function,
    AssignsTo deps tree (engine.descriptionFor deps principal).prelude q function →
    function = functionBody q
  /-- No table is declared twice, -/
  once : ∀ own, deps.parse (engine.descriptionFor deps principal).prelude = .ok own →
    (boundBy (tree own)).Nodup
  /-- and each is declared before it is used. -/
  first : ∀ own, deps.parse (engine.descriptionFor deps principal).prelude = .ok own →
    ∀ before statement after, blockStatements (tree own) = before ++ statement :: after →
    ∀ table field function, assignedField statement = some (table, field, function) →
      table ∈ before.flatMap bindings
  /-- A call of another name is recorded as denied and not sent. -/
  denied : ∀ steps last, Calls deps host steps last → ∀ c ∈ steps, ∀ v,
    tableToJson deps c.args = .ok v → ¬ engine.Offers principal c.name →
    c.events = [] ∧ c.next.log = c.host.log ++
      [(.deniedByPolicy s!"tool {c.name} is not allowed for {principal}", .unsigned)]

theorem renders_iff {deps : Deps} {allowed : List ToolSchema} {q : String} :
    Renders deps allowed q ↔ ∃ tool ∈ allowed, tool.qualifiedName = q := by
  constructor
  · rintro ⟨before, tool, after, hname, hsorted, -⟩
    refine ⟨tool, ?_, hname⟩
    have hmem : tool ∈ sortTools allowed := by
      rw [hsorted]
      exact List.mem_append_right _ List.mem_cons_self
    exact (List.mem_insertionSort _).mp hmem
  · rintro ⟨tool, htool, hname⟩
    have hmem : tool ∈ sortTools allowed := (List.mem_insertionSort _).mpr htool
    obtain ⟨before, after, hsorted⟩ := List.append_of_mem hmem
    refine ⟨before, tool, after, hname, hsorted, ?_⟩
    have hconcat : ∀ a b : List String, Text.concat (a ++ b) = Text.concat a ++ Text.concat b := by
      intro a b
      apply String.toList_injective
      rw [String.toList_append, Text.toList_concat, Text.toList_concat, Text.toList_concat,
        List.flatMap_append]
    have hrendered : Text.concat ((sortTools allowed).map renderTool) =
        Text.concat (before.map renderTool) ++
          (renderTool tool ++ Text.concat (after.map renderTool)) := by
      rw [hsorted, List.map_append, hconcat]
      rfl
    rw [← hrendered]
    simp only [build, descriptionHead, String.append_assoc]

/-- **What is advertised is exactly what is callable.** -/
theorem advertised_iff_callable {deps : Deps} {lex : List Char → Option (List Token)}
    {tree : deps.Block → Tree} (hlex : Lua.Lexes lex) (hparser : LuaParser deps lex tree)
    {engine : Engine} {principal : String}
    (hnames : ∀ tool ∈ engine.allowedSchemas principal, checkLuaNames tool = .ok ())
    (req : ExecuteRequest) (program : deps.CompiledProgram) (traceId : String) :
    Advertised deps tree engine principal
      (engine.preparedOf deps principal req program traceId).host := by
  have hsorted : ∀ tool ∈ sortTools (engine.allowedSchemas principal), Declarable tool := by
    intro tool htool
    exact checkLuaNames_eq_ok.mp (hnames tool ((List.mem_insertionSort _).mp htool))
  have hoffers : ∀ q, engine.Offers principal q ↔
      ∃ tool ∈ sortTools (engine.allowedSchemas principal), tool.qualifiedName = q := by
    intro q
    simp only [offers_iff, sortTools, List.mem_insertionSort]
  have hassigns : ∀ q function,
      AssignsTo deps tree (engine.descriptionFor deps principal).prelude q function ↔
        engine.Offers principal q ∧ function = functionBody q := by
    intro q function
    rw [hoffers]
    exact assignsTo_iff hlex hparser hsorted
  have hown : ∀ own, deps.parse (engine.descriptionFor deps principal).prelude = .ok own →
      blockStatements (tree own) =
        (declarations (sortTools (engine.allowedSchemas principal))).map Declaration.own :=
    fun own h => own_statements hlex hparser hsorted h
  refine ⟨?_, ?_, ?_, ?_, ?_, ?_, ?_⟩
  · intro q
    simp only [hassigns, exists_and_left, exists_eq, and_true]
  · intro q
    rw [renders_iff, offers_iff]
  · intro q
    rw [offers_iff]
    constructor
    · rintro ⟨tool, htool⟩
      exact ⟨tool, List.mem_of_find?_eq_some htool, by simpa using List.find?_some htool⟩
    · rintro ⟨tool, htool, hname⟩
      have hsome : ((engine.allowedSchemas principal).find?
          fun t => t.qualifiedName = q).isSome = true :=
        List.find?_isSome.mpr ⟨tool, htool, by simpa using hname⟩
      exact Option.isSome_iff_exists.mp hsome
  · intro q function h
    exact ((hassigns q function).mp h).2
  · intro own h
    rw [boundBy_prelude hlex hparser hsorted h]
    exact servers_nodup _
  · intro own h before statement after hsplit table field function hassigned
    rw [hown own h] at hsplit
    exact declared_before hsplit hassigned
  · intro steps last hcalls c hc v hargs hnot
    obtain ⟨hok, hsame⟩ := hcalls.of_mem c hc
    have hunlisted : ∀ t ∈ c.host.allowed, t.qualifiedName ≠ c.name := by
      intro t ht hname
      rw [hsame.allowed] at ht
      exact hnot (offers_iff.mpr ⟨t, ht, hname⟩)
    have hresult := hok.unlisted hargs hunlisted
    rw [hsame.principal] at hresult
    exact hresult

namespace Reference

/-- The engine of a principal that may call `s.t`. -/
def luaEngine : Engine := ⟨vmDefault, policy, downstreams objectSchema, .under "/store", key⟩

end Reference

open Reference in
theorem advertised_iff_callable_alice :
    Advertised luaCore id luaEngine "alice"
      (luaEngine.preparedOf luaCore "alice" ⟨"return s.t\x7b\x7d", none, none⟩ .ask "0a").host := by
  apply advertised_iff_callable Lua.lexes_lex luaParser
  decide

end ProvenoGateway
