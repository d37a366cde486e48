/-
ProvenoGateway/Shadowing.lean

The names the prelude binds, and the names the language already has.

A name that is free in a program is looked up in the locals of the prelude
first, then it is core's.  `unshadowed_iff` says when that makes no difference:
the reserved names of the engine cover every name the dialect rules document
but the library `decimal`.
-/
import ProvenoGateway.Chunk

namespace ProvenoGateway

open Lua (Token Tree grammar)
open Symbol Grammar

/-! ### The names of the language -/

/-- The library modules the dialect rules document. -/
def libraryModules : List String := ["string", "math", "table", "json", "decimal"]

/-- The global functions they document. -/
def libraryGlobals : List String := [
  "pcall", "error", "type", "tostring", "tonumber", "select", "unpack", "pairs_sorted", "pairs",
  "ipairs", "log", "print"]

/-- Core's own primitive: `tool.call`. -/
def corePrimitives : List String := ["tool"]

def languageNames : List String := libraryModules ++ libraryGlobals ++ corePrimitives

/-! ### What a statement binds -/

/-- The names after the first of a `local`. -/
def moreNames : Tree → List (List Char)
  | .node .names [_, .token n, names] => n.text :: moreNames names
  | _ => []

/-- The plain names among the further targets of an assignment. -/
def moreTargets : Tree → List (List Char)
  | .node .targets [_, .node .target [.token n, .node .toVar []], targets] =>
      n.text :: moreTargets targets
  | .node .targets [_, _, targets] => moreTargets targets
  | _ => []

/-- The names a statement declares `local`, and the names it assigns. -/
def bindings : Tree → List (List Char)
  | .node .stat [_, .node .afterLocal [.token _, .token n, _]] => [n.text]
  | .node .stat [_, .node .afterLocal [.token n, names, _]] => n.text :: moreNames names
  | .node .stat [.token n, .node .onVar [targets, _, _, _]] => n.text :: moreTargets targets
  | .node .stat [_, .token n, .node .path [], .node .method [], _] => [n.text]
  | _ => []

/-- The names a block leaves bound for what comes after it. -/
def boundBy (block : Tree) : List String :=
  ((blockStatements block).flatMap bindings).map String.ofList

/-- The statements of the tables, and those of the functions. -/
theorem own_declarations (tools : List ToolSchema) :
    (declarations tools).map Declaration.own =
      (servers tools).map (fun server => (Declaration.table server).own) ++
        tools.map fun tool => (Declaration.function tool).own := by
  rw [declarations, List.map_append, List.map_map, List.map_map]
  rfl

theorem bindings_tables (names : List String) :
    (names.map fun server => (Declaration.table server).own).flatMap bindings =
      names.map String.toList := by
  induction names with
  | nil => rfl
  | cons name names ih =>
    rw [List.map_cons, List.flatMap_cons, ih]
    rfl

theorem bindings_declarations (tools : List ToolSchema) :
    (((declarations tools).map Declaration.own).flatMap bindings).map String.ofList =
      servers tools := by
  have hfunctions : (tools.map fun tool => (Declaration.function tool).own).flatMap bindings =
      [] := by
    rw [List.flatMap_eq_nil_iff]
    intro statement hstatement
    obtain ⟨tool, -, rfl⟩ := List.mem_map.mp hstatement
    rfl
  have hid : String.ofList ∘ String.toList = id := by
    funext s
    exact String.ofList_toList
  rw [own_declarations, List.flatMap_append, bindings_tables, hfunctions, List.append_nil,
    List.map_map, hid, List.map_id]

/-! ### What a name means -/

/-- What a name that is free in the program stands for. -/
inductive Meaning
  | server (name : String)
  | library (name : String)
  deriving DecidableEq

/-- The locals of the prelude come before core's names. -/
def meaning (bound : List String) (x : String) : Meaning :=
  if x ∈ bound then .server x else .library x

/-- Core looks a free name up in its scope, and what a program does depends on
nothing else. -/
structure Scoped {β : Type} (free : String → List String)
    (behaviour : (String → Meaning) → String → β) : Prop where
  free_only : ∀ program scope scope', (∀ x ∈ free program, scope x = scope' x) →
    behaviour scope program = behaviour scope' program

variable {β : Type}

/-- The prelude of the tools shadows nothing of the language. -/
structure Unshadowed (deps : Deps) (tree : deps.Block → Tree) (free : String → List String)
    (behaviour : (String → Meaning) → String → β) (tools : List ToolSchema) : Prop where
  unbound : ∀ own, deps.parse (build deps tools).prelude = .ok own →
    ∀ x ∈ languageNames, x ∉ boundBy (tree own)
  same_meaning : ∀ own, deps.parse (build deps tools).prelude = .ok own →
    ∀ x ∈ languageNames, meaning (boundBy (tree own)) x = meaning [] x
  same_behaviour : ∀ own, deps.parse (build deps tools).prelude = .ok own →
    ∀ program, (∀ x ∈ free program, x ∈ languageNames) →
      behaviour (meaning (boundBy (tree own))) program = behaviour (meaning []) program

variable {deps : Deps} {lex : List Char → Option (List Token)} {tree : deps.Block → Tree}
  {free : String → List String} {behaviour : (String → Meaning) → String → β}

/-- The prelude binds its servers. -/
theorem boundBy_prelude (hlex : Lua.Lexes lex) (hparser : LuaParser deps lex tree)
    {tools : List ToolSchema} (htools : ∀ tool ∈ tools, Declarable tool) {own : deps.Block}
    (hown : deps.parse (prelude tools) = .ok own) : boundBy (tree own) = servers tools := by
  rw [boundBy, own_statements hlex hparser htools hown, bindings_declarations]

/-- **Only `decimal` can be shadowed.** -/
theorem unshadowed_iff (hlex : Lua.Lexes lex) (hparser : LuaParser deps lex tree)
    (hscoped : Scoped free behaviour) {tools : List ToolSchema}
    (htools : ∀ tool ∈ tools, checkLuaNames tool = .ok ()) :
    Unshadowed deps tree free behaviour tools ↔ ∀ tool ∈ tools, tool.server ≠ "decimal" := by
  have hsorted : ∀ tool ∈ sortTools tools, Declarable tool := by
    intro tool htool
    exact checkLuaNames_eq_ok.mp (htools tool ((List.mem_insertionSort _).mp htool))
  have hbound : ∀ own, deps.parse (build deps tools).prelude = .ok own →
      boundBy (tree own) = servers (sortTools tools) :=
    fun own hown => boundBy_prelude hlex hparser hsorted hown
  constructor
  · intro h tool htool hdecimal
    obtain ⟨own, hown⟩ := parses_prelude hlex hparser hsorted
    apply h.unbound own hown "decimal" (by decide)
    rw [hbound own hown, mem_servers]
    exact ⟨tool, (List.mem_insertionSort _).mpr htool, hdecimal⟩
  · intro h
    have hreserved : ∀ x ∈ languageNames, x ≠ "decimal" → x ∈ dialectNames := by decide
    have hunbound : ∀ own, deps.parse (build deps tools).prelude = .ok own →
        ∀ x ∈ languageNames, x ∉ boundBy (tree own) := by
      intro own hown x hx hmem
      rw [hbound own hown] at hmem
      obtain ⟨tool, htool, rfl⟩ := mem_servers.mp hmem
      -- a reserved name is no server, and the one left over is excluded
      have hmem' : tool ∈ tools := (List.mem_insertionSort _).mp htool
      exact (hsorted tool htool).server_free (hreserved _ hx (h tool hmem'))
    have hmeaning : ∀ own, deps.parse (build deps tools).prelude = .ok own →
        ∀ x ∈ languageNames, meaning (boundBy (tree own)) x = meaning [] x := by
      intro own hown x hx
      rw [meaning, if_neg (hunbound own hown x hx)]
      rfl
    refine ⟨hunbound, hmeaning, ?_⟩
    intro own hown program hfree
    apply hscoped.free_only
    intro x hx
    exact hmeaning own hown x (hfree x hx)

namespace Reference

/-- The names a program mentions. -/
def freeNames (program : String) : List String :=
  ((Lua.lex program.toList).getD []).filterMap fun t =>
    if t.kind = .name then some (String.ofList t.text) else none

/-- A program that tells what its names stand for. -/
def tell (scope : String → Meaning) (program : String) : List Meaning :=
  (freeNames program).map scope

theorem tell_scoped : Scoped freeNames tell where
  free_only _ _ _ h := List.map_congr_left h

/-- A server named like the library. -/
def decimalTool : ToolSchema := { tool objectSchema with server := "decimal" }

end Reference

open Reference in
theorem unshadowed_iff_tools : Unshadowed luaCore id freeNames tell tools :=
  (unshadowed_iff Lua.lexes_lex luaParser tell_scoped tools_checked).mpr (by decide)

open Reference in
/-- A server named `decimal` passes the check, and then `decimal.parse` in the
program is looked up in the table of the server. -/
theorem decimal_shadowed :
    checkLuaNames decimalTool = .ok () ∧
    ¬ Unshadowed luaCore id freeNames tell [decimalTool] ∧
    ∃ own, luaCore.parse (build luaCore [decimalTool]).prelude = .ok own ∧
      "decimal" ∈ boundBy own ∧
      tell (meaning (boundBy own)) "return decimal.parse(\"1\", 0)" ≠
        tell (meaning []) "return decimal.parse(\"1\", 0)" := by
  have hchecked : checkLuaNames decimalTool = .ok () := by decide
  have hdeclarable : ∀ t ∈ [decimalTool], Declarable t := by
    intro t ht
    obtain rfl := List.mem_singleton.mp ht
    exact checkLuaNames_eq_ok.mp hchecked
  obtain ⟨own, hown⟩ := parses_prelude Lua.lexes_lex luaParser hdeclarable
  have hbound : boundBy own = ["decimal"] := boundBy_prelude Lua.lexes_lex luaParser hdeclarable hown
  have hmem : "decimal" ∈ boundBy own := by
    rw [hbound]
    exact List.mem_cons_self
  refine ⟨hchecked, ?_, own, hown, hmem, ?_⟩
  · intro h
    exact h.unbound own hown "decimal" (by decide) hmem
  · rw [hbound]
    decide

end ProvenoGateway
