/-
ProvenoGateway/LuaNames.lean

The check that a tool can be declared in Lua (`engine.rs`): the downstream name
must be a free Lua name, the tool name a field name.
-/
import ProvenoGateway.Description

namespace ProvenoGateway

def luaKeywords : List String := [
  "and", "break", "do", "else", "elseif", "end", "false", "for", "function", "goto", "if", "in",
  "local", "nil", "not", "or", "repeat", "return", "then", "true", "until", "while"]

/-- Names the dialect already gives a meaning to: core's globals and
call-position builtins, and the identifiers its parser rejects. -/
def dialectNames : List String := [
  "tool", "string", "math", "table", "json", "tostring", "tonumber", "type", "select", "unpack",
  "pairs_sorted", "pairs", "ipairs", "pcall", "error", "log", "print", "debug", "io", "os",
  "package", "require", "load", "dofile", "loadfile", "loadstring", "collectgarbage",
  "setmetatable", "getmetatable", "rawget", "rawset", "setfenv", "getfenv", "coroutine"]

/-- An ASCII letter or an underscore. -/
def isNameStart (c : Char) : Bool := c.isAlpha || c = '_'

/-- An ASCII letter or digit or an underscore. -/
def isNameChar (c : Char) : Bool := c.isAlphanum || c = '_'

def isName (s : String) : Bool :=
  (match s.toList with
    | [] => false
    | c :: rest => isNameStart c && rest.all isNameChar) &&
  !luaKeywords.contains s

/-- The prelude declares `local <server> = {}` and `<server>.<tool> = ...`. -/
def checkLuaNames (tool : ToolSchema) : Except String Unit :=
  let qualified := tool.qualifiedName
  if !isName tool.server || dialectNames.contains tool.server then
    .error s!"tool {qualified}: downstream name `{tool.server}` is not usable as a Lua name"
  else if !isName tool.name then
    .error s!"tool {qualified}: tool name `{tool.name}` is not usable as a Lua field name"
  else .ok ()

/-! ### What the check says -/

/-- A tool Lua can declare. -/
structure Declarable (tool : ToolSchema) : Prop where
  server_name : isName tool.server = true
  server_free : tool.server ∉ dialectNames
  tool_name : isName tool.name = true

theorem checkLuaNames_eq_ok {tool : ToolSchema} : checkLuaNames tool = .ok () ↔ Declarable tool := by
  constructor
  · intro h
    unfold checkLuaNames at h
    dsimp only at h
    split at h
    case isTrue => cases h
    case isFalse hserver =>
      split at h
      case isTrue => cases h
      case isFalse hname =>
        simp only [Bool.or_eq_true, Bool.not_eq_true', List.contains_iff_mem, not_or,
          Bool.not_eq_false] at hserver hname
        exact ⟨hserver.1, hserver.2, hname⟩
  · intro h
    unfold checkLuaNames
    rw [if_neg (by simp [h.server_name, h.server_free]), if_neg (by simp [h.tool_name])]

instance decidableCheckLuaNames (tool : ToolSchema) : Decidable (checkLuaNames tool = .ok ()) :=
  decidable_of_iff (isName tool.server = true ∧ tool.server ∉ dialectNames ∧
      isName tool.name = true) <| by
    rw [checkLuaNames_eq_ok]
    exact ⟨fun h => ⟨h.1, h.2.1, h.2.2⟩, fun h => ⟨h.1, h.2, h.3⟩⟩

/-- A name is a word that is not a keyword. -/
theorem isName_iff {s : String} :
    isName s = true ↔ (∃ c rest, s.toList = c :: rest ∧ isNameStart c = true ∧
      ∀ d ∈ rest, isNameChar d = true) ∧ s ∉ luaKeywords := by
  unfold isName
  cases hs : s.toList with
  | nil => simp
  | cons c rest => simp [and_assoc]

end ProvenoGateway
