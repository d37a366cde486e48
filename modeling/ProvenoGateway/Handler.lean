/-
ProvenoGateway/Handler.lean

The MCP requests of an authenticated principal (`server.rs`, `ServerHandler for
Gateway`), and the way of a request through the bearer layer to them.

What the arguments of a tool call may be is said twice in the source: by the
schema that `tools/list` advertises, and by the derived reader of the
arguments.  The two agree, except that the reader takes a null for an optional
string that is not there (`call_as_advertised`).

The MCP transport is third-party: what request a body holds and how an answer
is sent back are arguments, and so is serde's text for arguments it cannot
read.
-/
import ProvenoGateway.Bearer
import ProvenoGateway.Integrity
import ProvenoGateway.Schema
import ProvenoGateway.Server

namespace ProvenoGateway

open Program

def ErrorData.invalidParams (message : String) : ErrorData := ⟨-32602, message⟩

def ErrorData.resourceNotFound (message : String) : ErrorData := ⟨-32002, message⟩

def CallToolResult.success (content : List ContentBlock) : CallToolResult where
  content := content
  structuredContent := none
  isError := some false
  meta_ := none

structure Resource where
  uri : String
  name : String
  description : String
  mimeType : String

structure Prompt where
  name : String
  description : String

/-- A request, as the transport has read it. -/
inductive McpRequest
  | listTools
  | callTool (params : CallToolRequestParams)
  | listResources
  | readResource (uri : String)
  | listPrompts
  | getPrompt (name : String)

inductive McpResult
  | tools (tools : List Tool)
  | called (result : CallToolResult)
  | resources (resources : List Resource)
  | contents (uri mimeType text : String)
  | prompts (prompts : List Prompt)
  | userMessage (text : String)

namespace Server

def luaGuideUri : String := "proveno://lua-guide"

def luaGuideName : String := "lua-guide"

def luaGuide : String := dialectRules ++ "\n" ++ examplesSection

def luaGuideDescription : String := "The Lua dialect guide and example programs."

def checkDescription : String := "Lint a Lua program against the dialect and your tool API " ++
  "without running it. Returns `ok`, or `line N: message` as an error result."

/-! ### Arguments -/

structure CheckArgs where
  program : String

open Serde in
def ExecuteArgs.fromJson (v : Json) : Option ExecuteArgs := do
  match ← structStrict ["program", "session", "request"] v with
  | [program, session, request] =>
      some {
        program := ← required Json.asStr program
        session := ← optional Json.asStr session
        request := ← optional Json.asStr request }
  | _ => none

open Serde in
def CheckArgs.fromJson (v : Json) : Option CheckArgs := do
  match ← structStrict ["program"] v with
  | [program] => some ⟨← required Json.asStr program⟩
  | _ => none

def executeProperties : List (String × Json) := [
  ("program", JsonSchema.text "The Lua program to run."),
  ("request", JsonSchema.text "The task this program serves, recorded in the trace."),
  ("session", JsonSchema.text "Groups related executions.")]

def executeSchema : List (String × Json) := JsonSchema.closed executeProperties ["program"]

def checkProperties : List (String × Json) :=
  [("program", JsonSchema.text "The Lua program to lint.")]

def checkSchema : List (String × Json) := JsonSchema.closed checkProperties ["program"]

/-! ### The handlers -/

/-- The principal the layer below has put into the request. -/
def principal (authenticated : Option String) : Except ErrorData String :=
  match authenticated with
  | some p => .ok p
  | none => .error (.internalError "request has no authenticated principal")

section Handlers

variable (errorText : String → Json → String)

/-- Arguments that are not there are read as those of an empty object. -/
def args {T : Type} (read : Json → Option T) (params : CallToolRequestParams) :
    Except ErrorData T :=
  let value := Json.obj (params.arguments.getD [])
  match read value with
  | some a => .ok a
  | none =>
      let e := errorText params.name value
      .error (.invalidParams s!"{params.name}: invalid arguments: {e}")

/-- What `check` answers. -/
def check (deps : Deps) (engine : Engine) (p : String) (a : CheckArgs) :
    Gateway (Except ErrorData CallToolResult) :=
  match engine.check deps p a.program with
  | .ok () => pure (.ok (.success [.text "ok"]))
  | .lint e => pure (.ok (.error [.text e.display]))
  | .panic message => panicWith message

def callTool (deps : Deps) (engine : Engine) (authenticated : Option String)
    (params : CallToolRequestParams) : Gateway (Except ErrorData CallToolResult) :=
  match principal authenticated with
  | .error e => pure (.error e)
  | .ok p =>
      if params.name = "execute" then
        match args errorText ExecuteArgs.fromJson params with
        | .error e => pure (.error e)
        | .ok a => execute deps engine p a
      else if params.name = "check" then
        match args errorText CheckArgs.fromJson params with
        | .error e => pure (.error e)
        | .ok a => check deps engine p a
      else pure (.error (.invalidParams s!"unknown tool `{params.name}`"))

def listTools (deps : Deps) (engine : Engine) (authenticated : Option String) :
    Except ErrorData (List Tool) := do
  let p ← principal authenticated
  .ok [⟨"execute", some (engine.descriptionFor deps p).text, executeSchema, none⟩,
    ⟨"check", some checkDescription, checkSchema, none⟩]

def readResource (uri : String) : Except ErrorData McpResult :=
  if uri ≠ luaGuideUri then .error (.resourceNotFound s!"unknown resource `{uri}`")
  else .ok (.contents luaGuideUri "text/markdown" luaGuide)

def getPrompt (name : String) : Except ErrorData McpResult :=
  if name ≠ luaGuideName then .error (.invalidParams s!"unknown prompt `{name}`")
  else .ok (.userMessage luaGuide)

/-- Any request, for whom it was authenticated as. -/
def handle (deps : Deps) (engine : Engine) (authenticated : Option String) :
    McpRequest → Gateway (Except ErrorData McpResult)
  | .listTools => pure ((listTools deps engine authenticated).map McpResult.tools)
  | .callTool params => do
      let result ← callTool errorText deps engine authenticated params
      pure (result.map .called)
  | .listResources =>
      pure (.ok (.resources [⟨luaGuideUri, luaGuideName, luaGuideDescription, "text/markdown"⟩]))
  | .readResource uri => pure (readResource uri)
  | .listPrompts => pure (.ok (.prompts [⟨luaGuideName, luaGuideDescription⟩]))
  | .getPrompt name => pure (getPrompt name)

/-- A request over HTTP: `decode` reads its body, `reply` is what is sent
back. -/
def serve {HeaderValue : Type} (toStr : HeaderValue → Option String)
    (decode : ByteArray → Option McpRequest)
    (reply : Option (Except ErrorData McpResult) → HttpResponse) (deps : Deps) (tokens : Tokens)
    (engine : Engine) (request : HttpRequest HeaderValue) : Gateway HttpResponse :=
  requireBearer toStr deps tokens request fun request =>
    match decode request.body with
    | none => pure (reply none)
    | some rpc => do
        let result ← handle errorText deps engine request.principal rpc
        pure (reply (some result))

end Handlers

/-! ### Schema and reader -/

section Readers

open Serde

variable {members : List (String × Json)}

/-- The optional arguments that are null. -/
def withoutNulls (optional : List String) (members : List (String × Json)) :
    List (String × Json) :=
  members.filter fun m => !(optional.contains m.1 && m.2.isNull)

/-- The string under a name, if there is one. -/
def stringAt (members : List (String × Json)) (name : String) : Option String :=
  (Json.lookup members name).bind Json.asStr

theorem lookup_withoutNulls (h : (members.map Prod.fst).Nodup) (optional : List String)
    (name : String) : Json.lookup (withoutNulls optional members) name =
      (Json.lookup members name).filter fun v => !(optional.contains name && v.isNull) := by
  induction members with
  | nil => rfl
  | cons m members ih =>
    obtain ⟨key, v⟩ := m
    rw [List.map_cons, List.nodup_cons] at h
    rw [withoutNulls, List.filter_cons, ← withoutNulls, Json.lookup_cons]
    by_cases hkey : key = name
    · subst hkey
      -- the name does not come again
      have hnone : Json.lookup members key = none := by
        rw [Json.lookup, Option.map_eq_none_iff, List.find?_eq_none]
        intro m hm heq
        have hsame : m.1 = key := beq_iff_eq.mp heq
        have hmem : m.1 ∈ members.map Prod.fst := List.mem_map_of_mem hm
        exact h.1 (by rwa [hsame] at hmem)
      have hrest := ih h.2
      rw [hnone] at hrest
      rw [if_pos rfl]
      split
      case isTrue hkept => rw [Json.lookup_cons, if_pos rfl, Option.filter_some, if_pos hkept]
      case isFalse hdropped => rw [hrest, Option.filter_some, if_neg hdropped]; rfl
    · rw [if_neg hkey]
      split
      case isTrue => rw [Json.lookup_cons, if_neg hkey, ih h.2]
      case isFalse => exact ih h.2

theorem required_asStr_iff {v : Option Json} {s : String} :
    required Json.asStr v = some s ↔ v = some (.str s) := by
  constructor
  · exact required_asStr
  · rintro rfl
    rfl

/-- A string or a null or nothing. -/
theorem optional_asStr_iff {v : Option Json} {s : Option String} :
    Serde.optional Json.asStr v = some s ↔
      (∀ x, v = some x → x.isNull = false → ∃ t, x = .str t) ∧ v.bind Json.asStr = s := by
  rcases v with - | v
  · simp [Serde.optional]
  · cases v <;> simp [Serde.optional, Serde.option, Json.isNull, Json.asStr]

/-- The fields of a strict struct, read from members of different names. -/
theorem structStrict_obj (h : (members.map Prod.fst).Nodup) (names : List String)
    {fields : List (Option Json)} :
    structStrict names (.obj members) = some fields ↔
      (∀ m ∈ members, m.1 ∈ names) ∧ fields = names.map (Json.lookup members) := by
  have hmember : member members = fun name => some (Json.lookup members name) :=
    funext (member_of_nodup h)
  have hfields : names.mapM (member members) = some (names.map (Json.lookup members)) := by
    rw [hmember]
    exact List.mapM_pure
  have hall : (members.all fun m => names.contains m.1) = true ↔ ∀ m ∈ members, m.1 ∈ names := by
    simp only [List.all_eq_true, List.contains_iff_mem]
  show (if members.all fun m => names.contains m.1 then names.mapM (member members) else none) =
    some fields ↔ _
  rw [hfields]
  by_cases hnames : ∀ m ∈ members, m.1 ∈ names
  · rw [if_pos (hall.mpr hnames), Option.some_inj, eq_comm]
    exact (and_iff_right hnames).symm
  · rw [if_neg (mt hall.mp hnames)]
    exact iff_of_false (by simp) fun hread => hnames hread.1

/-- What the reader of `execute` reads. -/
theorem executeArgs_iff (h : (members.map Prod.fst).Nodup) {a : ExecuteArgs} :
    ExecuteArgs.fromJson (.obj members) = some a ↔
      (∀ m ∈ members, m.1 ∈ ["program", "session", "request"]) ∧
      Json.lookup members "program" = some (.str a.program) ∧
      Serde.optional Json.asStr (Json.lookup members "session") = some a.session ∧
      Serde.optional Json.asStr (Json.lookup members "request") = some a.request := by
  obtain ⟨program, session, request⟩ := a
  rw [ExecuteArgs.fromJson, ← required_asStr_iff]
  constructor
  · intro hread
    obtain ⟨fields, hfields, hread⟩ := Option.bind_eq_some_iff.mp hread
    obtain ⟨hnames, rfl⟩ := (structStrict_obj h _).mp hfields
    obtain ⟨p, hp, hread⟩ := Option.bind_eq_some_iff.mp hread
    obtain ⟨s, hs, hread⟩ := Option.bind_eq_some_iff.mp hread
    obtain ⟨r, hr, hread⟩ := Option.bind_eq_some_iff.mp hread
    cases hread
    exact ⟨hnames, hp, hs, hr⟩
  · rintro ⟨hnames, hp, hs, hr⟩
    refine Option.bind_eq_some_iff.mpr ⟨_, (structStrict_obj h _).mpr ⟨hnames, rfl⟩, ?_⟩
    refine Option.bind_eq_some_iff.mpr ⟨program, hp, ?_⟩
    refine Option.bind_eq_some_iff.mpr ⟨session, hs, ?_⟩
    exact Option.bind_eq_some_iff.mpr ⟨request, hr, rfl⟩

theorem checkArgs_iff (h : (members.map Prod.fst).Nodup) {a : CheckArgs} :
    CheckArgs.fromJson (.obj members) = some a ↔
      (∀ m ∈ members, m.1 ∈ ["program"]) ∧
      Json.lookup members "program" = some (.str a.program) := by
  obtain ⟨program⟩ := a
  rw [CheckArgs.fromJson, ← required_asStr_iff]
  constructor
  · intro hread
    obtain ⟨fields, hfields, hread⟩ := Option.bind_eq_some_iff.mp hread
    obtain ⟨hnames, rfl⟩ := (structStrict_obj h _).mp hfields
    obtain ⟨p, hp, hread⟩ := Option.bind_eq_some_iff.mp hread
    cases hread
    exact ⟨hnames, hp⟩
  · rintro ⟨hnames, hp⟩
    refine Option.bind_eq_some_iff.mpr ⟨_, (structStrict_obj h _).mpr ⟨hnames, rfl⟩, ?_⟩
    exact Option.bind_eq_some_iff.mpr ⟨program, hp, rfl⟩

/-! ### As advertised -/

/-- Arguments that are strings, as a closed schema has them: with these names,
some of them required. -/
structure Texts (names required : List String) (members : List (String × Json)) : Prop where
  named : ∀ m ∈ members, m.1 ∈ names
  text : ∀ name ∈ names, ∀ v, Json.lookup members name = some v → ∃ s, v = .str s
  present : ∀ name ∈ required, (Json.lookup members name).isSome = true

theorem valid_texts (fields : List (String × String)) {required : List String} :
    JsonSchema.valid
        (.obj (JsonSchema.closed (fields.map fun f => (f.1, JsonSchema.text f.2)) required))
        (.obj members) = true ↔ Texts (fields.map Prod.fst) required members := by
  rw [JsonSchema.valid_closed]
  constructor
  · rintro ⟨_, ⟨⟩, hnamed, htext, hpresent⟩
    refine ⟨?_, ?_, hpresent⟩
    · simpa using hnamed
    · intro name hname v hv
      obtain ⟨f, hf, rfl⟩ := List.mem_map.mp hname
      exact JsonSchema.valid_text.mp (htext _ (List.mem_map_of_mem hf) v hv)
  · rintro ⟨hnamed, htext, hpresent⟩
    refine ⟨members, rfl, ?_, ?_, hpresent⟩
    · simpa using hnamed
    · intro p hp v hv
      obtain ⟨f, hf, rfl⟩ := List.mem_map.mp hp
      exact JsonSchema.valid_text.mpr (htext f.1 (List.mem_map_of_mem hf) v hv)

/-- The nulls that are dropped have names of their own. -/
theorem named_withoutNulls {optional names : List String} (hsub : optional ⊆ names) :
    (∀ m ∈ withoutNulls optional members, m.1 ∈ names) ↔ ∀ m ∈ members, m.1 ∈ names := by
  constructor
  · intro h m hm
    by_cases hdropped : m.1 ∈ optional
    · exact hsub hdropped
    · exact h m (List.mem_filter.mpr ⟨hm, by simp [hdropped]⟩)
  · exact fun h m hm => h m (List.mem_filter.mp hm).1

theorem stringAt_eq_some {name s : String} :
    stringAt members name = some s ↔ Json.lookup members name = some (.str s) := by
  rw [stringAt, Option.bind_eq_some_iff]
  constructor
  · rintro ⟨v, hv, hs⟩
    rw [hv, asStr_eq_some hs]
  · exact fun h => ⟨_, h, rfl⟩

theorem executeSchema_iff : JsonSchema.valid (.obj executeSchema) (.obj members) = true ↔
    Texts ["program", "request", "session"] ["program"] members :=
  valid_texts [("program", "The Lua program to run."),
    ("request", "The task this program serves, recorded in the trace."),
    ("session", "Groups related executions.")]

theorem checkSchema_iff : JsonSchema.valid (.obj checkSchema) (.obj members) = true ↔
    Texts ["program"] ["program"] members :=
  valid_texts [("program", "The Lua program to lint.")]

/-- What the schema of `execute` accepts is what its reader reads, but for
optional strings that are null. -/
theorem execute_as_advertised (h : (members.map Prod.fst).Nodup) {a : ExecuteArgs} :
    ExecuteArgs.fromJson (.obj members) = some a ↔
      JsonSchema.valid (.obj executeSchema)
          (.obj (withoutNulls ["session", "request"] members)) = true ∧
        stringAt members "program" = some a.program ∧
        stringAt members "session" = a.session ∧ stringAt members "request" = a.request := by
  rw [executeArgs_iff h, stringAt_eq_some, executeSchema_iff]
  have hlookup := lookup_withoutNulls h ["session", "request"]
  constructor
  · rintro ⟨hnamed, hprogram, hsession, hrequest⟩
    obtain ⟨hsession, hs⟩ := optional_asStr_iff.mp hsession
    obtain ⟨hrequest, hr⟩ := optional_asStr_iff.mp hrequest
    refine ⟨⟨?_, ?_, ?_⟩, hprogram, hs, hr⟩
    · refine (named_withoutNulls (by simp)).mpr fun m hm => ?_
      simpa [or_comm] using hnamed m hm
    · intro name hname v hv
      rw [hlookup, Option.filter_eq_some_iff] at hv
      obtain ⟨hv, hkept⟩ := hv
      simp only [List.mem_cons, List.not_mem_nil, or_false] at hname
      rcases hname with rfl | rfl | rfl
      · exact ⟨a.program, Option.some.inj (hv.symm.trans hprogram)⟩
      · exact hrequest v hv (by simpa using hkept)
      · exact hsession v hv (by simpa using hkept)
    · simp [hlookup, hprogram]
  · rintro ⟨⟨hnamed, htext, -⟩, hprogram, hs, hr⟩
    -- an optional argument that is not null is kept, so it is a string
    have hkept : ∀ name ∈ ["session", "request"], ∀ v, Json.lookup members name = some v →
        v.isNull = false → ∃ s, v = .str s := by
      intro name hname v hv hnull
      have hallowed : name ∈ ["program", "request", "session"] := by
        rcases List.mem_pair.mp hname with rfl | rfl <;> simp
      refine htext name hallowed v ?_
      rw [hlookup, hv, Option.filter_some, hnull, Bool.and_false]
      rfl
    refine ⟨fun m hm => ?_, hprogram, ?_, ?_⟩
    · have hm := (named_withoutNulls (by simp)).mp hnamed m hm
      simpa [or_comm] using hm
    · exact optional_asStr_iff.mpr ⟨hkept "session" (by simp), hs⟩
    · exact optional_asStr_iff.mpr ⟨hkept "request" (by simp), hr⟩

theorem check_as_advertised (h : (members.map Prod.fst).Nodup) {a : CheckArgs} :
    CheckArgs.fromJson (.obj members) = some a ↔
      JsonSchema.valid (.obj checkSchema) (.obj members) = true ∧
        stringAt members "program" = some a.program := by
  rw [checkArgs_iff h, stringAt_eq_some, checkSchema_iff]
  constructor
  · rintro ⟨hnamed, hprogram⟩
    refine ⟨⟨hnamed, ?_, ?_⟩, hprogram⟩
    · intro name hname v hv
      cases List.mem_singleton.mp hname
      exact ⟨a.program, Option.some.inj (hv.symm.trans hprogram)⟩
    · simp [hprogram]
  · rintro ⟨⟨hnamed, -, -⟩, hprogram⟩
    exact ⟨hnamed, hprogram⟩

/-- A program is there whenever the arguments have the strings they need. -/
theorem Texts.program {names : List String} (hname : "program" ∈ names)
    (h : Texts names ["program"] members) :
    ∃ program, stringAt members "program" = some program := by
  obtain ⟨v, hv⟩ := Option.isSome_iff_exists.mp (h.present "program" List.mem_cons_self)
  obtain ⟨program, rfl⟩ := h.text "program" hname v hv
  exact ⟨program, stringAt_eq_some.mpr hv⟩

/-- Dropping the nulls leaves the program alone. -/
theorem stringAt_withoutNulls (h : (members.map Prod.fst).Nodup) {optional : List String}
    {name : String} (hname : name ∉ optional) :
    stringAt (withoutNulls optional members) name = stringAt members name := by
  have hkept : (fun v : Json => !(optional.contains name && v.isNull)) = fun _ => true := by
    funext v
    simp [hname]
  rw [stringAt, lookup_withoutNulls h, hkept, stringAt]
  rcases Json.lookup members name with - | v <;> rfl

end Readers

/-- The arguments are as the schema says under which the tool is listed, its
optional arguments apart that are null. -/
def Admitted (deps : Deps) (engine : Engine) (p : String) (params : CallToolRequestParams) : Prop :=
  ∃ tools tool, listTools deps engine (some p) = .ok tools ∧ tool ∈ tools ∧
    tool.name = params.name ∧
    JsonSchema.valid (.obj tool.inputSchema)
      (.obj (withoutNulls (JsonSchema.optionalNames tool.inputSchema)
        (params.arguments.getD []))) = true

section Calls

variable {deps : Deps} {engine : Engine} {p : String} {params : CallToolRequestParams}

theorem optionalNames_execute :
    JsonSchema.optionalNames executeSchema = ["request", "session"] := by
  simp [executeSchema, executeProperties, JsonSchema.closed, JsonSchema.optionalNames,
    JsonSchema.propertyNames, JsonSchema.requiredNames, JsonSchema.names, Json.lookup_cons,
    Json.asStr]

theorem optionalNames_check : JsonSchema.optionalNames checkSchema = [] := by
  simp [checkSchema, checkProperties, JsonSchema.closed, JsonSchema.optionalNames,
    JsonSchema.propertyNames, JsonSchema.requiredNames, JsonSchema.names, Json.lookup_cons,
    Json.asStr]

theorem withoutNulls_nil (members : List (String × Json)) : withoutNulls [] members = members := by
  simp [withoutNulls]

theorem withoutNulls_comm (a b : String) (members : List (String × Json)) :
    withoutNulls [a, b] members = withoutNulls [b, a] members := by
  simp [withoutNulls, Bool.or_comm]

/-- There are two tools. -/
theorem admitted_iff :
    Admitted deps engine p params ↔
      (params.name = "execute" ∧ JsonSchema.valid (.obj executeSchema)
        (.obj (withoutNulls ["session", "request"] (params.arguments.getD []))) = true) ∨
      (params.name = "check" ∧ JsonSchema.valid (.obj checkSchema)
        (.obj (params.arguments.getD [])) = true) := by
  constructor
  · rintro ⟨tools, tool, htools, htool, hname, hvalid⟩
    cases htools
    rcases List.mem_pair.mp htool with rfl | rfl
    · refine Or.inl ⟨hname.symm, ?_⟩
      rwa [optionalNames_execute, withoutNulls_comm] at hvalid
    · refine Or.inr ⟨hname.symm, ?_⟩
      rwa [optionalNames_check, withoutNulls_nil] at hvalid
  · rintro (⟨hname, hvalid⟩ | ⟨hname, hvalid⟩)
    · refine ⟨_, _, rfl, List.mem_cons_self, hname.symm, ?_⟩
      rwa [optionalNames_execute, withoutNulls_comm]
    · refine ⟨_, _, rfl, List.mem_cons_of_mem _ List.mem_cons_self, hname.symm, ?_⟩
      rwa [optionalNames_check, withoutNulls_nil]

theorem callTool_execute {errorText : String → Json → String} {a : ExecuteArgs}
    (hname : params.name = "execute")
    (hread : ExecuteArgs.fromJson (.obj (params.arguments.getD [])) = some a) :
    callTool errorText deps engine (some p) params = execute deps engine p a := by
  have hargs : args errorText ExecuteArgs.fromJson params = .ok a := by rw [args, hread]
  simp only [callTool, principal]
  rw [if_pos hname, hargs]

theorem callTool_check {errorText : String → Json → String} {a : CheckArgs}
    (hname : params.name = "check")
    (hread : CheckArgs.fromJson (.obj (params.arguments.getD [])) = some a) :
    callTool errorText deps engine (some p) params = check deps engine p a := by
  have hne : params.name ≠ "execute" := by rw [hname]; decide
  have hargs : args errorText CheckArgs.fromJson params = .ok a := by rw [args, hread]
  simp only [callTool, principal]
  rw [if_neg hne, if_pos hname, hargs]

/-- Arguments of either tool that its reader does not read, and other tools. -/
theorem callTool_invalid (errorText : String → Json → String)
    (hexecute : params.name = "execute" →
      ExecuteArgs.fromJson (.obj (params.arguments.getD [])) = none)
    (hcheck : params.name = "check" →
      CheckArgs.fromJson (.obj (params.arguments.getD [])) = none) :
    ∃ message, callTool errorText deps engine (some p) params =
      pure (.error (.invalidParams message)) := by
  simp only [callTool, principal]
  by_cases h : params.name = "execute"
  · rw [if_pos h, args, hexecute h]
    exact ⟨_, rfl⟩
  · rw [if_neg h]
    by_cases h' : params.name = "check"
    · rw [if_pos h', args, hcheck h']
      exact ⟨_, rfl⟩
    · rw [if_neg h']
      exact ⟨_, rfl⟩

/-- **A call is handled as it is advertised.**  Arguments the listed schema of
the tool admits, nulls for optional ones apart, reach the engine, for the
principal of the request and as they are; all other calls, to whatever name,
are answered with `invalid_params` and do nothing. -/
theorem call_as_advertised (errorText : String → Json → String)
    (h : ((params.arguments.getD []).map Prod.fst).Nodup) :
    (Admitted deps engine p params →
      ∃ program, stringAt (params.arguments.getD []) "program" = some program ∧
        ((params.name = "execute" ∧ callTool errorText deps engine (some p) params =
            execute deps engine p ⟨program, stringAt (params.arguments.getD []) "session",
              stringAt (params.arguments.getD []) "request"⟩) ∨
          (params.name = "check" ∧ callTool errorText deps engine (some p) params =
            check deps engine p ⟨program⟩))) ∧
    (¬ Admitted deps engine p params →
      ∃ message, callTool errorText deps engine (some p) params =
        pure (.error (.invalidParams message))) := by
  constructor
  · intro hadmitted
    rcases admitted_iff.mp hadmitted with ⟨hname, hvalid⟩ | ⟨hname, hvalid⟩
    · obtain ⟨program, hprogram⟩ := (executeSchema_iff.mp hvalid).program List.mem_cons_self
      rw [stringAt_withoutNulls h (by simp)] at hprogram
      refine ⟨program, hprogram, Or.inl ⟨hname, callTool_execute hname ?_⟩⟩
      exact (execute_as_advertised h).mpr ⟨hvalid, hprogram, rfl, rfl⟩
    · obtain ⟨program, hprogram⟩ := (checkSchema_iff.mp hvalid).program List.mem_cons_self
      refine ⟨program, hprogram, Or.inr ⟨hname, callTool_check hname ?_⟩⟩
      exact (check_as_advertised h).mpr ⟨hvalid, hprogram⟩
  · intro hnot
    -- what the reader reads is what the schema admits
    refine callTool_invalid errorText (fun hname => ?_) (fun hname => ?_)
    · rw [Option.eq_none_iff_forall_ne_some]
      intro a hread
      exact hnot (admitted_iff.mpr (Or.inl ⟨hname, ((execute_as_advertised h).mp hread).1⟩))
    · rw [Option.eq_none_iff_forall_ne_some]
      intro a hread
      exact hnot (admitted_iff.mpr (Or.inr ⟨hname, ((check_as_advertised h).mp hread).1⟩))

/-- A program, no session, and a request. -/
def askParams : CallToolRequestParams :=
  ⟨"execute", some [("program", .str "return s.t{}"), ("session", .null), ("request", .str "ask")]⟩

theorem ask_as_advertised : Admitted reference Reference.engine "alice" askParams ∧
    callTool (fun _ _ => "") reference Reference.engine (some "alice") askParams =
      execute reference Reference.engine "alice" ⟨"return s.t{}", none, some "ask"⟩ := by
  have hadmitted : Admitted reference Reference.engine "alice" askParams := by
    refine admitted_iff.mpr (Or.inl ⟨rfl, executeSchema_iff.mpr ⟨?_, ?_, ?_⟩⟩) <;>
      simp [askParams, withoutNulls, Json.isNull, Json.lookup_cons]
  obtain ⟨program, hprogram, hcalled⟩ :=
    (call_as_advertised (fun _ _ => "") (by simp [askParams])).1 hadmitted
  have hsame : program = "return s.t{}" := Option.some.inj hprogram.symm
  subst hsame
  rcases hcalled with ⟨-, hcalled⟩ | ⟨hname, -⟩
  · exact ⟨hadmitted, hcalled⟩
  · exact absurd hname (by decide)

end Calls

end Server

end ProvenoGateway
