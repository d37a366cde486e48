/-
ProvenoGateway/DescriptionOrder.lean

The description of a set of tools, whatever order they are listed in.

The tools are sorted by qualified name, the properties of a schema by name,
and `required` is only asked what it contains, so the order of none of them
shows, but for one: tools of one qualified name keep the order they came in.
They stand next to each other, so the description is that of the set exactly
if any two of them can change places in the text (`build_order_free_iff`).
The prelude has nothing of a tool but its names.
-/
import ProvenoGateway.Engine
import ProvenoGateway.Mediation
import ProvenoGateway.SortBy
import ProvenoGateway.ToolLines

namespace ProvenoGateway

/-! ### Listing a schema again -/

/-- The entries of `required`. -/
def requiredEntries (schema : Json) : List Json :=
  ((schema.get "required").bind Json.asArray).getD []

/-- The properties, with the schemas they have. -/
def propertyEntries (schema : Json) : List (String × Json) :=
  ((schema.get "properties").bind Json.asObject).getD []

/-- What is rendered of the schema of a property is its type. -/
def declared (p : String × Json) : String × Option String := (p.1, declaredType p.2)

/-- The entries of `required` and the properties in another order.  What is
listed again inside a property leaves it its type. -/
inductive SchemaRelisted : Json → Json → Prop
  | same (schema : Json) : SchemaRelisted schema schema
  | relisted {schema schema' : Json} :
      ((propertyEntries schema).map Prod.fst).Nodup →
      ((propertyEntries schema).map declared).Perm ((propertyEntries schema').map declared) →
      (requiredEntries schema).Perm (requiredEntries schema') →
      SchemaRelisted schema schema'

/-- Name, type and whether it is required: what is rendered of a property. -/
def propertyParts (p : String × Json × Bool) : String × Option String × Bool :=
  (p.1, declaredType p.2.1, p.2.2)

/-- A property as `required` and its own schema have it. -/
def partsOf (required : List String) (d : String × Option String) :
    String × Option String × Bool := (d.1, d.2, required.contains d.1)

theorem map_propertyParts (schema : Json) :
    (sortedProperties schema).map propertyParts =
      sortBy Prod.fst (((propertyEntries schema).map declared).map
        (partsOf ((requiredEntries schema).filterMap Json.asStr))) := by
  have hrequired : (((schema.get "required").bind Json.asArray).map
      fun r => r.filterMap Json.asStr).getD [] = (requiredEntries schema).filterMap Json.asStr := by
    unfold requiredEntries
    rcases (schema.get "required").bind Json.asArray with - | entries <;> rfl
  have hprops : ∀ required : List String,
      ((((schema.get "properties").bind Json.asObject).map
        fun p => p.map fun m => (m.1, m.2, required.contains m.1)).getD []).map propertyParts =
        ((propertyEntries schema).map declared).map (partsOf required) := by
    intro required
    unfold propertyEntries
    rcases (schema.get "properties").bind Json.asObject with - | members
    · rfl
    · rw [Option.map_some, Option.getD_some, Option.getD_some, List.map_map, List.map_map]
      rfl
  unfold sortedProperties
  rw [hrequired, ← hprops]
  exact map_sortBy propertyParts Prod.fst _

theorem SchemaRelisted.parts {schema schema' : Json} (h : SchemaRelisted schema schema') :
    (sortedProperties schema).map propertyParts = (sortedProperties schema').map propertyParts := by
  cases h with
  | same => rfl
  | relisted hnodup hprops hrequired =>
    have hcontains : partsOf ((requiredEntries schema).filterMap Json.asStr) =
        partsOf ((requiredEntries schema').filterMap Json.asStr) := by
      funext d
      have hmem := (hrequired.filterMap Json.asStr).mem_iff (a := d.1)
      rw [partsOf, partsOf, Prod.mk.injEq, Prod.mk.injEq]
      refine ⟨rfl, rfl, ?_⟩
      rw [Bool.eq_iff_iff, List.contains_iff_mem, List.contains_iff_mem, hmem]
    rw [map_propertyParts, map_propertyParts, ← hcontains]
    refine sortBy_eq_of_perm (hprops.map _) ?_
    -- names are distinct, so a part is the part of its name
    have hnames : ((((propertyEntries schema).map declared).map
        (partsOf ((requiredEntries schema).filterMap Json.asStr))).map Prod.fst).Nodup := by
      rw [List.map_map, List.map_map]
      exact hnodup
    exact fun a ha b hb hab => List.inj_on_of_nodup_map hnames ha hb hab

/-! ### Listing a tool again -/

/-- The same tool, with its schemas listed again. -/
structure ToolRelisted (tool tool' : ToolSchema) : Prop where
  server : tool.server = tool'.server
  name : tool.name = tool'.name
  description : tool.description = tool'.description
  input : SchemaRelisted tool.inputSchema tool'.inputSchema
  output : Option.Rel SchemaRelisted tool.outputSchema tool'.outputSchema

/-- The tools in another order, with their schemas listed again. -/
def Relisted (tools tools' : List ToolSchema) : Prop :=
  ∃ reordered, tools.Perm reordered ∧ List.Forall₂ ToolRelisted reordered tools'

theorem ToolRelisted.refl (tool : ToolSchema) : ToolRelisted tool tool := by
  refine ⟨rfl, rfl, rfl, .same _, ?_⟩
  cases tool.outputSchema with
  | none => exact .none
  | some schema => exact .some (.same schema)

theorem Relisted.of_perm {tools tools' : List ToolSchema} (h : tools.Perm tools') :
    Relisted tools tools' :=
  ⟨tools', h, List.forall₂_same.mpr fun tool _ => ToolRelisted.refl tool⟩

/-- The type of an argument, from the one the schema declares. -/
def argumentTypeOf : Option String → Option String
  | none => none
  | some "integer" => some "integer"
  | some "number" => some "integer"
  | some other => simpleType other

/-- The type of a returned property, from the one the schema declares. -/
def returnTypeOf : Option String → Option String
  | none => none
  | some "integer" => some "integer"
  | some "number" => some "integer|string(decimal)"
  | some other => simpleType other

/-- An argument, from what is rendered of it. -/
def argumentOf (p : String × Option String × Bool) : String :=
  typed (p.1 ++ if p.2.2 then "" else "?") (argumentTypeOf p.2.1)

/-- A returned property, from what is rendered of it. -/
def fieldOf (p : String × Option String × Bool) : String := typed p.1 (returnTypeOf p.2.1)

theorem map_argumentText (schema : Json) :
    (sortedProperties schema).map argumentText =
      ((sortedProperties schema).map propertyParts).map argumentOf := by
  rw [List.map_map]
  rfl

theorem fixedActorNote_eq (schema : Json) :
    fixedActorNote schema =
      (directedPairs.find? fun pair =>
        (((sortedProperties schema).map propertyParts).map Prod.fst).contains pair.1 &&
          !(((sortedProperties schema).map propertyParts).map Prod.fst).contains pair.2).map
        Prod.snd := by
  rw [List.map_map]
  rfl

/-- The shape of a result, from what is rendered of its properties. -/
def shapeOf : List (String × Option String × Bool) → String
  | [] => "table"
  | parts => "\x7b " ++ Text.join ", " (parts.map fieldOf) ++ " \x7d"

theorem returnShape_eq (tool : ToolSchema) :
    returnShape tool = (tool.outputSchema.map fun schema =>
      shapeOf ((sortedProperties schema).map propertyParts)).getD "table" := by
  unfold returnShape
  rcases tool.outputSchema with - | schema
  · rfl
  · show _ = shapeOf ((sortedProperties schema).map propertyParts)
    rcases hprops : sortedProperties schema with - | ⟨p, props⟩
    · simp only [hprops, List.map_nil, shapeOf]
    · simp only [hprops, List.map_cons, shapeOf, List.map_map]
      rfl

namespace ToolRelisted

variable {tool tool' : ToolSchema}

theorem qualifiedName_eq (h : ToolRelisted tool tool') :
    tool.qualifiedName = tool'.qualifiedName := by
  rw [ToolSchema.qualifiedName, ToolSchema.qualifiedName, h.server, h.name]

theorem returnShape_eq (h : ToolRelisted tool tool') : returnShape tool = returnShape tool' := by
  have hparts : ∀ {output output' : Option Json}, Option.Rel SchemaRelisted output output' →
      (output.map fun schema => shapeOf ((sortedProperties schema).map propertyParts)) =
        output'.map fun schema => shapeOf ((sortedProperties schema).map propertyParts) := by
    intro output output' hrel
    cases hrel with
    | none => rfl
    | some hschema => rw [Option.map_some, Option.map_some, hschema.parts]
  rw [ProvenoGateway.returnShape_eq, ProvenoGateway.returnShape_eq, hparts h.output]

theorem commentLine_eq (h : ToolRelisted tool tool') : commentLine tool = commentLine tool' := by
  have hdescription : descriptionText tool = descriptionText tool' := by
    rw [descriptionText, descriptionText, h.description]
  have hnote : actorNote tool = actorNote tool' := by
    rw [actorNote, actorNote, fixedActorNote_eq, fixedActorNote_eq, h.input.parts]
  rw [commentLine, commentLine, hdescription, hnote, h.returnShape_eq]

theorem signatureLine_eq (h : ToolRelisted tool tool') :
    signatureLine tool = signatureLine tool' := by
  unfold signatureLine
  rw [map_argumentText, map_argumentText, h.input.parts, h.qualifiedName_eq]

theorem renderTool_eq (h : ToolRelisted tool tool') : renderTool tool = renderTool tool' := by
  rw [ProvenoGateway.renderTool_eq, ProvenoGateway.renderTool_eq, h.commentLine_eq,
    h.signatureLine_eq]

end ToolRelisted

namespace Relisted

variable {tools tools' : List ToolSchema}

/-- What is the same of a tool listed again is a matter of order in the list. -/
theorem map_perm {β : Type} {f : ToolSchema → β} (hf : ∀ t t', ToolRelisted t t' → f t = f t')
    (h : Relisted tools tools') : (tools.map f).Perm (tools'.map f) := by
  obtain ⟨reordered, hperm, hsame⟩ := h
  have hmap : reordered.map f = tools'.map f := by
    rw [← List.forall₂_eq_eq_eq, List.forall₂_map_left_iff, List.forall₂_map_right_iff]
    exact hsame.imp hf
  rw [← hmap]
  exact hperm.map f

end Relisted

/-! ### The prelude -/

theorem map_qualifiedName_sortTools (tools : List ToolSchema) :
    (sortTools tools).map ToolSchema.qualifiedName =
      sortBy id (tools.map ToolSchema.qualifiedName) :=
  map_sortBy ToolSchema.qualifiedName id tools

/-- The prelude, from the names. -/
theorem prelude_eq (tools : List ToolSchema) :
    prelude tools =
      Text.concat (((sortBy id (tools.map ToolSchema.server)).destutter (· ≠ ·)).map fun server =>
        s!"local {server} = \x7b\x7d\n") ++
      Text.concat ((tools.map ToolSchema.qualifiedName).map fun q =>
        s!"{q} = function(args) return tool.call(\"{q}\", args) end\n") := by
  rw [List.map_map]
  rfl

theorem Relisted.prelude_eq {tools tools' : List ToolSchema} (h : Relisted tools tools') :
    prelude (sortTools tools) = prelude (sortTools tools') := by
  have hservers : sortBy id ((sortTools tools).map ToolSchema.server) =
      sortBy id ((sortTools tools').map ToolSchema.server) := by
    refine sortBy_eq_of_perm ?_ fun a _ b _ hab => hab
    refine ((sortBy_perm tools).map ToolSchema.server).trans ?_
    exact (h.map_perm fun t t' ht => ht.server).trans
      ((sortBy_perm tools').map ToolSchema.server).symm
  have hnames : (sortTools tools).map ToolSchema.qualifiedName =
      (sortTools tools').map ToolSchema.qualifiedName := by
    rw [map_qualifiedName_sortTools, map_qualifiedName_sortTools]
    refine sortBy_eq_of_perm ?_ fun a _ b _ hab => hab
    exact h.map_perm fun t t' ht => ht.qualifiedName_eq
  rw [ProvenoGateway.prelude_eq, ProvenoGateway.prelude_eq, hservers, hnames]

/-! ### The text -/

/-- Any two tools of one qualified name are rendered alike in either order. -/
def Interchangeable (tools : List ToolSchema) : Prop :=
  ∀ t ∈ tools, ∀ u ∈ tools, t.qualifiedName = u.qualifiedName →
    renderTool t ++ renderTool u = renderTool u ++ renderTool t

/-- The characters of a rendered tool. -/
def rendered (tool : ToolSchema) : List Char := (renderTool tool).toList

theorem toList_toolSection (tools : List ToolSchema) :
    (toolSection tools).toList = (sortBy ToolSchema.qualifiedName tools).flatMap rendered := by
  rw [toolSection, Text.toList_concat, List.flatMap_map]
  rfl

theorem interchangeable_iff {tools : List ToolSchema} :
    Interchangeable tools ↔
      ∀ t ∈ tools, ∀ u ∈ tools, t.qualifiedName = u.qualifiedName → Swaps rendered t u := by
  have hswaps : ∀ t u : ToolSchema, Swaps rendered t u ↔
      renderTool t ++ renderTool u = renderTool u ++ renderTool t := by
    intro t u
    rw [Swaps, rendered, rendered, ← String.toList_append, ← String.toList_append,
      String.toList_inj]
  simp only [hswaps]
  rfl

/-- A tool by its name and its rendering. -/
def nameAndText (tool : ToolSchema) : String × List Char := (tool.qualifiedName, rendered tool)

theorem flatMap_rendered (tools : List ToolSchema) :
    (sortBy ToolSchema.qualifiedName tools).flatMap rendered =
      (sortBy Prod.fst (tools.map nameAndText)).flatMap Prod.snd := by
  have htext : ∀ l : List ToolSchema, (l.map nameAndText).flatMap Prod.snd = l.flatMap rendered := by
    intro l
    rw [List.flatMap_map]
    simp only [nameAndText]
  have hname : Prod.fst ∘ nameAndText = ToolSchema.qualifiedName := by
    funext tool
    simp only [Function.comp_apply, nameAndText]
  rw [← map_sortBy nameAndText Prod.fst tools, htext, hname]

theorem toolSection_eq {tools tools' : List ToolSchema} (hsame : Interchangeable tools)
    (h : Relisted tools tools') : toolSection tools' = toolSection tools := by
  obtain ⟨reordered, hperm, hrelisted⟩ := h
  have hmap : reordered.map nameAndText = tools'.map nameAndText := by
    rw [← List.forall₂_eq_eq_eq, List.forall₂_map_left_iff, List.forall₂_map_right_iff]
    refine hrelisted.imp fun t t' ht => ?_
    rw [nameAndText, nameAndText, rendered, rendered, ht.qualifiedName_eq, ht.renderTool_eq]
  rw [← String.toList_inj, toList_toolSection, toList_toolSection, flatMap_rendered tools', ← hmap,
    ← flatMap_rendered]
  exact flatMap_sortBy_iff.mpr (interchangeable_iff.mp hsame) reordered hperm

/-- The text, but for the section on the tools. -/
theorem text_eq (deps : Deps) (tools : List ToolSchema) :
    (build deps tools).text = dialectRules ++ "\n# Tool API\n\n" ++
      (if sortTools tools = [] then "No tools are available.\n" else "") ++ toolSection tools ++
        "\n" ++ examplesSection := rfl

theorem Relisted.empty_iff {tools tools' : List ToolSchema} (h : Relisted tools tools') :
    sortTools tools' = [] ↔ sortTools tools = [] := by
  obtain ⟨reordered, hperm, hrelisted⟩ := h
  have hlength : (sortTools tools').length = (sortTools tools).length := by
    rw [sortTools, sortTools, List.length_insertionSort, List.length_insertionSort,
      hperm.length_eq, hrelisted.length_eq]
  rw [← List.length_eq_zero_iff, hlength, List.length_eq_zero_iff]

theorem description_ext {d d' : ToolDescription} (htext : d.text = d'.text)
    (hhash : d.hash = d'.hash) (hprelude : d.prelude = d'.prelude) : d = d' := by
  obtain ⟨text, hash, prelude⟩ := d
  obtain ⟨text', hash', prelude'⟩ := d'
  rw [ToolDescription.mk.injEq]
  exact ⟨htext, hhash, hprelude⟩

theorem build_eq (deps : Deps) {tools tools' : List ToolSchema} (hsame : Interchangeable tools)
    (h : Relisted tools tools') : build deps tools' = build deps tools := by
  have htext : (build deps tools').text = (build deps tools).text := by
    rw [text_eq, text_eq, toolSection_eq hsame h, if_congr h.empty_iff rfl rfl]
  have hprelude : (build deps tools').prelude = (build deps tools).prelude := h.prelude_eq.symm
  have hhash : (build deps tools').hash = (build deps tools).hash := by
    show deps.sha256 (build deps tools').text.toUTF8 = deps.sha256 (build deps tools).text.toUTF8
    rw [htext]
  exact description_ext htext hhash hprelude

theorem toolSection_eq_of_text {deps : Deps} {tools tools' : List ToolSchema}
    (h : Relisted tools tools') (htext : (build deps tools').text = (build deps tools).text) :
    toolSection tools' = toolSection tools := by
  rw [text_eq, text_eq, if_congr h.empty_iff rfl rfl] at htext
  have hchars := congrArg String.toList htext
  simp only [String.toList_append, List.append_cancel_left_eq, List.append_cancel_right_eq]
    at hchars
  exact String.toList_inj.mp hchars

/-- The text says in which order two tools of one name were listed, unless they
are interchangeable. -/
theorem interchangeable_of_text_eq {deps : Deps} {tools : List ToolSchema}
    (h : ∀ tools', tools.Perm tools' → (build deps tools').text = (build deps tools).text) :
    Interchangeable tools := by
  refine interchangeable_iff.mpr (flatMap_sortBy_iff.mp fun tools' hperm => ?_)
  rw [← toList_toolSection, ← toList_toolSection,
    toolSection_eq_of_text (Relisted.of_perm hperm) (h tools' hperm)]

/-! ### Downstreams that list their tools in another order -/

/-- Clients that start alike and list the same tools in any order. -/
structure Relists (net net' : Network) : Prop where
  start : net'.start = net.start
  listed : ∀ {client listed}, net.listAllTools client = .ok listed →
    ∃ listed', net'.listAllTools client = .ok listed' ∧ listed.Perm listed'

theorem mapM_toolSchema_perm {server : String} {listed listed' : List Tool}
    {tools : List ToolSchema} (hperm : listed.Perm listed')
    (h : listed.mapM (toolSchema server) = .ok tools) :
    ∃ tools', listed'.mapM (toolSchema server) = .ok tools' ∧ tools.Perm tools' := by
  obtain ⟨tools', hread, htools⟩ := List.perm_comp_forall₂ hperm.symm (mapM_eq_ok.mp h)
  exact ⟨tools', mapM_eq_ok.mpr hread, htools.symm⟩

/-- The loop over the downstreams finds the same tools. -/
theorem connectAll_relists {env : String → Option String} {net net' : Network}
    (hrelists : Relists net net') {configs : List DownstreamConfig} {ds ds' found : Downstreams}
    (hclients : ds'.clients = ds.clients) (htools : ds.tools.Perm ds'.tools)
    (h : connectAll env net configs ds = .ok found) :
    ∃ found', connectAll env net' configs ds' = .ok found' ∧
      found'.clients = found.clients ∧ found.tools.Perm found'.tools := by
  induction configs generalizing ds ds' with
  | nil =>
    cases h
    exact ⟨ds', rfl, hclients, htools⟩
  | cons config configs ih =>
    obtain ⟨spec, hlaunch, hstart, listed, hlisted, tools, hmap, hrest⟩ :=
      connectAll_cons_iff.mp h
    obtain ⟨listed', hlisted', hperm⟩ := hrelists.listed hlisted
    obtain ⟨tools', hmap', hperm'⟩ := mapM_toolSchema_perm hperm hmap
    have hnext : (Downstreams.mk (ds'.clients.insert config.name ⟨config.name, spec⟩)
          (ds'.tools ++ tools')).clients =
        (Downstreams.mk (ds.clients.insert config.name ⟨config.name, spec⟩)
          (ds.tools ++ tools)).clients := by
      rw [hclients]
    obtain ⟨found', hrest', hfound⟩ := ih hnext (htools.append hperm') hrest
    refine ⟨found', ?_, hfound⟩
    rw [← hrelists.start] at hstart
    exact connectAll_cons_iff.mpr ⟨spec, hlaunch, hstart, listed', hlisted', tools', hmap', hrest'⟩

theorem connect_relists {env : String → Option String} {net net' : Network}
    (hrelists : Relists net net') {configs : List DownstreamConfig} {ds : Downstreams}
    (h : Downstreams.connect env net configs = .ok ds) :
    ∃ ds', Downstreams.connect env net' configs = .ok ds' ∧ ds'.clients = ds.clients ∧
      ds.tools.Perm ds'.tools := by
  obtain ⟨found, hfound, h⟩ := bind_eq_ok.mp h
  cases h
  obtain ⟨found', hfound', hclients, hperm⟩ :=
    connectAll_relists hrelists rfl (List.Perm.refl _) hfound
  refine ⟨_, bind_eq_ok.mpr ⟨found', hfound', rfl⟩, hclients, ?_⟩
  exact (sortBy_perm found.tools).trans (hperm.trans (sortBy_perm found'.tools).symm)

/-- The hash a run of the engine has in its trace, the tools being those of
other downstreams. -/
theorem descriptionHash_eq (deps : Deps) (engine engine' : Engine)
    (hpolicy : engine'.policy = engine.policy)
    (htools : engine.downstreams.tools.Perm engine'.downstreams.tools) {principal : String}
    (hsame : Interchangeable (engine.allowedSchemas principal)) :
    (build deps (engine'.allowedSchemas principal)).hash =
      (build deps (engine.allowedSchemas principal)).hash := by
  have hallowed : (engine.allowedSchemas principal).Perm (engine'.allowedSchemas principal) := by
    rw [Engine.allowedSchemas, Engine.allowedSchemas, hpolicy]
    exact htools.filter _
  rw [build_eq deps hsame (Relisted.of_perm hallowed)]

/-- The header a run has in its trace. -/
def headerOf (deps : Deps) (engine : Engine) (principal : String) (req : ExecuteRequest)
    (program : deps.CompiledProgram) (traceId : String) (run : Engine.RunResult) : TraceHeader :=
  (engine.traceOf deps (engine.preparedOf deps principal req program traceId) run).header

theorem headerOf_descriptionHash {deps : Deps} {engine : Engine} {principal : String}
    {req : ExecuteRequest} {program : deps.CompiledProgram} {traceId : String}
    {run : Engine.RunResult} :
    (headerOf deps engine principal req program traceId run).descriptionHash =
      Hex.encode (build deps (engine.allowedSchemas principal)).hash.val := rfl

/-- The description is that of the set of tools exactly if the tools of one
qualified name are interchangeable; the prelude always is.  A downstream that
lists interchangeable tools in another order leaves the recorded hash as it
is. -/
theorem build_order_free_iff (deps : Deps) (tools : List ToolSchema) :
    ((∀ tools', Relisted tools tools' → build deps tools' = build deps tools) ↔
      Interchangeable tools) ∧
    (∀ tools', Relisted tools tools' → (build deps tools').prelude = (build deps tools).prelude) ∧
    ∀ (env : String → Option String) (net net' : Network) (configs : List DownstreamConfig)
      (ds : Downstreams), Relists net net' → Downstreams.connect env net configs = .ok ds →
      ∃ ds', Downstreams.connect env net' configs = .ok ds' ∧
        ∀ (engine : Engine) (principal : String) (req : ExecuteRequest)
          (program : deps.CompiledProgram) (traceId : String) (run : Engine.RunResult),
          { engine with downstreams := ds }.allowedSchemas principal = tools →
          Interchangeable tools →
          (headerOf deps { engine with downstreams := ds' } principal req program traceId
              run).descriptionHash =
            (headerOf deps { engine with downstreams := ds } principal req program traceId
              run).descriptionHash := by
  refine ⟨⟨?_, ?_⟩, ?_, ?_⟩
  · intro h
    exact interchangeable_of_text_eq fun tools' hperm => by rw [h tools' (Relisted.of_perm hperm)]
  · exact fun hsame tools' h => build_eq deps hsame h
  · exact fun tools' h => h.prelude_eq.symm
  · intro env net net' configs ds hrelists hconnect
    obtain ⟨ds', hconnect', -, hperm⟩ := connect_relists hrelists hconnect
    refine ⟨ds', hconnect', ?_⟩
    intro engine principal req program traceId run hallowed hsame
    rw [← hallowed] at hsame
    have hhash : (build deps ({ engine with downstreams := ds' }.allowedSchemas principal)).hash =
        (build deps ({ engine with downstreams := ds }.allowedSchemas principal)).hash :=
      descriptionHash_eq deps { engine with downstreams := ds } { engine with downstreams := ds' }
        rfl hperm hsame
    rw [headerOf_descriptionHash, headerOf_descriptionHash, hhash]

section Examples

/-- A tool with a description, as it is listed. -/
def listedTool (description : String) : Tool := ⟨"t", some description, [], none⟩

/-- A tool listed under the name of others, with a description of its own. -/
def described (description : String) : ToolSchema := ⟨"s", "t", description, .obj [], none⟩

/-- A network that lists two descriptions of one tool. -/
def listingNetwork (first second : String) : Network where
  start _ := .ok ()
  listAllTools _ := .ok [listedTool first, listedTool second]

open Reference in
theorem connect_listingNetwork (first second : String) :
    Downstreams.connect (fun _ => none) (listingNetwork first second) config.downstream =
      .ok ⟨OrdMap.empty.insert "s" client, [described first, described second]⟩ := by
  have ht : ∀ description, toolSchema "s" (listedTool description) = .ok (described description) := by
    intro description
    simp [toolSchema, listedTool, described, Text.contains]
  have hsort : sortTools [described first, described second] =
      [described first, described second] := by
    simp [sortTools, List.insertionSort, List.orderedInsert, ToolSchema.qualifiedName, described]
  simp [Downstreams.connect, connectAll, config, launch, listingNetwork, ht, client, hsort,
    Except.mapError, bind, Except.bind, pure, Except.pure]

open Reference in
theorem listing_order_shows :
    Relists (listingNetwork "A" "B") (listingNetwork "B" "A") ∧
    Downstreams.connect (fun _ => none) (listingNetwork "A" "B") config.downstream =
      .ok ⟨OrdMap.empty.insert "s" client, [described "A", described "B"]⟩ ∧
    Downstreams.connect (fun _ => none) (listingNetwork "B" "A") config.downstream =
      .ok ⟨OrdMap.empty.insert "s" client, [described "B", described "A"]⟩ ∧
    [described "A", described "B"].Perm [described "B", described "A"] ∧
    (build reference [described "B", described "A"]).text ≠
      (build reference [described "A", described "B"]).text := by
  have hperm : [described "A", described "B"].Perm [described "B", described "A"] :=
    List.Perm.swap _ _ _
  refine ⟨⟨rfl, ?_⟩, connect_listingNetwork "A" "B", connect_listingNetwork "B" "A", hperm, ?_⟩
  · intro client tools h
    cases h
    exact ⟨_, rfl, List.Perm.swap _ _ _⟩
  · intro htext
    have hsection := toolSection_eq_of_text (Relisted.of_perm hperm) htext
    have hfirst : toolSection [described "A", described "B"] =
        "-- A. Returns table.\ns.t\x7b\x7d -> table\n-- B. Returns table.\ns.t\x7b\x7d -> table\n" :=
      rfl
    have hsecond : toolSection [described "B", described "A"] =
        "-- B. Returns table.\ns.t\x7b\x7d -> table\n-- A. Returns table.\ns.t\x7b\x7d -> table\n" :=
      rfl
    rw [hfirst, hsecond] at hsection
    exact absurd hsection (by decide)

end Examples

end ProvenoGateway
