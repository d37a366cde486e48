/-
ProvenoGateway/Prelude.lean

The prelude as Lua: its lines, their tokens, and the statements they are read
as.

A line ends in an expression, so after its tokens a parser still expects the
rest of that expression and of its list.  `reads_declaration_iff` says so for
one line; `reads_declarations_iff` is the induction over the lines, each of
which starts with a name or `local` and so closes the one before it.
-/
import ProvenoGateway.LuaLexer
import ProvenoGateway.LuaNames

namespace ProvenoGateway

open Lua (Token Kind Tree grammar firstSets)
open Symbol Grammar

/-! ### The lines -/

/-- A line of the prelude. -/
inductive Declaration
  | table (server : String)
  | function (tool : ToolSchema)

namespace Declaration

def text : Declaration → String
  | table server => s!"local {server} = \x7b\x7d\n"
  | function tool => declareTool tool

end Declaration

/-- The servers of the tools, each once. -/
def servers (tools : List ToolSchema) : List String :=
  ((tools.map ToolSchema.server).insertionSort (· ≤ ·)).destutter (· ≠ ·)

def declarations (tools : List ToolSchema) : List Declaration :=
  (servers tools).map .table ++ tools.map .function

/-- In sorted order, the repetitions are next to each other. -/
theorem servers_eq_dedup (tools : List ToolSchema) :
    servers tools = ((tools.map ToolSchema.server).insertionSort (· ≤ ·)).dedup :=
  (List.pairwise_insertionSort _ _).destutter_eq_dedup

theorem mem_servers {tools : List ToolSchema} {server : String} :
    server ∈ servers tools ↔ ∃ tool ∈ tools, tool.server = server := by
  rw [servers_eq_dedup, List.mem_dedup, List.mem_insertionSort, List.mem_map]

theorem servers_nodup (tools : List ToolSchema) : (servers tools).Nodup := by
  rw [servers_eq_dedup]
  exact List.nodup_dedup _

theorem toList_prelude (tools : List ToolSchema) :
    (prelude tools).toList = (declarations tools).flatMap fun d => d.text.toList := by
  have htables : (servers tools).map (fun server => s!"local {server} = \x7b\x7d\n") =
      ((servers tools).map Declaration.table).map Declaration.text := by
    rw [List.map_map]
    rfl
  have hfunctions : tools.map declareTool =
      (tools.map Declaration.function).map Declaration.text := by
    rw [List.map_map]
    rfl
  show (Text.concat ((servers tools).map fun server => s!"local {server} = \x7b\x7d\n") ++
    Text.concat (tools.map declareTool)).toList = _
  rw [String.toList_append, Text.toList_concat, Text.toList_concat, htables, hfunctions, declarations,
    List.flatMap_append]
  simp only [List.flatMap_map]

/-! ### Their tokens -/

/-- A token with its usual text. -/
def leaf (kind : Kind) (text : String) : Token := ⟨kind, text.toList⟩

def Declaration.tokens : Declaration → List Token
  | table server => [
      leaf .local_ "local", leaf .name server, leaf .assign "=", leaf .lbrace "\x7b",
      leaf .rbrace "\x7d"]
  | function tool => [
      leaf .name tool.server, leaf .dot ".", leaf .name tool.name, leaf .assign "=",
      leaf .function_ "function", leaf .lparen "(", leaf .name "args", leaf .rparen ")",
      leaf .return_ "return", leaf .name "tool", leaf .dot ".", leaf .name "call",
      leaf .lparen "(", leaf .string tool.qualifiedName, leaf .comma ",", leaf .name "args",
      leaf .rparen ")", leaf .end_ "end"]

/-- Lua can declare it. -/
def Declaration.Usable : Declaration → Prop
  | table server => isName server = true
  | function tool => isName tool.server = true ∧ isName tool.name = true

/-- A usable name is a word that Lua reads as a name. -/
theorem word_of_isName {s : String} (h : isName s = true) :
    ∃ c rest, s.toList = c :: rest ∧ Lua.isNameStart c = true ∧ rest.all Lua.isNameChar = true ∧
      Lua.wordKind s.toList = .name := by
  obtain ⟨⟨c, rest, hs, hc, hrest⟩, hkeyword⟩ := isName_iff.mp h
  refine ⟨c, rest, hs, hc, List.all_eq_true.mpr hrest, ?_⟩
  have hwords : Lua.keywords.map Prod.fst = luaKeywords.map String.toList := by decide
  have hlookup : Lua.keywords.lookup s.toList = none := by
    rw [List.lookup_eq_none_iff]
    intro e he
    rw [bne_iff_ne]
    rintro hword
    have hmem : s.toList ∈ luaKeywords.map String.toList := by
      rw [← hwords, hword]
      exact List.mem_map_of_mem he
    obtain ⟨keyword, hk, hsame⟩ := List.mem_map.mp hmem
    rw [String.toList_inj] at hsame
    subst hsame
    exact hkeyword hk
  rw [Lua.wordKind, hlookup]
  rfl

section Lexing

variable {lex : List Char → Option (List Token)} (h : Lua.Lexes lex)
include h

/-- Reading a usable name. -/
theorem lex_name {s : String} (hs : isName s = true) {d : Char} {text : List Char}
    (hd : Lua.isNameChar d = false) :
    lex (s.toList ++ d :: text) = (lex (d :: text)).map (leaf .name s :: ·) := by
  obtain ⟨c, rest, hchars, hc, hrest, hkind⟩ := word_of_isName hs
  have hlex : lex (c :: (rest ++ d :: text)) = _ := h.word_cons hc hrest hd
  rw [← hchars, hkind] at hlex
  rw [hchars, List.cons_append]
  exact hlex

theorem lex_table {server : String} (hs : isName server = true) (text : List Char) :
    lex ((Declaration.table server).text.toList ++ text) =
      (lex text).map ((Declaration.table server).tokens ++ ·) := by
  have hchars : (Declaration.table server).text.toList ++ text =
      'l' :: (['o', 'c', 'a', 'l'] ++ ' ' :: (server.toList ++
        ' ' :: '=' :: ' ' :: '{' :: '}' :: '
' :: text)) := by
    simp [Declaration.text, String.toList_append, toString]
  rw [hchars, h.word_cons rfl rfl rfl, h.blank _ _ rfl, lex_name h hs rfl, h.blank _ _ rfl,
    h.symbol_cons rfl rfl, h.blank _ _ rfl, h.symbol_cons rfl rfl, h.symbol_cons rfl rfl,
    h.blank _ _ rfl]
  cases lex text <;> rfl

omit h in
/-- A qualified name needs no escapes. -/
theorem plain_qualifiedName {tool : ToolSchema} (hserver : isName tool.server = true)
    (hname : isName tool.name = true) :
    ∀ c ∈ tool.qualifiedName.toList, c ≠ '"' ∧ c ≠ '\\' ∧ c ≠ '\n' ∧ c ≠ '\r' := by
  have hplain : ∀ {s : String}, isName s = true → ∀ c ∈ s.toList, Lua.isNameChar c = true := by
    intro s hs
    obtain ⟨c, rest, hchars, hc, hrest, -⟩ := word_of_isName hs
    rw [hchars, List.forall_mem_cons]
    refine ⟨?_, List.all_eq_true.mp hrest⟩
    simp only [Lua.isNameStart, Lua.isNameChar, Char.isAlphanum, Bool.or_eq_true] at hc ⊢
    exact hc.imp_left Or.inl
  have hother : ∀ c, Lua.isNameChar c = true ∨ c = '.' →
      c ≠ '"' ∧ c ≠ '\\' ∧ c ≠ '\n' ∧ c ≠ '\r' := by
    intro c hc
    refine ⟨?_, ?_, ?_, ?_⟩ <;> (rintro rfl; revert hc; decide)
  intro c hc
  apply hother
  rw [ToolSchema.qualifiedName, String.toList_append, String.toList_append] at hc
  rcases List.mem_append.mp hc with hc | hc
  · exact Or.inl (hplain hserver c hc)
  · rcases List.mem_append.mp hc with hc | hc
    · exact Or.inr (List.mem_singleton.mp hc)
    · exact Or.inl (hplain hname c hc)

theorem lex_function {tool : ToolSchema} (hserver : isName tool.server = true)
    (hname : isName tool.name = true) (text : List Char) :
    lex ((Declaration.function tool).text.toList ++ text) =
      (lex text).map ((Declaration.function tool).tokens ++ ·) := by
  have hchars : (Declaration.function tool).text.toList ++ text =
      tool.server.toList ++ '.' :: (tool.name.toList ++ ' ' :: '=' :: ' ' ::
        'f' :: (['u', 'n', 'c', 't', 'i', 'o', 'n'] ++ '(' :: 'a' :: (['r', 'g', 's'] ++
        ')' :: ' ' :: 'r' :: (['e', 't', 'u', 'r', 'n'] ++ ' ' ::
        't' :: (['o', 'o', 'l'] ++ '.' :: 'c' :: (['a', 'l', 'l'] ++ '(' ::
        '"' :: (tool.qualifiedName.toList ++ '"' :: ',' :: ' ' :: 'a' :: (['r', 'g', 's'] ++
        ')' :: ' ' :: 'e' :: (['n', 'd'] ++ '\n' :: text))))))))) := by
    simp [Declaration.text, declareTool, ToolSchema.qualifiedName, String.toList_append, toString]
  obtain ⟨c, rest, hstart, hc, hrest, hkind⟩ := word_of_isName hname
  rw [hchars, lex_name h hserver rfl, hstart, List.cons_append,
    h.symbol_cons rfl (Lua.joins_dot hc), h.word_cons hc hrest rfl, ← hstart, hkind, h.blank _ _ rfl, h.symbol_cons rfl rfl,
    h.blank _ _ rfl, h.word_cons rfl rfl rfl, h.symbol_cons rfl rfl, h.word_cons rfl rfl rfl,
    h.symbol_cons rfl rfl, h.blank _ _ rfl, h.word_cons rfl rfl rfl, h.blank _ _ rfl,
    h.word_cons rfl rfl rfl, h.symbol_cons rfl rfl, h.word_cons rfl rfl rfl, h.symbol_cons rfl rfl,
    h.quoted _ _ (plain_qualifiedName hserver hname), h.symbol_cons rfl rfl, h.blank _ _ rfl,
    h.word_cons rfl rfl rfl, h.symbol_cons rfl rfl, h.blank _ _ rfl, h.word_cons rfl rfl rfl,
    h.blank _ _ rfl]
  cases lex text <;> rfl

/-- **A line is read to its end**, whatever comes after it. -/
theorem lex_declaration {d : Declaration} (hd : d.Usable) (text : List Char) :
    lex (d.text.toList ++ text) = (lex text).map (d.tokens ++ ·) := by
  cases d with
  | table server => exact lex_table h hd text
  | function tool => exact lex_function h hd.1 hd.2 text

theorem lex_declarations {ds : List Declaration} (hds : ∀ d ∈ ds, d.Usable) (text : List Char) :
    lex (ds.flatMap (fun d => d.text.toList) ++ text) =
      (lex text).map (ds.flatMap Declaration.tokens ++ ·) := by
  induction ds with
  | nil => simp
  | cons d ds ih =>
    rw [List.forall_mem_cons] at hds
    rw [List.flatMap_cons, List.append_assoc, lex_declaration h hds.1, ih hds.2]
    cases lex text with
    | none => rfl
    | some tokens => simp

end Lexing

/-! ### Their statements -/

/-- An operand with nothing after it. -/
def operand (children : List Tree) : Tree :=
  .node .exp [.node .operand children, .node .exptail []]

/-- `tool.call("<q>", args)` -/
def throughCall (q : String) : List Tree := [
  .token (leaf .name "tool"),
  .node .suffixes [
    .node .index [.token (leaf .dot "."), .token (leaf .name "call")],
    .node .suffixes [
      .node .call [.node .args [
        .token (leaf .lparen "("),
        .node .optExps [
          operand [.token (leaf .string q)],
          .node .exps [
            .token (leaf .comma ","),
            operand [.token (leaf .name "args"), .node .suffixes []],
            .node .exps []]],
        .token (leaf .rparen ")")]],
      .node .suffixes []]]]

/-- `(args) return tool.call("<q>", args) end` -/
def functionBody (q : String) : Tree :=
  .node .body [
    .token (leaf .lparen "("),
    .node .params [.token (leaf .name "args"), .node .moreParams []],
    .token (leaf .rparen ")"),
    .node .block [
      .node .stats [],
      .node .ret [
        .token (leaf .return_ "return"),
        .node .optExps [operand (throughCall q), .node .exps []],
        .node .optSemicolon []]],
    .token (leaf .end_ "end")]

/-- The statement a line is read as, with the rest of its last expression and of
its list. -/
def Declaration.statement (tail rest : Tree) : Declaration → Tree
  | table server =>
      .node .stat [
        .token (leaf .local_ "local"),
        .node .afterLocal [
          .token (leaf .name server),
          .node .names [],
          .node .init [
            .token (leaf .assign "="),
            .node .exp [
              .node .operand [.node .table [
                .token (leaf .lbrace "\x7b"), .node .fields [], .token (leaf .rbrace "\x7d")]],
              tail],
            rest]]]
  | function tool =>
      .node .stat [
        .token (leaf .name tool.server),
        .node .onVar [
          .node .index [.token (leaf .dot "."), .token (leaf .name tool.name)],
          .node .onVar [
            .node .targets [],
            .token (leaf .assign "="),
            .node .exp [
              .node .operand [
                .token (leaf .function_ "function"), functionBody tool.qualifiedName],
              tail],
            rest]]]

/-- The statement of a line that nothing goes on with. -/
def Declaration.own (d : Declaration) : Tree :=
  d.statement (.node .exptail []) (.node .exps [])

/-! ### Reading them -/

/-- What is expected where a statement may start. -/
def atStatement : List (Symbol Kind Lua.Nonterminal) := [nonterminal .stats, nonterminal .ret]

/-- What is expected after a line of the prelude. -/
def afterLine : List (Symbol Kind Lua.Nonterminal) :=
  [nonterminal .exptail, nonterminal .exps, nonterminal .stats, nonterminal .ret]

/-- **A line and whatever follows it.** -/
theorem reads_declaration_iff {d : Declaration} {more : List Token} {trees : List Tree} :
    grammar.Reads atStatement (d.tokens ++ more) trees ↔
      ∃ tail rest stats ret, grammar.Reads afterLine more [tail, rest, stats, ret] ∧
        trees = [.node .stats [d.statement tail rest, stats], ret] := by
  have hrun : ∃ build, firstSets.run 100 atStatement d.tokens = some (afterLine, build) ∧
      ∀ tail rest stats ret, build [tail, rest, stats, ret] =
        [.node .stats [d.statement tail rest, stats], ret] := by
    cases d with
    | table server => exact ⟨_, rfl, fun _ _ _ _ => rfl⟩
    | function tool => exact ⟨_, rfl, fun _ _ _ _ => rfl⟩
  obtain ⟨build, hrun, hbuild⟩ := hrun
  rw [Lua.firstSets_closed.reads_run_iff hrun more]
  constructor
  · rintro ⟨left, h, rfl⟩
    have hlength : left.length = 4 := h.length_eq
    obtain ⟨tail, rest, stats, ret, rfl⟩ := List.length_eq_four.mp hlength
    exact ⟨tail, rest, stats, ret, h, hbuild _ _ _ _⟩
  · rintro ⟨tail, rest, stats, ret, h, rfl⟩
    exact ⟨_, h, (hbuild _ _ _ _).symm⟩

/-- The kinds that go on with an expression or its list. -/
def continuing : List Kind := [.binop, .minus, .comma]

/-- Nothing goes on with the line before. -/
def Fresh (tokens : List Token) : Prop := ∀ t ∈ tokens.head?, t.kind ∉ continuing

theorem reads_afterLine_iff {tokens : List Token} {trees : List Tree} (h : Fresh tokens) :
    grammar.Reads afterLine tokens trees ↔
      ∃ left, trees = .node .exptail [] :: .node .exps [] :: left ∧
        grammar.Reads atStatement tokens left := by
  have hnot : ∀ k ∈ continuing, ∀ t ∈ tokens.head?, grammar.kind t ≠ k := by
    rintro k hk t ht rfl
    exact h t ht hk
  have htail : ∀ rule ∈ grammar.rules .exptail, rule ≠ [] → ∃ k rest,
      rule = .terminal k :: rest ∧ ∀ t ∈ tokens.head?, grammar.kind t ≠ k := by
    intro rule hrule hne
    rcases List.mem_cons.mp hrule with rfl | hrule
    · exact absurd rfl hne
    · rcases List.mem_pair.mp hrule with rfl | rfl
      · exact ⟨_, _, rfl, hnot .binop (by decide)⟩
      · exact ⟨_, _, rfl, hnot .minus (by decide)⟩
  have hexps : ∀ rule ∈ grammar.rules .exps, rule ≠ [] → ∃ k rest,
      rule = .terminal k :: rest ∧ ∀ t ∈ tokens.head?, grammar.kind t ≠ k := by
    intro rule hrule hne
    rcases List.mem_pair.mp hrule with rfl | rfl
    · exact absurd rfl hne
    · exact ⟨_, _, rfl, hnot .comma (by decide)⟩
  rw [afterLine, reads_skip_iff List.mem_cons_self htail]
  constructor
  · rintro ⟨left, rfl, h⟩
    obtain ⟨left', rfl, h'⟩ := (reads_skip_iff List.mem_cons_self hexps).mp h
    exact ⟨left', rfl, h'⟩
  · rintro ⟨left, rfl, h⟩
    exact ⟨_, rfl, (reads_skip_iff List.mem_cons_self hexps).mpr ⟨left, rfl, h⟩⟩

/-- No statement starts with what goes on with an expression. -/
theorem fresh_of_reads {tokens : List Token} {trees : List Tree}
    (h : grammar.Reads atStatement tokens trees) : Fresh tokens := by
  have hstarts : ∀ k ∈ firstSets.starts atStatement, k ∉ continuing := by decide
  intro t ht
  exact hstarts _ ((Lua.firstSets_closed.sound h).2 t ht)

/-- A line starts a statement. -/
theorem fresh_declaration (d : Declaration) (more : List Token) : Fresh (d.tokens ++ more) := by
  intro t ht
  cases d with
  | table server =>
    obtain rfl := Option.some.inj ht
    decide
  | function tool =>
    obtain rfl := Option.some.inj ht
    show Kind.name ∉ continuing
    decide

/-- Statements before the others of a block. -/
def chain (before : List Tree) (stats : Tree) : Tree :=
  before.foldr (fun statement stats => .node .stats [statement, stats]) stats

/-- **The lines and whatever follows them**: every line but the last is its own
statement, and the last takes what goes on with it. -/
theorem reads_declarations_iff {ds : List Declaration} {last : Declaration} {more : List Token}
    {trees : List Tree} :
    grammar.Reads atStatement (ds.flatMap Declaration.tokens ++ (last.tokens ++ more)) trees ↔
      ∃ tail rest stats ret, grammar.Reads afterLine more [tail, rest, stats, ret] ∧
        trees = [chain (ds.map Declaration.own ++ [last.statement tail rest]) stats, ret] := by
  induction ds generalizing trees with
  | nil => exact reads_declaration_iff
  | cons d ds ih =>
    rw [List.flatMap_cons, List.append_assoc, reads_declaration_iff]
    -- the next line starts a statement, so it closes this one
    have hfresh : Fresh (ds.flatMap Declaration.tokens ++ (last.tokens ++ more)) := by
      cases ds with
      | nil => exact fresh_declaration last more
      | cons e ds =>
        rw [List.flatMap_cons, List.append_assoc]
        exact fresh_declaration e _
    simp only [reads_afterLine_iff hfresh]
    constructor
    · rintro ⟨tail, rest, stats, ret, ⟨left, hleft, h⟩, rfl⟩
      cases hleft
      obtain ⟨tail', rest', stats', ret', h', hstats⟩ := ih.mp h
      cases hstats
      exact ⟨tail', rest', stats', _, h', rfl⟩
    · rintro ⟨tail, rest, stats, ret, h, rfl⟩
      exact ⟨_, _, _, _, ⟨_, rfl, ih.mpr ⟨tail, rest, stats, ret, h, rfl⟩⟩, rfl⟩

end ProvenoGateway
