/-
ProvenoGateway/Chunk.lean

Where the prelude ends and the program begins.

Prelude and program are joined as text, and the last line of the prelude is an
assignment with nothing to end it.  A newline is white space, so a program that
starts with a binary operator or a comma goes on with that assignment.
`own_chunk_iff` is the exact separation: such programs, where the rest of them
reads as Lua, are the ones that are not read on their own.

Core's parser is third-party: `LuaParser` is what it is documented to accept,
the blocks of standard Lua.
-/
import ProvenoGateway.Prelude
import ProvenoGateway.Mediation

namespace ProvenoGateway

open Lua (Token Kind Tree grammar firstSets)
open Symbol Grammar

/-! ### The parser -/

/-- The parser accepts the blocks of the grammar, and reads them so. -/
structure LuaParser (deps : Deps) (lex : List Char → Option (List Token))
    (tree : deps.Block → Tree) : Prop where
  reads : ∀ {text block}, deps.parse text = .ok block →
    ∃ tokens, lex text.toList = some tokens ∧
      grammar.Reads [nonterminal .block] tokens [tree block]
  accepts : ∀ {text : String} {tokens trees}, lex text.toList = some tokens →
    grammar.Reads [nonterminal .block] tokens trees → ∃ block, deps.parse text = .ok block

theorem reads_block_iff {tokens : List Token} {trees : List Tree} :
    grammar.Reads [nonterminal .block] tokens trees ↔
      ∃ stats ret, trees = [.node .block [stats, ret]] ∧
        grammar.Reads atStatement tokens [stats, ret] := by
  rw [reads_nonterminal_iff]
  constructor
  · rintro ⟨rule, hrule, children, left, rfl, hlength, h⟩
    obtain rfl := List.mem_singleton.mp hrule
    obtain ⟨stats, ret, rfl⟩ := List.length_eq_two.mp hlength
    have hall := h.length_eq
    obtain rfl : left = [] := by
      apply List.eq_nil_of_length_eq_zero
      simp only [List.length_append, List.length_cons, List.length_nil] at hall
      omega
    exact ⟨stats, ret, rfl, h⟩
  · rintro ⟨stats, ret, rfl, h⟩
    exact ⟨_, List.mem_singleton.mpr rfl, [stats, ret], [], rfl, rfl, h⟩

/-! ### The statements of a block -/

def statementsOf : Tree → List Tree
  | .node .stats [statement, stats] => statement :: statementsOf stats
  | _ => []

/-- The statements of a block before its `return`. -/
def blockStatements : Tree → List Tree
  | .node .block [stats, _] => statementsOf stats
  | _ => []

theorem statementsOf_chain (before : List Tree) (stats : Tree) :
    statementsOf (chain before stats) = before ++ statementsOf stats := by
  induction before with
  | nil => rfl
  | cons statement before ih =>
    show statementsOf (.node .stats [statement, chain before stats]) = _
    rw [statementsOf, ih, List.cons_append]

/-- No tokens, no statements. -/
theorem statementsOf_nothing {stats ret : Tree} (h : grammar.Reads atStatement [] [stats, ret]) :
    statementsOf stats = [] := by
  obtain ⟨rule, hrule, children, left, htrees, hlength, h'⟩ := reads_nonterminal_iff.mp h
  cases htrees
  rcases List.mem_pair.mp hrule with rfl | rfl
  · obtain rfl : children = [] := List.eq_nil_of_length_eq_zero hlength
    rfl
  · -- a statement has a token
    have herases := (Lua.firstSets_closed.sound h').1 rfl
    cases herases

/-- The empty block. -/
theorem reads_nothing :
    grammar.Reads atStatement [] [.node .stats [], .node .ret []] := by
  apply (reads_empty_iff List.mem_cons_self).mpr
  apply (reads_empty_iff List.mem_cons_self).mpr
  exact Reads.nil

/-! ### The text of the prelude -/

theorem declarations_usable {tools : List ToolSchema} (h : ∀ tool ∈ tools, Declarable tool) :
    ∀ d ∈ declarations tools, d.Usable := by
  intro d hd
  rcases List.mem_append.mp hd with hd | hd
  · obtain ⟨server, hserver, rfl⟩ := List.mem_map.mp hd
    obtain ⟨tool, htool, rfl⟩ := mem_servers.mp hserver
    exact (h tool htool).server_name
  · obtain ⟨tool, htool, rfl⟩ := List.mem_map.mp hd
    exact ⟨(h tool htool).server_name, (h tool htool).tool_name⟩

/-- The tokens of the prelude come first, whatever the program is. -/
theorem lex_prelude {lex : List Char → Option (List Token)} (hlex : Lua.Lexes lex)
    {tools : List ToolSchema} (h : ∀ tool ∈ tools, Declarable tool) (program : String) :
    lex (prelude tools ++ program).toList =
      (lex program.toList).map ((declarations tools).flatMap Declaration.tokens ++ ·) := by
  rw [String.toList_append, toList_prelude]
  exact lex_declarations hlex (declarations_usable h) program.toList

theorem declarations_snoc {tools : List ToolSchema} (h : tools ≠ []) :
    ∃ ds last, declarations tools = ds ++ [last] ∧
      ∀ more, (declarations tools).flatMap Declaration.tokens ++ more =
        ds.flatMap Declaration.tokens ++ (last.tokens ++ more) := by
  have hne : declarations tools ≠ [] := by
    simp [declarations, h]
  obtain ⟨ds, last, hds⟩ : ∃ ds last, declarations tools = ds ++ [last] :=
    ⟨_, _, (List.dropLast_append_getLast hne).symm⟩
  refine ⟨ds, last, hds, fun more => ?_⟩
  rw [hds, List.flatMap_append, List.flatMap_singleton, List.append_assoc]

/-! ### The statements of a joint text -/

section Parser

variable {deps : Deps} {lex : List Char → Option (List Token)} {tree : deps.Block → Tree}
  {tools : List ToolSchema}

/-- What a text that starts with the prelude is read as. -/
theorem reads_joint (hlex : Lua.Lexes lex) (hparser : LuaParser deps lex tree)
    (htools : ∀ tool ∈ tools, Declarable tool) {program : String} {joint : deps.Block}
    (h : deps.parse (prelude tools ++ program) = .ok joint) :
    ∃ tokens stats ret, lex program.toList = some tokens ∧
      tree joint = .node .block [stats, ret] ∧
      grammar.Reads atStatement
        ((declarations tools).flatMap Declaration.tokens ++ tokens) [stats, ret] := by
  obtain ⟨all, hall, hreads⟩ := hparser.reads h
  rw [lex_prelude hlex htools, Option.map_eq_some_iff] at hall
  obtain ⟨tokens, htokens, rfl⟩ := hall
  obtain ⟨stats, ret, htree, hstats⟩ := reads_block_iff.mp hreads
  exact ⟨tokens, stats, ret, htokens, by simpa using htree, hstats⟩

/-- The statements of the prelude itself are those of its lines. -/
theorem own_statements (hlex : Lua.Lexes lex) (hparser : LuaParser deps lex tree)
    (htools : ∀ tool ∈ tools, Declarable tool) {own : deps.Block}
    (h : deps.parse (prelude tools) = .ok own) :
    blockStatements (tree own) = (declarations tools).map Declaration.own := by
  have hjoint : deps.parse (prelude tools ++ "") = .ok own := by rw [String.append_empty, h]
  obtain ⟨tokens, stats, ret, htokens, htree, hreads⟩ := reads_joint hlex hparser htools hjoint
  obtain rfl : tokens = [] := by
    have hempty : lex "".toList = some [] := hlex.empty
    rw [hempty] at htokens
    exact (Option.some.inj htokens).symm
  rw [htree]
  show statementsOf stats = _
  by_cases hne : tools = []
  · subst hne
    exact statementsOf_nothing hreads
  · obtain ⟨ds, last, hds, hflat⟩ := declarations_snoc hne
    rw [hflat] at hreads
    obtain ⟨tail, rest, stats', ret', hafter, htrees⟩ := reads_declarations_iff.mp hreads
    -- nothing follows, so nothing goes on with the last line
    have hfresh : Fresh [] := by simp [Fresh]
    obtain ⟨left, hleft, hstats'⟩ := (reads_afterLine_iff hfresh).mp hafter
    cases htrees
    cases hleft
    rw [statementsOf_chain, statementsOf_nothing hstats', List.append_nil, hds, List.map_append]
    rfl

/-- The prelude by itself is a block. -/
theorem parses_prelude (hlex : Lua.Lexes lex) (hparser : LuaParser deps lex tree)
    (htools : ∀ tool ∈ tools, Declarable tool) : ∃ own, deps.parse (prelude tools) = .ok own := by
  have hlexed : lex (prelude tools).toList =
      some ((declarations tools).flatMap Declaration.tokens) := by
    have hall := lex_prelude hlex htools ""
    have hempty : lex "".toList = some [] := hlex.empty
    rw [String.append_empty, hempty] at hall
    rw [hall, Option.map_some, List.append_nil]
  have hreads : ∃ stats ret, grammar.Reads atStatement
      ((declarations tools).flatMap Declaration.tokens) [stats, ret] := by
    by_cases hne : tools = []
    · subst hne
      exact ⟨_, _, reads_nothing⟩
    · obtain ⟨ds, last, -, hflat⟩ := declarations_snoc hne
      have hfresh : Fresh [] := by simp [Fresh]
      have hafter := (reads_afterLine_iff hfresh).mpr ⟨_, rfl, reads_nothing⟩
      have hline : grammar.Reads atStatement
          (ds.flatMap Declaration.tokens ++ (last.tokens ++ [])) _ :=
        reads_declarations_iff.mpr ⟨_, _, _, _, hafter, rfl⟩
      rw [← hflat, List.append_nil] at hline
      exact ⟨_, _, hline⟩
  obtain ⟨stats, ret, hreads⟩ := hreads
  exact hparser.accepts hlexed (reads_block_iff.mpr ⟨stats, ret, rfl, hreads⟩)

/-- The program goes on with the last line of a prelude: it starts with a binary
operator or a comma, and its tokens are the rest of an expression list and then
a block. -/
def GoesOn (lex : List Char → Option (List Token)) (program : String) : Prop :=
  ∃ t tokens trees, lex program.toList = some (t :: tokens) ∧ t.kind ∈ continuing ∧
    grammar.Reads afterLine (t :: tokens) trees

/-- The program is a chunk of its own after a prelude. -/
structure OwnChunk (deps : Deps) (tree : deps.Block → Tree) (prelude program : String) : Prop where
  /-- What compiles with the prelude parses by itself, -/
  alone : ∀ compiled, compileProgram deps prelude program = .ok compiled →
    ∃ block, deps.parse program = .ok block
  /-- and the joint text starts with the statements of the prelude. -/
  separate : ∀ own joint, deps.parse prelude = .ok own →
    deps.parse (prelude ++ program) = .ok joint →
    blockStatements (tree own) <+: blockStatements (tree joint)

theorem parse_of_compileProgram {prelude program : String} {compiled : deps.CompiledProgram}
    (h : compileProgram deps prelude program = .ok compiled) :
    ∃ joint, deps.parse (terminated prelude ++ program) = .ok joint := by
  have htext := compileProgram_eq_ok.mp h
  unfold compileText at htext
  cases hparse : deps.parse (terminated prelude ++ program) with
  | error e =>
    rw [hparse] at htext
    cases htext
  | ok joint => exact ⟨joint, rfl⟩

/-- With no tools there is nothing to go on with. -/
theorem ownChunk_empty (hlex : Lua.Lexes lex) (hparser : LuaParser deps lex tree)
    (program : String) : OwnChunk deps tree (prelude []) program := by
  have hprelude : prelude [] = "" := rfl
  refine ⟨fun compiled h => ?_, fun own joint hown _ => ?_⟩
  · obtain ⟨joint, hjoint⟩ := parse_of_compileProgram h
    rw [terminated_prelude, hprelude, String.empty_append] at hjoint
    exact ⟨joint, hjoint⟩
  · rw [own_statements hlex hparser (by simp) hown]
    exact List.nil_prefix

/-- A program that does not go on with the prelude is a chunk of its own. -/
theorem ownChunk_of_not_goesOn (hlex : Lua.Lexes lex) (hparser : LuaParser deps lex tree)
    (htools : ∀ tool ∈ tools, Declarable tool) (hne : tools ≠ []) {program : String}
    (hprogram : ¬ GoesOn lex program) : OwnChunk deps tree (prelude tools) program := by
  obtain ⟨ds, last, hds, hflat⟩ := declarations_snoc hne
  have hshape : ∀ joint, deps.parse (prelude tools ++ program) = .ok joint →
      ∃ tokens stats ret, lex program.toList = some tokens ∧
        grammar.Reads atStatement tokens [stats, ret] ∧
        blockStatements (tree joint) = (declarations tools).map Declaration.own ++
          statementsOf stats := by
    intro joint hjoint
    obtain ⟨tokens, stats, ret, htokens, htree, hreads⟩ := reads_joint hlex hparser htools hjoint
    rw [hflat] at hreads
    obtain ⟨tail, rest, stats', ret', hafter, htrees⟩ := reads_declarations_iff.mp hreads
    have hfresh : Fresh tokens := by
      intro t ht hk
      obtain ⟨more, rfl⟩ := List.head?_eq_some_iff.mp ht
      exact hprogram ⟨t, more, _, htokens, hk, hafter⟩
    obtain ⟨left, hleft, hstats⟩ := (reads_afterLine_iff hfresh).mp hafter
    cases htrees
    cases hleft
    refine ⟨tokens, stats', ret, htokens, hstats, ?_⟩
    rw [htree, hds, List.map_append]
    exact statementsOf_chain _ _
  refine ⟨fun compiled h => ?_, fun own joint hown hjoint => ?_⟩
  · obtain ⟨joint, hjoint⟩ := parse_of_compileProgram h
    rw [terminated_prelude] at hjoint
    obtain ⟨tokens, stats, ret, htokens, hreads, -⟩ := hshape joint hjoint
    exact hparser.accepts htokens (reads_block_iff.mpr ⟨stats, ret, rfl, hreads⟩)
  · obtain ⟨tokens, stats, ret, -, -, hstatements⟩ := hshape joint hjoint
    rw [own_statements hlex hparser htools hown, hstatements]
    exact List.prefix_append _ _

theorem statement_inj {d : Declaration} {tail rest tail' rest' : Tree}
    (h : d.statement tail rest = d.statement tail' rest') : tail = tail' ∧ rest = rest' := by
  cases d with
  | table server =>
    cases h
    exact ⟨rfl, rfl⟩
  | function tool =>
    cases h
    exact ⟨rfl, rfl⟩

/-- The joint text of a program that goes on with the prelude is a block. -/
theorem parses_joint (hlex : Lua.Lexes lex) (hparser : LuaParser deps lex tree)
    (htools : ∀ tool ∈ tools, Declarable tool) (hne : tools ≠ []) {program : String}
    (hprogram : GoesOn lex program) :
    ∃ joint, deps.parse (prelude tools ++ program) = .ok joint := by
  obtain ⟨t, tokens, trees, htokens, -, hafter⟩ := hprogram
  obtain ⟨ds, last, -, hflat⟩ := declarations_snoc hne
  have hlength : trees.length = 4 := hafter.length_eq
  obtain ⟨tail, rest, stats, ret, rfl⟩ := List.length_eq_four.mp hlength
  have hlexed := lex_prelude hlex htools program
  rw [htokens, Option.map_some, hflat] at hlexed
  have hreads : grammar.Reads atStatement
      (ds.flatMap Declaration.tokens ++ (last.tokens ++ t :: tokens)) _ :=
    reads_declarations_iff.mpr ⟨tail, rest, stats, ret, hafter, rfl⟩
  exact hparser.accepts hlexed (reads_block_iff.mpr ⟨_, _, rfl, hreads⟩)

/-- A program that goes on with the prelude is absorbed by its last line. -/
theorem not_ownChunk_of_goesOn (hlex : Lua.Lexes lex) (hparser : LuaParser deps lex tree)
    (htools : ∀ tool ∈ tools, Declarable tool) (hne : tools ≠ []) {program : String}
    (hprogram : GoesOn lex program) : ¬ OwnChunk deps tree (prelude tools) program := by
  intro hown
  obtain ⟨t, tokens, trees, htokens, hk, hafter⟩ := hprogram
  obtain ⟨ds, last, hds, hflat⟩ := declarations_snoc hne
  obtain ⟨joint, hjoint⟩ :=
    parses_joint hlex hparser htools hne ⟨t, tokens, trees, htokens, hk, hafter⟩
  obtain ⟨own, hparse⟩ := parses_prelude hlex hparser htools
  -- and its statement of the last line would be the line alone
  obtain ⟨tokens', stats, ret, htokens', htree, hreads⟩ := reads_joint hlex hparser htools hjoint
  rw [htokens] at htokens'
  obtain rfl := Option.some.inj htokens'
  rw [hflat] at hreads
  obtain ⟨tail, rest, stats', ret', hafter', htrees⟩ := reads_declarations_iff.mp hreads
  cases htrees
  have hprefix := hown.separate own joint hparse hjoint
  rw [own_statements hlex hparser htools hparse, htree, hds, List.map_append] at hprefix
  have hlast : last.own = last.statement tail rest := by
    obtain ⟨others, hothers⟩ := hprefix
    have hjoined : blockStatements (.node .block [chain (ds.map Declaration.own ++
        [last.statement tail rest]) stats', ret]) =
        ds.map Declaration.own ++ (last.statement tail rest :: statementsOf stats') := by
      show statementsOf (chain _ _) = _
      rw [statementsOf_chain, List.append_assoc]
      rfl
    rw [hjoined, List.append_assoc] at hothers
    exact (List.cons.inj (List.append_cancel_left hothers)).1
  obtain ⟨rfl, rfl⟩ := statement_inj hlast
  have hempty : grammar.Reads atStatement (t :: tokens) [stats', ret] :=
    (reads_empty_iff List.mem_cons_self).mp ((reads_empty_iff List.mem_cons_self).mp hafter')
  exact fresh_of_reads hempty t rfl hk

/-- **Prelude and program are two chunks**, unless a program goes on with the
last line of a prelude that has one. -/
theorem own_chunk_iff (hlex : Lua.Lexes lex) (hparser : LuaParser deps lex tree)
    (htools : ∀ tool ∈ tools, checkLuaNames tool = .ok ()) (program : String) :
    OwnChunk deps tree (build deps tools).prelude program ↔ tools = [] ∨ ¬ GoesOn lex program := by
  have hsorted : ∀ tool ∈ sortTools tools, Declarable tool := by
    intro tool htool
    exact checkLuaNames_eq_ok.mp (htools tool ((List.mem_insertionSort _).mp htool))
  show OwnChunk deps tree (prelude (sortTools tools)) program ↔ _
  by_cases hne : tools = []
  · subst hne
    exact iff_of_true (ownChunk_empty hlex hparser program) (Or.inl rfl)
  · have hne' : sortTools tools ≠ [] := by
      intro hnil
      have hperm := List.perm_insertionSort
        (fun a b : ToolSchema => a.qualifiedName ≤ b.qualifiedName) tools
      rw [show List.insertionSort _ tools = [] from hnil] at hperm
      exact hne hperm.symm.eq_nil
    constructor
    · intro hown
      right
      intro hgoes
      exact not_ownChunk_of_goesOn hlex hparser hsorted hne' hgoes hown
    · rintro (hnil | hnot)
      · exact absurd hnil hne
      · exact ownChunk_of_not_goesOn hlex hparser hsorted hne' hnot

end Parser

namespace Reference

/-! ### A parser of the grammar -/

open Classical in
/-- Any tree the grammar gives the text. -/
noncomputable def parseLua (text : String) : Except ParseError Tree :=
  if h : ∃ tree tokens, Lua.lex text.toList = some tokens ∧
      grammar.Reads [nonterminal .block] tokens [tree] then .ok h.choose
  else .error ⟨.other, 1, "syntax error"⟩

/-- Core with that parser, and a compiler that accepts any block. -/
noncomputable def luaCore : Deps :=
  { reference with Block := Tree, parse := parseLua, compile := fun _ => .ok .idle }

theorem luaParser : LuaParser luaCore Lua.lex id where
  reads := by
    intro text block h
    have hparse : parseLua text = .ok block := h
    unfold parseLua at hparse
    split at hparse
    case isTrue hex =>
      cases hparse
      exact hex.choose_spec
    case isFalse => cases hparse
  accepts := by
    intro text tokens trees hlex hreads
    obtain ⟨stats, ret, rfl, -⟩ := reads_block_iff.mp hreads
    have hex : ∃ tree tokens, Lua.lex text.toList = some tokens ∧
        grammar.Reads [nonterminal .block] tokens [tree] := ⟨_, tokens, hlex, hreads⟩
    refine ⟨hex.choose, ?_⟩
    show parseLua text = _
    rw [parseLua, dif_pos hex]
    rfl

/-- `s.t`, which any principal may be allowed. -/
def tools : List ToolSchema := [tool objectSchema]

theorem tools_checked : ∀ t ∈ tools, checkLuaNames t = .ok () := by
  intro t ht
  obtain rfl := List.mem_singleton.mp ht
  decide

/-- `or nil`, and then a program. -/
def orNil : String := "or nil\nreturn 1"

def orNilTokens : List Token :=
  [leaf .binop "or", leaf .literal "nil", leaf .return_ "return", leaf .literal "1"]

theorem lex_orNil : Lua.lex orNil.toList = some orNilTokens := by decide

theorem goesOn_orNil : GoesOn Lua.lex orNil := by
  have hrun : ∃ build, firstSets.run 100 afterLine orNilTokens =
      some ([nonterminal .exptail, nonterminal .exps, nonterminal .optSemicolon], build) :=
    ⟨_, rfl⟩
  obtain ⟨build, hrun⟩ := hrun
  have hleft : grammar.Reads
      [nonterminal .exptail, nonterminal .exps, nonterminal .optSemicolon] []
      [.node .exptail [], .node .exps [], .node .optSemicolon []] := by
    apply (reads_empty_iff List.mem_cons_self).mpr
    apply (reads_empty_iff List.mem_cons_self).mpr
    apply (reads_empty_iff List.mem_cons_self).mpr
    exact Reads.nil
  have hreads := (Lua.firstSets_closed.reads_run_iff hrun []).mpr ⟨_, hleft, rfl⟩
  exact ⟨_, _, _, lex_orNil, by decide, hreads⟩

end Reference

open Reference in
theorem own_chunk_iff_return :
    OwnChunk luaCore id (build luaCore tools).prelude "return nil" := by
  refine (own_chunk_iff Lua.lexes_lex luaParser tools_checked "return nil").mpr (Or.inr ?_)
  rintro ⟨t, tokens, trees, hlex, hk, -⟩
  have hreturn : Lua.lex "return nil".toList =
      some [leaf .return_ "return", leaf .literal "nil"] := by decide
  rw [hreturn] at hlex
  cases hlex
  revert hk
  decide

open Reference in
/-- A program that starts with `or nil` compiles with a prelude, by itself it
does not parse, and the last statement of the prelude has taken it. -/
theorem or_nil_absorbed :
    (∀ t ∈ tools, checkLuaNames t = .ok ()) ∧
    (∃ compiled, compileProgram luaCore (build luaCore tools).prelude orNil = .ok compiled) ∧
    (∀ block, luaCore.parse orNil ≠ .ok block) ∧
    ¬ OwnChunk luaCore id (build luaCore tools).prelude orNil := by
  have halone : ∀ block, luaCore.parse orNil ≠ .ok block := by
    intro block hblock
    obtain ⟨tokens, hlex, hreads⟩ := luaParser.reads hblock
    rw [lex_orNil] at hlex
    obtain rfl := Option.some.inj hlex
    obtain ⟨stats, ret, -, hstats⟩ := reads_block_iff.mp hreads
    have hfirst := fresh_of_reads hstats (leaf .binop "or") rfl
    revert hfirst
    decide
  have hdeclarable : ∀ t ∈ tools, Declarable t :=
    fun t ht => checkLuaNames_eq_ok.mp (tools_checked t ht)
  have hne : tools ≠ [] := List.cons_ne_nil _ _
  have hprelude : (build luaCore tools).prelude = prelude tools := rfl
  obtain ⟨joint, hjoint⟩ := parses_joint Lua.lexes_lex luaParser hdeclarable hne goesOn_orNil
  refine ⟨tools_checked, ⟨.idle, ?_⟩, halone, ?_⟩
  · apply compileProgram_eq_ok.mpr
    rw [hprelude, terminated_prelude, compileText, hjoint]
    rfl
  · rw [hprelude]
    exact not_ownChunk_of_goesOn Lua.lexes_lex luaParser hdeclarable hne goesOn_orNil

end ProvenoGateway
