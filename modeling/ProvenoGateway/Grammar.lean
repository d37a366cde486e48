/-
ProvenoGateway/Grammar.lean

Context-free grammars and their derivation trees, as a library of its own.

`Reads g stack tokens trees` says that the symbols of `stack` derive the
tokens, in this order, and that `trees` are the derivations: one relation for
a symbol, a rule or what a parser still expects.  The grammar may be ambiguous;
nothing is said about how a tree is found.

`FirstSets` is a table of the kinds a nonterminal can start with.  Over it,
`run` reads a known start of the input as long as the next token leaves one
rule.  `reads_run_iff` is what that is for: whatever follows the known tokens,
every derivation is a derivation of what follows from the stack that is left.
-/
import Mathlib.Computability.Language

/-- The right-hand sides of each nonterminal, and the kind of a token. -/
structure Grammar (N K T : Type) where
  rules : N → List (List (Symbol K N))
  kind : T → K

namespace Grammar

variable {N K T : Type}

/-! ### Derivations -/

inductive Tree (N T : Type)
  | token (t : T)
  | node (n : N) (children : List (Tree N T))

variable (g : Grammar N K T)

/-- The symbols derive the tokens, by these trees. -/
inductive Reads : List (Symbol K N) → List T → List (Tree N T) → Prop
  | nil : Reads [] [] []
  | token (t : T) {stack : List (Symbol K N)} {tokens : List T} {trees : List (Tree N T)} :
      Reads stack tokens trees →
      Reads (.terminal (g.kind t) :: stack) (t :: tokens) (.token t :: trees)
  | node (n : N) (rule : List (Symbol K N)) {stack : List (Symbol K N)} {tokens : List T}
      {children trees : List (Tree N T)} :
      rule ∈ g.rules n → children.length = rule.length →
      Reads (rule ++ stack) tokens (children ++ trees) →
      Reads (.nonterminal n :: stack) tokens (.node n children :: trees)

variable {g} {stack : List (Symbol K N)} {tokens : List T} {trees : List (Tree N T)}

/-- There is a tree for each symbol. -/
theorem Reads.length_eq (h : g.Reads stack tokens trees) : trees.length = stack.length := by
  induction h with
  | nil => rfl
  | token t _ ih => simp only [List.length_cons, ih]
  | node n rule _ hlength _ ih =>
    simp only [List.length_append] at ih
    simp only [List.length_cons]
    omega

theorem reads_terminal_iff {k : K} :
    g.Reads (.terminal k :: stack) tokens trees ↔
      ∃ t tokens' trees', tokens = t :: tokens' ∧ trees = .token t :: trees' ∧ g.kind t = k ∧
        g.Reads stack tokens' trees' := by
  constructor
  · intro h
    cases h with
    | token t h => exact ⟨t, _, _, rfl, rfl, rfl, h⟩
  · rintro ⟨t, tokens', trees', rfl, rfl, rfl, h⟩
    exact Reads.token t h

/-- A nonterminal is expanded by one of its rules. -/
theorem reads_nonterminal_iff {n : N} :
    g.Reads (.nonterminal n :: stack) tokens trees ↔
      ∃ rule ∈ g.rules n, ∃ children trees', trees = .node n children :: trees' ∧
        children.length = rule.length ∧ g.Reads (rule ++ stack) tokens (children ++ trees') := by
  constructor
  · intro h
    cases h with
    | node n rule hrule hlength h => exact ⟨rule, hrule, _, _, rfl, hlength, h⟩
  · rintro ⟨rule, hrule, children, trees', rfl, hlength, h⟩
    exact Reads.node n rule hrule hlength h

/-- An empty node stands for no tokens. -/
theorem reads_empty_iff {n : N} (hempty : [] ∈ g.rules n) :
    g.Reads (.nonterminal n :: stack) tokens (.node n [] :: trees) ↔
      g.Reads stack tokens trees := by
  rw [reads_nonterminal_iff]
  constructor
  · rintro ⟨rule, -, children, trees', htrees, hlength, h⟩
    cases htrees
    obtain rfl : rule = [] := List.eq_nil_of_length_eq_zero hlength.symm
    exact h
  · intro h
    exact ⟨[], hempty, [], trees, rfl, rfl, h⟩

/-- Where every rule but the empty one starts with another kind than the next
token, the nonterminal is empty. -/
theorem reads_skip_iff {n : N} (hempty : [] ∈ g.rules n)
    (hrules : ∀ rule ∈ g.rules n, rule ≠ [] →
      ∃ k rest, rule = .terminal k :: rest ∧ ∀ t ∈ tokens.head?, g.kind t ≠ k) :
    g.Reads (.nonterminal n :: stack) tokens trees ↔
      ∃ trees', trees = .node n [] :: trees' ∧ g.Reads stack tokens trees' := by
  constructor
  · intro h
    obtain ⟨rule, hrule, children, trees', rfl, hlength, h'⟩ := reads_nonterminal_iff.mp h
    by_cases hnil : rule = []
    · subst hnil
      obtain rfl : children = [] := List.eq_nil_of_length_eq_zero hlength
      exact ⟨trees', rfl, h'⟩
    · obtain ⟨k, rest, rfl, hother⟩ := hrules rule hrule hnil
      rw [List.cons_append] at h'
      obtain ⟨t, tokens', -, rfl, -, hkind, -⟩ := reads_terminal_iff.mp h'
      exact absurd hkind (hother t rfl)
  · rintro ⟨trees', rfl, h⟩
    exact (reads_empty_iff hempty).mpr h

/-! ### First sets -/

/-- Which nonterminals may derive nothing, and the kinds a nonterminal may
start with, closed under the rules. -/
structure FirstSets (g : Grammar N K T) where
  nullable : N → Bool
  first : N → List K

namespace FirstSets

variable (sets : FirstSets g)

/-- Whether all the symbols may derive nothing. -/
def erases : List (Symbol K N) → Bool
  | [] => true
  | .terminal _ :: _ => false
  | .nonterminal n :: rest => sets.nullable n && erases rest

/-- The kinds the symbols may start with. -/
def starts : List (Symbol K N) → List K
  | [] => []
  | .terminal k :: _ => [k]
  | .nonterminal n :: rest => sets.first n ++ if sets.nullable n then starts rest else []

/-- Every rule of a nonterminal agrees with its entries. -/
structure Closed : Prop where
  nullable : ∀ n, ∀ rule ∈ g.rules n, sets.erases rule = true → sets.nullable n = true
  first : ∀ n, ∀ rule ∈ g.rules n, sets.starts rule ⊆ sets.first n

variable {sets}

theorem erases_append {a b : List (Symbol K N)} :
    sets.erases (a ++ b) = (sets.erases a && sets.erases b) := by
  induction a with
  | nil => simp [erases]
  | cons s a ih => cases s <;> simp [erases, ih, Bool.and_assoc]

theorem mem_starts_append {a b : List (Symbol K N)} {k : K} :
    k ∈ sets.starts (a ++ b) ↔
      k ∈ sets.starts a ∨ (sets.erases a = true ∧ k ∈ sets.starts b) := by
  induction a with
  | nil => simp [starts, erases]
  | cons s a ih =>
    cases s with
    | terminal k' => simp [starts, erases]
    | nonterminal n =>
      cases hn : sets.nullable n with
      | false => simp [starts, erases, hn]
      | true => simp [starts, erases, hn, ih, or_assoc]

/-- What derives a token may start with its kind, and what derives nothing may
derive nothing. -/
theorem Closed.sound (hclosed : sets.Closed) (h : g.Reads stack tokens trees) :
    (tokens = [] → sets.erases stack = true) ∧
      ∀ t ∈ tokens.head?, g.kind t ∈ sets.starts stack := by
  induction h with
  | nil => simp [erases]
  | token t _ _ => simp [starts]
  | @node n rule stack tokens children trees hrule _ _ ih =>
    obtain ⟨hnil, hhead⟩ := ih
    have hnullable : sets.erases rule = true → sets.nullable n = true :=
      hclosed.nullable n rule hrule
    refine ⟨fun htokens => ?_, fun t ht => ?_⟩
    · have hboth := hnil htokens
      rw [erases_append, Bool.and_eq_true] at hboth
      rw [erases, hnullable hboth.1, hboth.2]
      rfl
    · rw [starts, List.mem_append]
      rcases mem_starts_append.mp (hhead t ht) with hfirst | ⟨herases, hrest⟩
      · exact Or.inl (hclosed.first n rule hrule hfirst)
      · right
        rw [hnullable herases]
        exact hrest

/-! ### Reading a known start of the input -/

variable (sets) [DecidableEq K]

/-- The rules that can go on with a token of kind `k`. -/
def choices (n : N) (stack : List (Symbol K N)) (k : K) : List (List (Symbol K N)) :=
  (g.rules n).filter fun rule => decide (k ∈ sets.starts (rule ++ stack))

/-- Read the tokens as long as there is one choice: the stack that is left, and
the trees of the whole from those of the rest. -/
def run : Nat → List (Symbol K N) → List T →
    Option (List (Symbol K N) × (List (Tree N T) → List (Tree N T)))
  | _, stack, [] => some (stack, id)
  | fuel + 1, .terminal k :: stack, t :: tokens =>
      if g.kind t = k then
        (run fuel stack tokens).map fun r => (r.1, fun trees => .token t :: r.2 trees)
      else none
  | fuel + 1, .nonterminal n :: stack, t :: tokens =>
      match choices sets n stack (g.kind t) with
      | [rule] =>
          (run fuel (rule ++ stack) (t :: tokens)).map fun r =>
            (r.1, fun trees =>
              .node n ((r.2 trees).take rule.length) :: (r.2 trees).drop rule.length)
      | _ => none
  | _, _, _ :: _ => none

variable {sets}

theorem mem_choices {n : N} {k : K} {rule : List (Symbol K N)} :
    rule ∈ choices sets n stack k ↔ rule ∈ g.rules n ∧ k ∈ sets.starts (rule ++ stack) := by
  simp [choices]

/-- **Whatever follows the known tokens, it is read from the stack that is
left.** -/
theorem Closed.reads_run_iff (hclosed : sets.Closed) {fuel : Nat} {known : List T}
    {left : List (Symbol K N)} {build : List (Tree N T) → List (Tree N T)}
    (hrun : run sets fuel stack known = some (left, build)) (more : List T) :
    g.Reads stack (known ++ more) trees ↔
      ∃ rest, g.Reads left more rest ∧ trees = build rest := by
  -- along the run; a step on a nonterminal keeps the tokens
  induction fuel, stack, known using run.induct sets generalizing left build trees with
  | case1 fuel stack =>
    rw [run] at hrun
    cases hrun
    constructor
    · intro h
      exact ⟨trees, h, rfl⟩
    · rintro ⟨rest, h, rfl⟩
      exact h
  | case2 fuel stack t tokens ih =>
    rw [run, if_pos rfl] at hrun
    obtain ⟨⟨left', build'⟩, hrest, hpair⟩ := Option.map_eq_some_iff.mp hrun
    cases hpair
    rw [List.cons_append, reads_terminal_iff]
    constructor
    · rintro ⟨t', tokens', trees', htokens, rfl, -, h⟩
      cases htokens
      obtain ⟨rest, hr, rfl⟩ := (ih hrest).mp h
      exact ⟨rest, hr, rfl⟩
    · rintro ⟨rest, hr, rfl⟩
      exact ⟨t, _, _, rfl, rfl, rfl, (ih hrest).mpr ⟨rest, hr, rfl⟩⟩
  | case3 fuel k stack t tokens hk =>
    rw [run, if_neg hk] at hrun
    cases hrun
  | case4 fuel n stack t tokens rule hrule ih =>
    simp only [run, hrule] at hrun
    obtain ⟨⟨left', build'⟩, hrest, hpair⟩ := Option.map_eq_some_iff.mp hrun
    cases hpair
    have hmem : rule ∈ g.rules n := by
      have hone : rule ∈ choices sets n stack (g.kind t) := by
        rw [hrule]
        exact List.mem_singleton.mpr rfl
      exact (mem_choices.mp hone).1
    rw [reads_nonterminal_iff]
    constructor
    · rintro ⟨rule', hrule', children, trees', rfl, hlength, h⟩
      -- the rule is the one choice, by its first kind
      have hstart : g.kind t ∈ sets.starts (rule' ++ stack) := (hclosed.sound h).2 t rfl
      have hchoice : rule' ∈ choices sets n stack (g.kind t) := mem_choices.mpr ⟨hrule', hstart⟩
      rw [hrule, List.mem_singleton] at hchoice
      subst hchoice
      obtain ⟨rest, hr, htrees⟩ := (ih hrest).mp h
      refine ⟨rest, hr, ?_⟩
      show _ = Tree.node n ((build' rest).take rule'.length) :: (build' rest).drop rule'.length
      rw [← htrees, ← hlength, List.take_left, List.drop_left]
    · rintro ⟨rest, hr, rfl⟩
      have h : g.Reads (rule ++ stack) ((t :: tokens) ++ more) (build' rest) :=
        (ih hrest).mpr ⟨rest, hr, rfl⟩
      have hlength := h.length_eq
      rw [List.length_append] at hlength
      refine ⟨rule, hmem, _, _, rfl, ?_, ?_⟩
      · show ((build' rest).take rule.length).length = rule.length
        rw [List.length_take]
        omega
      · rw [List.take_append_drop]
        exact h
  | case5 fuel n stack t tokens hno =>
    rw [run] at hrun
    split at hrun
    case h_1 rule hrule => exact absurd hrule (hno rule)
    case h_2 => cases hrun
  | case6 fuel stack t tokens hterminal hnonterminal =>
    cases fuel with
    | zero => cases hrun
    | succ fuel =>
      cases stack with
      | nil => cases hrun
      | cons s stack =>
        cases s with
        | terminal k => exact absurd rfl (hterminal fuel k stack rfl)
        | nonterminal n => exact absurd rfl (hnonterminal fuel n stack rfl)

end FirstSets

end Grammar
