/-
ProvenoGateway/PolicyMeaning.lean

What a rules file means, and that the policy read from it decides so.

`PolicyFile.Allows` is the meaning, in terms of the decoded file alone: the
principal has a section that lists the tool, and every bound on the tool is
kept by an integer argument.  The policy is the same file with the bounds
renamed, `amount_max` to `amount`.  The renaming loses nothing because a key is
its stem with the suffix put back (`parseBounds_eq_ok`), so distinct keys have
distinct stems; and the loop of the check stops early only where a bound is
broken (`checkBounds_eq_allow`).
-/
import ProvenoGateway.Policy

namespace ProvenoGateway

/-! ### The meaning of a rules file -/

/-- A JSON integer and its value. -/
inductive IsInteger : Json → Int → Prop
  | pos (u : UInt64) : IsInteger (.num (.posInt u)) u.toNat
  | neg (i : NegInt64) : IsInteger (.num (.negInt i)) i.val

/-- The arguments are an object with an integer member `arg` of at most
`max`. -/
def Within (args : Json) (arg : String) (max : Int64) : Prop :=
  ∃ members v n, args = .obj members ∧ Json.lookup members arg = some v ∧ IsInteger v n ∧
    n ≤ max.toInt

namespace PolicyFile

variable (file : PolicyFile)

/-- The bound `<arg>_max` of a tool. -/
def bound (tool arg : String) : Option Int64 :=
  (file.constraints.get tool).bind fun bounds => bounds.get (arg ++ "_max")

/-- Every key of a constraint is a name followed by `_max`. -/
def WellNamed : Prop :=
  ∀ tool bounds, file.constraints.get tool = some bounds → ∀ key max, bounds.get key = some max →
    ∃ arg, arg ≠ "" ∧ key = arg ++ "_max"

/-- The rules let the principal call the tool with these arguments. -/
structure Allows (principal tool : String) (args : Json) : Prop where
  listed : ∃ rules, file.principals.get principal = some rules ∧ tool ∈ rules.allow
  bounded : ∀ arg max, file.bound tool arg = some max → Within args arg max

end PolicyFile

/-- The bound a policy puts on an argument of a tool. -/
def Policy.bound (policy : Policy) (tool arg : String) : Option Int64 :=
  (policy.constraints.get tool).bind fun bounds => bounds.get arg

/-! ### The loop of the check -/

/-- What the two accessors say of a value: an integer that fits `i64`, a larger
one, or no integer. -/
theorem integer_cases (v : Json) :
    (∃ n, v.asI64 = some n ∧ ∀ k, IsInteger v k ↔ k = n) ∨
    (∃ u, v.asI64 = none ∧ v.asU64 = some u ∧ 2 ^ 63 ≤ u.toNat ∧
      ∀ k, IsInteger v k ↔ k = u.toNat) ∨
    (v.asI64 = none ∧ v.asU64 = none ∧ ∀ k, ¬ IsInteger v k) := by
  have hnone : (∀ k, ¬ IsInteger v k) → v.asI64 = none → v.asU64 = none →
      v.asI64 = none ∧ v.asU64 = none ∧ ∀ k, ¬ IsInteger v k := fun h h₁ h₂ => ⟨h₁, h₂, h⟩
  cases v with
  | num n =>
    cases n with
    | posInt u =>
      have hval : ∀ k, IsInteger (.num (.posInt u)) k ↔ k = u.toNat := by
        intro k
        constructor
        · intro h
          cases h
          rfl
        · rintro rfl
          exact .pos u
      by_cases hu : u.toNat < 2 ^ 63
      · exact Or.inl ⟨u.toNat, if_pos hu, hval⟩
      · exact Or.inr (Or.inl ⟨u, if_neg hu, rfl, not_lt.mp hu, hval⟩)
    | negInt i =>
      refine Or.inl ⟨i.val, rfl, fun k => ?_⟩
      constructor
      · intro h
        cases h
        rfl
      · rintro rfl
        exact .neg i
    | float text => exact Or.inr (Or.inr (hnone (fun k h => by (cases h)) rfl rfl))
  | null => exact Or.inr (Or.inr (hnone (fun k h => by (cases h)) rfl rfl))
  | bool b => exact Or.inr (Or.inr (hnone (fun k h => by (cases h)) rfl rfl))
  | str s => exact Or.inr (Or.inr (hnone (fun k h => by (cases h)) rfl rfl))
  | arr items => exact Or.inr (Or.inr (hnone (fun k h => by (cases h)) rfl rfl))
  | obj members => exact Or.inr (Or.inr (hnone (fun k h => by (cases h)) rfl rfl))

theorem get_eq_some_iff {args v : Json} {arg : String} :
    args.get arg = some v ↔ ∃ members, args = .obj members ∧ Json.lookup members arg = some v := by
  constructor
  · intro h
    cases args with
    | obj members => exact ⟨members, rfl, h⟩
    | _ => cases h
  · rintro ⟨members, rfl, h⟩
    exact h

theorem within_iff {args : Json} {arg : String} {max : Int64} :
    Within args arg max ↔ ∃ v n, args.get arg = some v ∧ IsInteger v n ∧ n ≤ max.toInt := by
  constructor
  · rintro ⟨members, v, n, rfl, hv, hn, hle⟩
    exact ⟨v, n, hv, hn, hle⟩
  · rintro ⟨v, n, hv, hn, hle⟩
    obtain ⟨members, hargs, hlookup⟩ := get_eq_some_iff.mp hv
    exact ⟨members, v, n, hargs, hlookup, hn, hle⟩

/-- **The loop allows exactly the arguments within all bounds.** -/
theorem checkBounds_eq_allow {tool : String} {args : Json} {bounds : List (String × Int64)} :
    Policy.checkBounds tool args bounds = .allow ↔ ∀ e ∈ bounds, Within args e.1 e.2 := by
  induction bounds with
  | nil => simp [Policy.checkBounds]
  | cons e rest ih =>
    obtain ⟨arg, max⟩ := e
    rw [List.forall_mem_cons, ← ih, within_iff, Policy.checkBounds]
    cases hv : args.get arg with
    | none => simp
    | some v =>
      have hone : (∃ v' n, some v = some v' ∧ IsInteger v' n ∧ n ≤ max.toInt) ↔
          ∃ n, IsInteger v n ∧ n ≤ max.toInt := by
        constructor
        · rintro ⟨v', n, he, hn⟩
          cases he
          exact ⟨n, hn⟩
        · rintro ⟨n, hn⟩
          exact ⟨v, n, rfl, hn⟩
      rw [hone]
      rcases integer_cases v with ⟨n, h₁, hval⟩ | ⟨u, h₁, h₂, hu, hval⟩ | ⟨h₁, h₂, hval⟩
      · -- an integer that fits: compared
        have hle : (∃ k, IsInteger v k ∧ k ≤ max.toInt) ↔ n ≤ max.toInt := by
          simp only [hval, exists_eq_left]
        rw [hle]
        by_cases hn : max.toInt < n
        · simp [h₁, hn]
        · simp [h₁, hn, not_lt.mp hn]
      · -- a larger one: above every bound
        have hgt : ¬ ∃ k, IsInteger v k ∧ k ≤ max.toInt := by
          rintro ⟨k, hk, hle⟩
          have hmax := max.toInt_lt
          rw [(hval k).mp hk] at hle
          omega
        simp [h₁, h₂, hgt]
      · have hno : ¬ ∃ k, IsInteger v k ∧ k ≤ max.toInt := fun ⟨k, hk, _⟩ => hval k hk
        simp [h₁, h₂, hno]

/-- The check, in terms of the policy. -/
theorem check_eq_allow {policy : Policy} {principal tool : String} {args : Json} :
    policy.check principal tool args = .allow ↔
      (∃ allow, policy.principals.get principal = some allow ∧ allow.contains tool = true) ∧
      ∀ arg max, policy.bound tool arg = some max → Within args arg max := by
  unfold Policy.check Policy.bound
  cases hp : policy.principals.get principal with
  | none => simp
  | some allow =>
    cases ht : allow.contains tool with
    | false => simp [ht]
    | true =>
      have hbounds : (∀ e ∈ (((policy.constraints.get tool).map OrdMap.entries).getD []),
            Within args e.1 e.2) ↔
          ∀ arg max, ((policy.constraints.get tool).bind fun bounds => bounds.get arg) = some max →
            Within args arg max := by
        cases policy.constraints.get tool with
        | none => simp
        | some bounds => simp [OrdMap.get_eq_some]
      simp [ht, checkBounds_eq_allow, ← hbounds]

/-! ### Reading the rules -/

theorem stem_eq_some {key arg : String} :
    (Text.stripSuffix "_max" key).filter (· ≠ "") = some arg ↔ arg ≠ "" ∧ key = arg ++ "_max" := by
  rw [Option.filter_eq_some_iff, Text.stripSuffix_eq_some]
  simp [and_comm]

/-- The keys of one tool are accepted if each is a name with the suffix; the
bounds are then inserted under these names. -/
theorem parseBounds_eq_ok {tool : String} {bounds : List (String × Int64)}
    {args args' : OrdMap String Int64} :
    Policy.parseBounds tool bounds args = .ok args' ↔
      ∃ stems : List (String × Int64), bounds = stems.map (fun e => (e.1 ++ "_max", e.2)) ∧
        (∀ e ∈ stems, e.1 ≠ "") ∧ args' = stems.foldl (fun m e => m.insert e.1 e.2) args := by
  induction bounds generalizing args with
  | nil =>
    rw [Policy.parseBounds]
    constructor
    · intro h
      cases h
      exact ⟨[], rfl, by simp, rfl⟩
    · rintro ⟨stems, hstems, -, rfl⟩
      cases stems with
      | nil => rfl
      | cons e rest => cases hstems
  | cons e rest ih =>
    obtain ⟨key, max⟩ := e
    rw [Policy.parseBounds]
    cases hs : (Text.stripSuffix "_max" key).filter (· ≠ "") with
    | none =>
      constructor
      · intro h
        cases h
      · rintro ⟨stems, hstems, hne, -⟩
        cases stems with
        | nil => cases hstems
        | cons e' rest' =>
          simp only [List.map_cons, List.cons.injEq, Prod.mk.injEq] at hstems
          have hsome := stem_eq_some.mpr ⟨hne e' List.mem_cons_self, hstems.1.1⟩
          rw [hs] at hsome
          cases hsome
    | some arg =>
      obtain ⟨harg, hkey⟩ := stem_eq_some.mp hs
      show Policy.parseBounds tool rest (args.insert arg max) = .ok args' ↔ _
      rw [ih]
      constructor
      · rintro ⟨stems, rfl, hne, rfl⟩
        refine ⟨(arg, max) :: stems, by rw [hkey]; rfl, ?_, rfl⟩
        rw [List.forall_mem_cons]
        exact ⟨harg, hne⟩
      · rintro ⟨stems, hstems, hne, rfl⟩
        cases stems with
        | nil => cases hstems
        | cons e' rest' =>
          simp only [List.map_cons, List.cons.injEq, Prod.mk.injEq] at hstems
          obtain ⟨⟨hkey', rfl⟩, hrest⟩ := hstems
          obtain rfl : arg = e'.1 := by
            rw [hkey] at hkey'
            exact (String.append_left_inj _).mp hkey'
          exact ⟨rest', hrest, fun e he => hne e (List.mem_cons_of_mem _ he), rfl⟩

section Bounds

variable {stems : List (String × Int64)}

theorem max_inj {a b : String} : a ++ "_max" = b ++ "_max" ↔ a = b := String.append_left_inj _

/-- Distinct keys have distinct stems. -/
theorem stems_nodup {bounds : OrdMap String Int64}
    (h : bounds.entries = stems.map fun e => (e.1 ++ "_max", e.2)) :
    (stems.map Prod.fst).Nodup := by
  have hkeys : bounds.keys = (stems.map Prod.fst).map (· ++ "_max") := by
    show bounds.entries.map Prod.fst = _
    rw [h, List.map_map, List.map_map]
    rfl
  have hnodup := bounds.keys_nodup
  rw [hkeys] at hnodup
  exact List.Nodup.of_map _ hnodup

/-- The bounds of one tool, read: each under its stem, and no other. -/
theorem get_of_parseBounds {tool arg : String} {bounds args : OrdMap String Int64}
    (h : Policy.parseBounds tool bounds.entries OrdMap.empty = .ok args) :
    args.get arg = bounds.get (arg ++ "_max") := by
  obtain ⟨stems, hstems, hne, rfl⟩ := parseBounds_eq_ok.mp h
  apply Option.ext
  intro max
  have hleft : (stems.foldl (fun m e => m.insert e.1 e.2) OrdMap.empty).get arg = some max ↔
      (arg, max) ∈ stems := OrdMap.get_ofList (stems_nodup hstems)
  have hright : bounds.get (arg ++ "_max") = some max ↔ (arg, max) ∈ stems := by
    rw [OrdMap.get_eq_some, hstems, List.mem_map]
    constructor
    · rintro ⟨e, he, heq⟩
      obtain ⟨hkey, hmax⟩ := Prod.mk.inj heq
      rw [← max_inj.mp hkey, ← hmax]
      exact he
    · exact fun he => ⟨(arg, max), he, rfl⟩
  rw [hleft, hright]

/-- The bounds of one tool are accepted exactly if all keys are names with the
suffix. -/
theorem parseBounds_isOk {tool : String} {bounds : OrdMap String Int64} :
    (∃ args, Policy.parseBounds tool bounds.entries OrdMap.empty = .ok args) ↔
      ∀ key max, bounds.get key = some max → ∃ arg, arg ≠ "" ∧ key = arg ++ "_max" := by
  constructor
  · rintro ⟨args, h⟩ key max hget
    obtain ⟨stems, hstems, hne, -⟩ := parseBounds_eq_ok.mp h
    rw [OrdMap.get_eq_some, hstems, List.mem_map] at hget
    obtain ⟨e, he, heq⟩ := hget
    obtain ⟨hkey, -⟩ := Prod.mk.inj heq
    exact ⟨e.1, hne e he, hkey.symm⟩
  · intro h
    have hstems : ∀ l : List (String × Int64), (∀ e ∈ l, ∃ arg, arg ≠ "" ∧ e.1 = arg ++ "_max") →
        ∃ stems : List (String × Int64), l = stems.map (fun e => (e.1 ++ "_max", e.2)) ∧
          ∀ e ∈ stems, e.1 ≠ "" := by
      intro l
      induction l with
      | nil => exact fun _ => ⟨[], rfl, by simp⟩
      | cons e rest ih =>
        intro hl
        obtain ⟨arg, hne, hkey⟩ := hl e List.mem_cons_self
        obtain ⟨stems, hrest, hnes⟩ := ih fun e' he' => hl e' (List.mem_cons_of_mem _ he')
        refine ⟨(arg, e.2) :: stems, ?_, ?_⟩
        · rw [List.map_cons, ← hrest, ← hkey]
        · rw [List.forall_mem_cons]
          exact ⟨hne, hnes⟩
    obtain ⟨stems, hbounds, hne⟩ := hstems bounds.entries fun e he =>
      h e.1 e.2 (OrdMap.get_eq_some.mpr he)
    exact ⟨_, parseBounds_eq_ok.mpr ⟨stems, hbounds, hne, rfl⟩⟩

end Bounds

/-- A table of the file and what is read of it. -/
def ReadAs (table read : String × OrdMap String Int64) : Prop :=
  read.1 = table.1 ∧ Policy.parseBounds table.1 table.2.entries OrdMap.empty = .ok read.2

/-- The tables are read one by one, each under its tool. -/
theorem parseConstraints_eq_ok {tables : List (String × OrdMap String Int64)}
    {constraints constraints' : OrdMap String (OrdMap String Int64)} :
    Policy.parseConstraints tables constraints = .ok constraints' ↔
      ∃ read, List.Forall₂ ReadAs tables read ∧
        constraints' = read.foldl (fun m e => m.insert e.1 e.2) constraints := by
  induction tables generalizing constraints with
  | nil =>
    rw [Policy.parseConstraints]
    constructor
    · intro h
      cases h
      exact ⟨[], .nil, rfl⟩
    · rintro ⟨read, hread, rfl⟩
      cases hread
      rfl
  | cons t rest ih =>
    obtain ⟨tool, bounds⟩ := t
    rw [Policy.parseConstraints]
    constructor
    · intro h
      cases hb : Policy.parseBounds tool bounds.entries OrdMap.empty with
      | error e =>
        rw [hb] at h
        cases h
      | ok args =>
        rw [hb] at h
        obtain ⟨read, hread, hall⟩ := ih.mp h
        exact ⟨(tool, args) :: read, .cons ⟨rfl, hb⟩ hread, hall⟩
    · rintro ⟨read, hread, hall⟩
      cases hread with
      | @cons _ r _ read hhd htl =>
        obtain ⟨hname, hb⟩ := hhd
        dsimp only at hname hb
        rw [hb]
        rw [List.foldl_cons, hname] at hall
        exact ih.mpr ⟨read, htl, hall⟩

section Tables

variable {tables read : List (String × OrdMap String Int64)}

/-- The tools are those of the file. -/
theorem read_names (h : List.Forall₂ ReadAs tables read) :
    read.map Prod.fst = tables.map Prod.fst := by
  induction h with
  | nil => rfl
  | cons hhd _ ih => rw [List.map_cons, List.map_cons, hhd.1, ih]

theorem exists_read (h : ∀ t ∈ tables, ∃ r, ReadAs t r) : ∃ read, List.Forall₂ ReadAs tables read := by
  induction tables with
  | nil => exact ⟨[], .nil⟩
  | cons t rest ih =>
    obtain ⟨r, hr⟩ := h t List.mem_cons_self
    obtain ⟨read, hread⟩ := ih fun t' ht' => h t' (List.mem_cons_of_mem _ ht')
    exact ⟨r :: read, .cons hr hread⟩

end Tables

section Parse

variable {toml : String → Except String PolicyFile} {text : String} {file : PolicyFile}
  {policy : Policy}

/-- Reading a decoded file. -/
theorem parse_eq_ok (hfile : toml text = .ok file) :
    Policy.parse toml text = .ok policy ↔ ∃ read,
      List.Forall₂ ReadAs file.constraints.entries read ∧
      policy = ⟨OrdMap.ofList (file.principals.entries.map fun p => (p.1, OrdSet.ofList p.2.allow)),
        OrdMap.ofList read⟩ := by
  have hunfold : Policy.parse toml text =
      (Policy.parseConstraints file.constraints.entries OrdMap.empty).map fun constraints =>
        ⟨OrdMap.ofList (file.principals.entries.map fun p => (p.1, OrdSet.ofList p.2.allow)),
          constraints⟩ := by
    unfold Policy.parse
    rw [hfile]
    show (Policy.parseConstraints file.constraints.entries OrdMap.empty >>= fun constraints =>
      Except.ok (Policy.mk _ constraints)) = _
    cases Policy.parseConstraints file.constraints.entries OrdMap.empty <;> rfl
  rw [hunfold]
  constructor
  · intro h
    cases hc : Policy.parseConstraints file.constraints.entries OrdMap.empty with
    | error e =>
      rw [hc] at h
      cases h
    | ok constraints =>
      rw [hc] at h
      cases h
      obtain ⟨read, hread, rfl⟩ := parseConstraints_eq_ok.mp hc
      exact ⟨read, hread, rfl⟩
  · rintro ⟨read, hread, rfl⟩
    rw [parseConstraints_eq_ok.mpr ⟨read, hread, rfl⟩]
    rfl

/-- **A file is accepted exactly if all its keys are well named.** -/
theorem parse_accepts (hfile : toml text = .ok file) :
    (∃ policy, Policy.parse toml text = .ok policy) ↔ file.WellNamed := by
  constructor
  · rintro ⟨policy, h⟩ tool bounds hb
    obtain ⟨read, hread, -⟩ := (parse_eq_ok hfile).mp h
    obtain ⟨r, -, -, hr⟩ := exists_right hread (OrdMap.get_eq_some.mp hb)
    exact parseBounds_isOk.mp ⟨r.2, hr⟩
  · intro h
    obtain ⟨read, hread⟩ : ∃ read, List.Forall₂ ReadAs file.constraints.entries read := by
      apply exists_read
      intro t ht
      obtain ⟨args, hargs⟩ : ∃ args, Policy.parseBounds t.1 t.2.entries OrdMap.empty = .ok args :=
        parseBounds_isOk.mpr (h t.1 t.2 (OrdMap.get_eq_some.mpr ht))
      exact ⟨(t.1, args), rfl, hargs⟩
    exact ⟨_, (parse_eq_ok hfile).mpr ⟨read, hread, rfl⟩⟩

/-- The tables of the policy are those of the file, each read on its own. -/
theorem constraints_of_parse (hfile : toml text = .ok file)
    (h : Policy.parse toml text = .ok policy) (tool : String) :
    match file.constraints.get tool with
    | none => policy.constraints.get tool = none
    | some bounds => ∃ args, policy.constraints.get tool = some args ∧
        Policy.parseBounds tool bounds.entries OrdMap.empty = .ok args := by
  obtain ⟨read, hread, rfl⟩ := (parse_eq_ok hfile).mp h
  have hnodup : (read.map Prod.fst).Nodup := by
    rw [read_names hread]
    exact file.constraints.keys_nodup
  cases hb : file.constraints.get tool with
  | none =>
    show (OrdMap.ofList read).get tool = none
    rw [Option.eq_none_iff_forall_ne_some]
    intro args hargs
    have hmem : tool ∈ read.map Prod.fst :=
      List.mem_map.mpr ⟨_, (OrdMap.get_ofList hnodup).mp hargs, rfl⟩
    rw [read_names hread] at hmem
    obtain ⟨t, ht, rfl⟩ := List.mem_map.mp hmem
    have hsome := OrdMap.get_eq_some.mpr ht
    rw [hb] at hsome
    cases hsome
  | some bounds =>
    obtain ⟨⟨name, args⟩, hmem, hname, hargs⟩ := exists_right hread (OrdMap.get_eq_some.mp hb)
    cases hname
    exact ⟨args, (OrdMap.get_ofList hnodup).mpr hmem, hargs⟩

/-- **The policy has the bounds of the file**: none is lost, and none is
attached to another argument or tool. -/
theorem bound_of_parse (hfile : toml text = .ok file) (h : Policy.parse toml text = .ok policy)
    (tool arg : String) : policy.bound tool arg = file.bound tool arg := by
  have htable := constraints_of_parse hfile h tool
  unfold Policy.bound PolicyFile.bound
  cases hb : file.constraints.get tool with
  | none =>
    rw [hb] at htable
    rw [show policy.constraints.get tool = none from htable]
    rfl
  | some bounds =>
    rw [hb] at htable
    obtain ⟨args, hargs, hparse⟩ := htable
    rw [hargs]
    exact get_of_parseBounds hparse

theorem principals_of_parse (hfile : toml text = .ok file)
    (h : Policy.parse toml text = .ok policy) (principal : String) :
    policy.principals.get principal =
      (file.principals.get principal).map fun rules => OrdSet.ofList rules.allow := by
  obtain ⟨read, -, rfl⟩ := (parse_eq_ok hfile).mp h
  exact OrdMap.get_ofList_map file.principals (fun rules => OrdSet.ofList rules.allow) principal

/-- **Decisions mean what the rules file says.**  A decoded file is accepted
exactly if every constraint key is a name followed by `_max`; the policy then
has exactly the bounds of the file, and it allows a call exactly if the file
does. -/
theorem check_follows_rules (hfile : toml text = .ok file) :
    ((∃ policy, Policy.parse toml text = .ok policy) ↔ file.WellNamed) ∧
    ∀ policy, Policy.parse toml text = .ok policy →
      (∀ tool arg, policy.bound tool arg = file.bound tool arg) ∧
      ∀ principal tool args,
        (file.Allows principal tool args ∧ policy.check principal tool args = .allow) ∨
        (¬ file.Allows principal tool args ∧
          ∃ reason, policy.check principal tool args = .deny reason) := by
  refine ⟨parse_accepts hfile, fun policy h => ⟨bound_of_parse hfile h, ?_⟩⟩
  intro principal tool args
  have hallows : policy.check principal tool args = .allow ↔ file.Allows principal tool args := by
    rw [check_eq_allow, principals_of_parse hfile h]
    have hlisted : (∃ allow, (file.principals.get principal).map (fun rules =>
          OrdSet.ofList rules.allow) = some allow ∧ allow.contains tool = true) ↔
        ∃ rules, file.principals.get principal = some rules ∧ tool ∈ rules.allow := by
      simp [OrdSet.contains_ofList]
    have hbounded : (∀ arg max, policy.bound tool arg = some max → Within args arg max) ↔
        ∀ arg max, file.bound tool arg = some max → Within args arg max := by
      simp only [bound_of_parse hfile h]
    rw [hlisted, hbounded]
    exact ⟨fun h => ⟨h.1, h.2⟩, fun h => ⟨h.listed, h.bounded⟩⟩
  cases hcheck : policy.check principal tool args with
  | allow => exact Or.inl ⟨hallows.mp hcheck, rfl⟩
  | deny reason =>
    refine Or.inr ⟨fun hfileAllows => ?_, reason, rfl⟩
    have hallow := hallows.mpr hfileAllows
    rw [hcheck] at hallow
    cases hallow

end Parse

namespace Reference

/-- A rules file and its text. -/
def rules : PolicyFile where
  principals := OrdMap.empty.insert "demo-agent" ⟨["wallet.transfer"]⟩
  constraints := OrdMap.empty.insert "wallet.transfer" (OrdMap.empty.insert "amount_max" 50)

def rulesText : String :=
  "[principals.demo-agent]\nallow = [\"wallet.transfer\"]\n\n" ++
    "[constraints.\"wallet.transfer\"]\namount_max = 50\n"

def rulesToml (text : String) : Except String PolicyFile :=
  if text = rulesText then .ok rules else .error "TOML parse error at line 1, column 1"

def transferOf (amount : UInt64) : Json := .obj [("amount", .num (.posInt amount))]

end Reference

open Reference in
theorem check_follows_rules_reference : ∃ policy, Policy.parse rulesToml rulesText = .ok policy ∧
    policy.bound "wallet.transfer" "amount" = some 50 ∧
    rules.Allows "demo-agent" "wallet.transfer" (transferOf 20) ∧
    ¬ rules.Allows "demo-agent" "wallet.transfer" (transferOf 18446744073709551615) := by
  have hfile : rulesToml rulesText = .ok rules := if_pos rfl
  obtain ⟨-, hall⟩ := check_follows_rules hfile
  obtain ⟨policy, hparse⟩ : ∃ policy, Policy.parse rulesToml rulesText = .ok policy := ⟨_, rfl⟩
  obtain ⟨hbound, hcheck⟩ := hall policy hparse
  refine ⟨policy, hparse, hbound _ _, ?_, ?_⟩
  · rcases hcheck "demo-agent" "wallet.transfer" (transferOf 20) with h | ⟨-, reason, h⟩
    · exact h.1
    · cases hparse
      cases h
  · rcases hcheck "demo-agent" "wallet.transfer" (transferOf 18446744073709551615) with h | h
    · cases hparse
      cases h.2
    · exact h.1

end ProvenoGateway
