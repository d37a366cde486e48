/-
ProvenoGateway/PolicyHash.lean

What the policy hash in a trace stands for.

The hash is that of the policy's JSON text, which determines the policy: the
text determines the JSON value, and the value has every map and set of the
policy as ordered members (`toJson_injective`).  Ordered maps are determined by
their lookups, so equal hashes are the same principals, allow sets, tables and
bounds (`policyHash_commits`).  In the other direction the decoder hands the
tables of a file over as ordered maps, so their order is gone before the policy
is built, and an allow set forgets order and repetition
(`Layout.Same.policy`).
-/
import Mathlib.Data.Set.Function
import ProvenoGateway.PolicyMeaning
import ProvenoGateway.Reference

namespace ProvenoGateway

/-! ### The text determines the policy -/

namespace Policy

theorem asI64_i64ToJson (i : Int64) : (i64ToJson i).asI64 = some i.toInt := by
  unfold i64ToJson
  split
  case isTrue h => rfl
  case isFalse h =>
    have hlt := i.toInt_lt
    have hnat : (UInt64.ofNat i.toInt.toNat).toNat = i.toInt.toNat := by
      rw [UInt64.toNat_ofNat_of_lt']
      show i.toInt.toNat < 2 ^ 64
      omega
    show (if _ < 2 ^ 63 then some _ else none) = some i.toInt
    rw [hnat, if_pos (by omega)]
    congr 1
    omega

theorem i64ToJson_injective : Function.Injective i64ToJson := by
  intro i j h
  have hval : some i.toInt = some j.toInt := by
    rw [← asI64_i64ToJson, h, asI64_i64ToJson]
  exact Int64.toInt_inj.mp (Option.some.inj hval)

theorem exact_i64ToJson (i : Int64) : (i64ToJson i).Exact := by
  unfold i64ToJson
  split
  case isTrue => trivial
  case isFalse => exact Serde.exact_num _

theorem exactMembers_map {α : Type} {l : List (String × α)} {f : α → Json}
    (h : ∀ a, (f a).Exact) : Json.ExactMembers (l.map fun e => (e.1, f e.2)) := by
  induction l with
  | nil => trivial
  | cons e rest ih => exact ⟨h e.2, ih⟩

/-- An allow set as JSON. -/
def allowToJson (allow : OrdSet String) : Json := .arr (allow.keys.map Json.str)

/-- The bounds of one tool as JSON. -/
def boundsToJson (bounds : OrdMap String Int64) : Json :=
  .obj (bounds.entries.map fun b => (b.1, i64ToJson b.2))

theorem exact_toJson (policy : Policy) : policy.toJson.Exact := by
  have hallow : ∀ allow, (allowToJson allow).Exact := by
    intro allow
    show Json.ExactItems _
    rw [Json.exactItems_iff]
    intro v hv
    obtain ⟨s, -, rfl⟩ := List.mem_map.mp hv
    trivial
  have hbounds : ∀ bounds, (boundsToJson bounds).Exact := fun bounds =>
    exactMembers_map exact_i64ToJson
  exact ⟨exactMembers_map hallow, exactMembers_map hbounds, trivial⟩

/-- A map whose values are written injectively is written injectively. -/
theorem entries_injective {α : Type} {f : α → Json} (hf : Function.Injective f)
    {m m' : OrdMap String α}
    (h : (m.entries.map fun e => (e.1, f e.2)) = m'.entries.map fun e => (e.1, f e.2)) : m = m' := by
  have hpair : Function.Injective fun e : String × α => (e.1, f e.2) := by
    rintro ⟨k, a⟩ ⟨k', a'⟩ he
    obtain ⟨hk, ha⟩ := Prod.mk.inj he
    exact Prod.ext hk (hf ha)
  have hentries : m.entries = m'.entries := List.map_injective_iff.mpr hpair h
  cases m
  cases m'
  cases hentries
  rfl

theorem allowToJson_injective : Function.Injective allowToJson := by
  intro s s' h
  have hkeys : s.keys = s'.keys :=
    List.map_injective_iff.mpr (fun a b hab => Json.str.inj hab) (Json.arr.inj h)
  apply OrdSet.ext_contains
  intro k
  have hmem : ∀ s : OrdSet String, s.contains k = true ↔ k ∈ s.keys := by
    intro s
    show (s.get k).isSome = true ↔ k ∈ s.entries.map Prod.fst
    rw [Option.isSome_iff_exists, List.mem_map]
    constructor
    · rintro ⟨u, hu⟩
      exact ⟨(k, u), OrdMap.get_eq_some.mp hu, rfl⟩
    · rintro ⟨⟨k', u⟩, hu, rfl⟩
      exact ⟨u, OrdMap.get_eq_some.mpr hu⟩
  rw [Bool.eq_iff_iff, hmem, hmem, hkeys]

theorem boundsToJson_injective : Function.Injective boundsToJson := fun _ _ h =>
  entries_injective i64ToJson_injective (Json.obj.inj h)

/-- **The JSON value determines the policy.** -/
theorem toJson_injective : Function.Injective toJson := by
  intro p q h
  have hmembers : (("principals", Json.obj (p.principals.entries.map fun e =>
        (e.1, allowToJson e.2))) : String × Json) = ("principals", .obj (q.principals.entries.map
        fun e => (e.1, allowToJson e.2))) ∧
      [(("constraints", Json.obj (p.constraints.entries.map fun e => (e.1, boundsToJson e.2))) :
        String × Json)] = [("constraints", .obj (q.constraints.entries.map fun e =>
          (e.1, boundsToJson e.2)))] :=
    List.cons.inj (Json.obj.inj h)
  have hprincipals : p.principals = q.principals :=
    entries_injective allowToJson_injective (Json.obj.inj (Prod.mk.inj hmembers.1).2)
  have hconstraints : p.constraints = q.constraints :=
    entries_injective boundsToJson_injective
      (Json.obj.inj (Prod.mk.inj (List.cons.inj hmembers.2).1).2)
  cases p
  cases q
  cases hprincipals
  cases hconstraints
  rfl

/-- So does its text. -/
theorem toVec_injective {p q : Policy} (h : p.toJson.toVec = q.toJson.toVec) : p = q := by
  have hread : some p.toJson = some q.toJson := by
    rw [← Json.fromSlice_toVec _ p.exact_toJson, h, Json.fromSlice_toVec _ q.exact_toJson]
  exact toJson_injective (Option.some.inj hread)

/-! ### What two policies have in common -/

/-- The same principals, the same allow sets and the same bounds. -/
structure SameBounds (p q : Policy) : Prop where
  principals : ∀ principal,
    (p.principals.get principal).isSome = (q.principals.get principal).isSome
  allow : ∀ principal tool,
    (p.allowedTools principal).contains tool = (q.allowedTools principal).contains tool
  bounds : ∀ tool arg, p.bound tool arg = q.bound tool arg

/-- Moreover the same tools have a table of bounds, be it empty. -/
structure SameTables (p q : Policy) : Prop extends SameBounds p q where
  tables : ∀ tool, (p.constraints.get tool).isSome = (q.constraints.get tool).isSome

theorem SameTables.refl (p : Policy) : p.SameTables p :=
  ⟨⟨fun _ => rfl, fun _ _ => rfl, fun _ _ => rfl⟩, fun _ => rfl⟩

/-- Which is all there is to a policy. -/
theorem SameTables.eq {p q : Policy} (h : p.SameTables q) : p = q := by
  have hprincipals : p.principals = q.principals := by
    apply OrdMap.ext_get
    intro principal
    have hsome := h.principals principal
    have hallow := h.allow principal
    unfold allowedTools at hallow
    cases hp : p.principals.get principal with
    | none =>
      cases hq : q.principals.get principal with
      | none => rfl
      | some allow => simp [hp, hq] at hsome
    | some allow =>
      cases hq : q.principals.get principal with
      | none => simp [hp, hq] at hsome
      | some allow' =>
        simp only [hp, hq, Option.getD_some] at hallow
        rw [OrdSet.ext_contains hallow]
  have hconstraints : p.constraints = q.constraints := by
    apply OrdMap.ext_get
    intro tool
    have hsome := h.tables tool
    have hbounds := h.bounds tool
    unfold bound at hbounds
    cases hp : p.constraints.get tool with
    | none =>
      cases hq : q.constraints.get tool with
      | none => rfl
      | some bounds => simp [hp, hq] at hsome
    | some bounds =>
      cases hq : q.constraints.get tool with
      | none => simp [hp, hq] at hsome
      | some bounds' =>
        simp only [hp, hq, Option.bind_some] at hbounds
        rw [OrdMap.ext_get hbounds]
  cases p
  cases q
  cases hprincipals
  cases hconstraints
  rfl

/-- **Equal hashes are equal policies.** -/
theorem policyHash_eq_iff {deps : Deps} {p q : Policy}
    (hsha : Set.InjOn deps.sha256 {p.toJson.toVec, q.toJson.toVec}) :
    p.policyHash deps = q.policyHash deps ↔ p.SameTables q := by
  constructor
  · intro h
    have hvec : p.toJson.toVec = q.toJson.toVec :=
      hsha (Set.mem_insert _ _) (Set.mem_insert_of_mem _ rfl) h
    rw [toVec_injective hvec]
    exact SameTables.refl q
  · intro h
    rw [h.eq]

end Policy

/-! ### Layout does not matter -/

/-- The tables of a rules file in the order of its text. -/
structure Layout where
  principals : List (String × List String)
  constraints : List (String × List (String × Int64))

namespace Layout

/-- What the decoder makes of them: every table is an ordered map. -/
def file (l : Layout) : PolicyFile where
  principals := OrdMap.ofList (l.principals.map fun p => (p.1, ⟨p.2⟩))
  constraints := OrdMap.ofList (l.constraints.map fun c => (c.1, OrdMap.ofList c.2))

/-- No table and no key is defined twice, which the decoder refuses. -/
structure Distinct (l : Layout) : Prop where
  principals : (l.principals.map Prod.fst).Nodup
  constraints : (l.constraints.map Prod.fst).Nodup
  bounds : ∀ c ∈ l.constraints, (c.2.map Prod.fst).Nodup

/-- The same tables and keys in any order, and the same tools in each
allow-list, in any order and any number of times. -/
structure Same (l l' : Layout) : Prop where
  names : ∀ principal, (∃ p ∈ l.principals, p.1 = principal) ↔ ∃ p ∈ l'.principals, p.1 = principal
  allow : ∀ p ∈ l.principals, ∀ p' ∈ l'.principals, p.1 = p'.1 → ∀ tool, tool ∈ p.2 ↔ tool ∈ p'.2
  tools : ∀ tool, (∃ c ∈ l.constraints, c.1 = tool) ↔ ∃ c ∈ l'.constraints, c.1 = tool
  bounds : ∀ c ∈ l.constraints, ∀ c' ∈ l'.constraints, c.1 = c'.1 → ∀ b, b ∈ c.2 ↔ b ∈ c'.2

section Collecting

variable {α β γ : Type} {f : α → β} {l l' : List (String × α)}

theorem nodup_map (f : α → β) (hl : (l.map Prod.fst).Nodup) :
    ((l.map fun e => (e.1, f e.2)).map Prod.fst).Nodup := by
  rw [List.map_map]
  exact hl

/-- Changing the values before or after is the same. -/
theorem map_get_ofList {g : β → γ} (hl : (l.map Prod.fst).Nodup) (k : String) :
    ((OrdMap.ofList (l.map fun e => (e.1, f e.2))).get k).map g =
      (OrdMap.ofList (l.map fun e => (e.1, g (f e.2)))).get k := by
  apply Option.ext
  intro c
  rw [Option.map_eq_some_iff, OrdMap.get_ofList (nodup_map (fun a => g (f a)) hl), List.mem_map]
  constructor
  · rintro ⟨b, hb, rfl⟩
    obtain ⟨e, he, heq⟩ := List.mem_map.mp ((OrdMap.get_ofList (nodup_map f hl)).mp hb)
    obtain ⟨hk, rfl⟩ := Prod.mk.inj heq
    exact ⟨e, he, by rw [hk]⟩
  · rintro ⟨e, he, heq⟩
    obtain ⟨hk, rfl⟩ := Prod.mk.inj heq
    refine ⟨f e.2, (OrdMap.get_ofList (nodup_map f hl)).mpr ?_, rfl⟩
    exact List.mem_map.mpr ⟨e, he, by rw [hk]⟩

/-- The entry of a name, among entries without repetition. -/
theorem get_ofList_cases (f : α → β) (hl : (l.map Prod.fst).Nodup) (k : String) :
    (OrdMap.ofList (l.map fun e => (e.1, f e.2))).get k = none ∧ (¬ ∃ e ∈ l, e.1 = k) ∨
      ∃ e ∈ l, e.1 = k ∧ (OrdMap.ofList (l.map fun e => (e.1, f e.2))).get k = some (f e.2) := by
  have hnodup := nodup_map f hl
  cases hget : (OrdMap.ofList (l.map fun e => (e.1, f e.2))).get k with
  | none =>
    refine Or.inl ⟨rfl, ?_⟩
    rintro ⟨e, he, rfl⟩
    have hsome := (OrdMap.get_ofList hnodup).mpr (List.mem_map.mpr ⟨e, he, rfl⟩)
    rw [hget] at hsome
    cases hsome
  | some b =>
    obtain ⟨e, he, heq⟩ := List.mem_map.mp ((OrdMap.get_ofList hnodup).mp hget)
    obtain ⟨hk, hb⟩ := Prod.mk.inj heq
    exact Or.inr ⟨e, he, hk, by rw [hb]⟩

/-- Maps made of the same names with the same values are the same. -/
theorem ofList_congr (hl : (l.map Prod.fst).Nodup) (hl' : (l'.map Prod.fst).Nodup)
    (hnames : ∀ k, (∃ e ∈ l, e.1 = k) ↔ ∃ e ∈ l', e.1 = k)
    (hvalues : ∀ e ∈ l, ∀ e' ∈ l', e.1 = e'.1 → f e.2 = f e'.2) :
    OrdMap.ofList (l.map fun e => (e.1, f e.2)) = OrdMap.ofList (l'.map fun e => (e.1, f e.2)) := by
  apply OrdMap.ext_get
  intro k
  rcases get_ofList_cases f hl k with ⟨hnone, hno⟩ | ⟨e, he, hk, hget⟩
  · rcases get_ofList_cases f hl' k with ⟨hnone', -⟩ | ⟨e', he', hk', -⟩
    · rw [hnone, hnone']
    · exact absurd ((hnames k).mpr ⟨e', he', hk'⟩) hno
  · rcases get_ofList_cases f hl' k with ⟨-, hno'⟩ | ⟨e', he', hk', hget'⟩
    · exact absurd ((hnames k).mp ⟨e, he, hk⟩) hno'
    · rw [hget, hget', hvalues e he e' he' (hk.trans hk'.symm)]

end Collecting

variable {l l' : Layout}

theorem Same.constraints_eq (hl : l.Distinct) (hl' : l'.Distinct) (h : l.Same l') :
    l.file.constraints = l'.file.constraints := by
  apply ofList_congr hl.constraints hl'.constraints h.tools
  intro c hc c' hc' hname
  apply OrdMap.ext_get
  intro key
  apply Option.ext
  intro max
  rw [OrdMap.get_ofList (hl.bounds c hc), OrdMap.get_ofList (hl'.bounds c' hc')]
  exact h.bounds c hc c' hc' hname (key, max)

theorem Same.principals_eq (hl : l.Distinct) (hl' : l'.Distinct) (h : l.Same l') :
    OrdMap.ofList (l.file.principals.entries.map fun p => (p.1, OrdSet.ofList p.2.allow)) =
      OrdMap.ofList (l'.file.principals.entries.map fun p => (p.1, OrdSet.ofList p.2.allow)) := by
  have honce : ∀ m : Layout, m.Distinct →
      OrdMap.ofList (m.file.principals.entries.map fun p => (p.1, OrdSet.ofList p.2.allow)) =
        OrdMap.ofList (m.principals.map fun p => (p.1, OrdSet.ofList p.2)) := by
    intro m hm
    apply OrdMap.ext_get
    intro k
    rw [OrdMap.get_ofList_map m.file.principals fun rules => OrdSet.ofList rules.allow]
    exact map_get_ofList hm.principals k
  rw [honce l hl, honce l' hl']
  apply ofList_congr hl.principals hl'.principals h.names
  intro p hp p' hp' hname
  apply OrdSet.ext_contains
  intro tool
  rw [Bool.eq_iff_iff, OrdSet.contains_ofList, OrdSet.contains_ofList]
  exact h.allow p hp p' hp' hname tool

/-- **Layout does not matter**: the same policy is read, if one is. -/
theorem Same.parse_eq {toml : String → Except String PolicyFile} {text text' : String}
    (hl : l.Distinct) (hl' : l'.Distinct) (h : l.Same l') (htext : toml text = .ok l.file)
    (htext' : toml text' = .ok l'.file) {policy : Policy} :
    Policy.parse toml text = .ok policy ↔ Policy.parse toml text' = .ok policy := by
  rw [parse_eq_ok htext, parse_eq_ok htext', h.constraints_eq hl hl', h.principals_eq hl hl']

end Layout

/-- **The hash in a trace commits to the enforced behaviour.**  Two policies
whose texts do not collide under SHA-256 have the same hash exactly if they have
the same principals, allow sets, tools with a table and bounds, and then they
decide every call alike; and two rules files that differ in layout only give
policies with the same hash, if they give any. -/
theorem policyHash_commits (deps : Deps) :
    (∀ p q : Policy, Set.InjOn deps.sha256 {p.toJson.toVec, q.toJson.toVec} →
      (p.policyHash deps = q.policyHash deps ↔ p.SameTables q) ∧
      (p.policyHash deps = q.policyHash deps →
        ∀ principal tool args, p.check principal tool args = q.check principal tool args)) ∧
    ∀ (l l' : Layout) toml text text', l.Distinct → l'.Distinct → l.Same l' →
      toml text = .ok l.file → toml text' = .ok l'.file →
      ((∃ p, Policy.parse toml text = .ok p) ↔ ∃ q, Policy.parse toml text' = .ok q) ∧
      ∀ p q, Policy.parse toml text = .ok p → Policy.parse toml text' = .ok q →
        p.policyHash deps = q.policyHash deps := by
  refine ⟨fun p q hsha => ⟨Policy.policyHash_eq_iff hsha, fun h => ?_⟩, ?_⟩
  · intro principal tool args
    rw [((Policy.policyHash_eq_iff hsha).mp h).eq]
  · intro l l' toml text text' hl hl' hsame htext htext'
    have hparse : ∀ p, Policy.parse toml text = .ok p ↔ Policy.parse toml text' = .ok p :=
      fun p => hsame.parse_eq hl hl' htext htext'
    refine ⟨exists_congr hparse, fun p q hp hq => ?_⟩
    have hq' := (hparse p).mp hp
    rw [hq] at hq'
    rw [Except.ok.inj hq']

namespace Reference

/-- The rules with a second table, which is empty. -/
def roomyRules : Policy where
  principals := OrdMap.empty
  constraints := OrdMap.empty.insert "wallet.transfer" OrdMap.empty

def emptyRules : Policy := ⟨OrdMap.empty, OrdMap.empty⟩

/-- A rules file with this allow-list. -/
def layout (allow : List String) : Layout :=
  ⟨[("demo-agent", allow)], [("wallet.transfer", [("amount_max", 50)])]⟩

def listed (entries : String) : String :=
  "[principals.demo-agent]\nallow = [" ++ entries ++ "]\n\n" ++
    "[constraints.\"wallet.transfer\"]\namount_max = 50\n"

def once : String := listed "\"wallet.transfer\""

def twice : String := listed "\"wallet.transfer\", \"wallet.transfer\""

def layoutToml (text : String) : Except String PolicyFile :=
  if text = once then .ok (layout ["wallet.transfer"]).file
  else if text = twice then .ok (layout ["wallet.transfer", "wallet.transfer"]).file
  else .error "TOML parse error at line 1, column 1"

theorem hashes_differ : emptyRules.policyHash reference ≠ roomyRules.policyHash reference := by
  decide +kernel

theorem layout_distinct (allow : List String) : (layout allow).Distinct :=
  ⟨by simp [layout], by simp [layout], by simp [layout]⟩

end Reference

open Reference in
theorem policyHash_commits_reference : ¬ emptyRules.SameTables roomyRules ∧
    ∃ p q, Policy.parse layoutToml once = .ok p ∧ Policy.parse layoutToml twice = .ok q ∧
      p.policyHash reference = q.policyHash reference := by
  obtain ⟨hhash, hlayout⟩ := policyHash_commits reference
  have hinj : Set.InjOn reference.sha256 {emptyRules.toJson.toVec, roomyRules.toJson.toVec} := by
    have hne : reference.sha256 emptyRules.toJson.toVec ≠ reference.sha256 roomyRules.toJson.toVec :=
      hashes_differ
    rintro a (rfl | rfl) b (rfl | rfl) h
    · rfl
    · exact absurd h hne
    · exact absurd h.symm hne
    · rfl
  refine ⟨fun h => hashes_differ ((hhash _ _ hinj).1.mpr h), ?_⟩
  obtain ⟨p, hp⟩ : ∃ p, Policy.parse layoutToml once = .ok p := ⟨_, rfl⟩
  obtain ⟨q, hq⟩ : ∃ q, Policy.parse layoutToml twice = .ok q := ⟨_, rfl⟩
  have hsame : (layout ["wallet.transfer"]).Same (layout ["wallet.transfer", "wallet.transfer"]) :=
    ⟨by simp [layout], by simp [layout], by simp [layout], by simp [layout]⟩
  obtain ⟨-, hequal⟩ := hlayout _ _ layoutToml once twice (layout_distinct _) (layout_distinct _)
    hsame rfl rfl
  exact ⟨p, q, hp, hq, hequal p q hp hq⟩

open Reference in
/-- A table without bounds changes the hash, though not what is enforced. -/
theorem empty_table_changes_hash : emptyRules.SameBounds roomyRules ∧
    emptyRules.policyHash reference ≠ roomyRules.policyHash reference := by
  refine ⟨⟨fun _ => rfl, fun _ _ => rfl, ?_⟩, hashes_differ⟩
  intro tool arg
  show none = ((OrdMap.empty.insert "wallet.transfer" OrdMap.empty).get tool).bind _
  by_cases h : tool = "wallet.transfer"
  · rw [h, OrdMap.get_insert_self]
    rfl
  · rw [OrdMap.get_insert_ne _ h]
    rfl

end ProvenoGateway
