/-
ProvenoGateway/Lockstep.lean

Two runs side by side, as a library of its own.

`Lockstep sim related p p'`: the two programs perform the same operations for
as long as the answers are related by `sim`, and what they return is `related`.
`Under env` is a run answered by an environment that knows what it has been
asked so far.  `Lockstep.under` carries a run from one environment to another
whose answers are related.
-/
import ProvenoGateway.Program

namespace Program

variable {Op : Type} {Res : Op → Type} {α α' β β' : Type}

/-! ### The same operations -/

inductive Lockstep (sim : (o : Op) → Res o → Res o → Prop) (related : α → α' → Prop) :
    Program Op Res α → Program Op Res α' → Prop
  | ret (a : α) (a' : α') : related a a' → Lockstep sim related (ret a) (ret a')
  | call (o : Op) (next : Res o → Program Op Res α) (next' : Res o → Program Op Res α') :
      (∀ r r', sim o r r' → Lockstep sim related (next r) (next' r')) →
      Lockstep sim related (call o next) (call o next')

variable {sim : (o : Op) → Res o → Res o → Prop}

theorem Lockstep.bind {related : α → α' → Prop} {related' : β → β' → Prop}
    {p : Program Op Res α} {p' : Program Op Res α'} {f : α → Program Op Res β}
    {f' : α' → Program Op Res β'} (h : Lockstep sim related p p')
    (hf : ∀ a a', related a a' → Lockstep sim related' (f a) (f' a')) :
    Lockstep sim related' (p >>= f) (p' >>= f') := by
  induction h with
  | ret a a' ha => exact hf a a' ha
  | call o next next' _ ih =>
    apply Lockstep.call
    intro r r' hr
    exact ih r r' hr

/-! ### Runs in an environment -/

/-- What may be answered to an operation, after those performed so far. -/
abbrev Environment (Op : Type) (Res : Op → Type) : Type := List Op → (o : Op) → Res o → Prop

/-- `Under env past p evs a`: after `past`, the environment answers the program
as in `evs`, and it returns `a`. -/
inductive Under (env : Environment Op Res) :
    List Op → Program Op Res α → List (Event Op Res) → α → Prop
  | ret (past : List Op) (a : α) : Under env past (ret a) [] a
  | call (past : List Op) (o : Op) (next : Res o → Program Op Res α) (r : Res o)
      {evs : List (Event Op Res)} {a : α} :
      env past o r → Under env (past ++ [o]) (next r) evs a →
      Under env past (call o next) (⟨o, r⟩ :: evs) a

variable {env env' : Environment Op Res} {past : List Op} {evs : List (Event Op Res)} {a : α}

theorem Under.runs {p : Program Op Res α} (h : Under env past p evs a) : Runs p evs a := by
  induction h with
  | ret past a => exact Runs.ret a
  | call past o next r _ _ ih => exact Runs.call o next r ih

theorem Under.bind {p : Program Op Res α} {f : α → Program Op Res β} {evs' : List (Event Op Res)}
    {b : β} (h : Under env past p evs a)
    (hf : Under env (past ++ evs.map Sigma.fst) (f a) evs' b) :
    Under env past (p >>= f) (evs ++ evs') b := by
  induction h with
  | ret past a =>
    rw [List.map_nil, List.append_nil] at hf
    exact hf
  | call past o next r hr _ ih =>
    apply Under.call past o _ r hr
    apply ih
    rw [List.append_assoc]
    exact hf

/-- An environment that answers what a program may ask has a run of it. -/
theorem Under.of_uses {allowed : Op → Prop} (henv : ∀ past o, allowed o → ∃ r, env past o r)
    {p : Program Op Res α} (hp : p.Uses allowed) (past : List Op) :
    ∃ evs a, Under env past p evs a := by
  induction p generalizing past with
  | ret a => exact ⟨[], a, Under.ret past a⟩
  | call o next ih =>
    obtain ⟨r, hr⟩ := henv past o hp.1
    obtain ⟨evs, a, h⟩ := ih r (hp.2 r) (past ++ [o])
    exact ⟨_, a, Under.call past o next r hr h⟩

/-- The run is the only one. -/
def Sole (env : Environment Op Res) (p : Program Op Res α) (evs : List (Event Op Res)) (a : α) :
    Prop :=
  Under env [] p evs a ∧ ∀ evs' a', Under env [] p evs' a' → evs' = evs ∧ a' = a

/-- An environment with one answer leaves one run. -/
theorem Under.unique (hone : ∀ past o r r', env past o r → env past o r' → r = r')
    {p : Program Op Res α} {evs' : List (Event Op Res)} {a' : α} (h : Under env past p evs a)
    (h' : Under env past p evs' a') : evs' = evs ∧ a' = a := by
  induction h generalizing evs' with
  | ret past a =>
    cases h'
    exact ⟨rfl, rfl⟩
  | call past o next r hr _ ih =>
    cases h' with
    | call _ _ _ r' hr' h' =>
      obtain rfl := hone past o r r' hr hr'
      obtain ⟨rfl, rfl⟩ := ih h'
      exact ⟨rfl, rfl⟩

theorem Under.sole (hone : ∀ past o r r', env past o r → env past o r' → r = r')
    {p : Program Op Res α} (h : Under env [] p evs a) : Sole env p evs a :=
  ⟨h, fun _ _ h' => h.unique hone h'⟩

/-- **A run is followed in any environment with related answers**, by a run
with the same operations and a related result. -/
theorem Lockstep.under {related : α → α' → Prop} {p : Program Op Res α} {p' : Program Op Res α'}
    (hstep : Lockstep sim related p p')
    (henv : ∀ past o r, env past o r → ∃ r', env' past o r' ∧ sim o r r')
    (h : Under env past p evs a) :
    ∃ evs' a', Under env' past p' evs' a' ∧ evs'.map Sigma.fst = evs.map Sigma.fst ∧
      related a a' := by
  induction h generalizing p' with
  | ret past a =>
    cases hstep with
    | ret _ a' ha => exact ⟨[], a', Under.ret past a', rfl, ha⟩
  | call past o next r hr _ ih =>
    cases hstep with
    | call _ _ next' hnext =>
      obtain ⟨r', hr', hsim⟩ := henv past o r hr
      obtain ⟨evs', a', hunder, hops, ha⟩ := ih (hnext r r' hsim)
      refine ⟨⟨o, r'⟩ :: evs', a', Under.call past o next' r' hr' hunder, ?_, ha⟩
      rw [List.map_cons, List.map_cons, hops]

end Program
