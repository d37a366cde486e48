/-
ProvenoGateway/Program.lean

Sequential programs over atomic operations, as a library of its own.

A `Program Op Res α` either returns a value or performs one operation `o` and
goes on with its result, of type `Res o`.  A stateful function of a source is
written once, as such a program, in `do` notation; what the operations do is
said separately, so the same text can be

* run on its own, any result of any operation allowed (`Runs`, which records
  the operations performed and what they answered);
* run on its own against a state (`Exec`);
* interleaved with other programs (`ProvenoGateway.Interleave`).

An operation whose result type is empty has no continuation: it ends the
program without a value, which is how a panic is written.
-/
import Mathlib.Logic.Relation

/-- A sequential program over the operations `Op`. -/
inductive Program (Op : Type) (Res : Op → Type) (α : Type)
  | ret (a : α)
  | call (o : Op) (next : Res o → Program Op Res α)

namespace Program

variable {Op : Type} {Res : Op → Type} {α β γ : Type} {S : Type}

/-! ### The monad -/

protected def bind : Program Op Res α → (α → Program Op Res β) → Program Op Res β
  | ret a, f => f a
  | call o next, f => call o fun r => (next r).bind f

instance : Monad (Program Op Res) where
  pure := ret
  bind := Program.bind

/-- The program that performs one operation and returns its result. -/
def op (o : Op) : Program Op Res (Res o) := call o ret

@[simp] theorem pure_eq (a : α) : (pure a : Program Op Res α) = ret a := rfl

@[simp] theorem ret_bind (a : α) (f : α → Program Op Res β) : ret a >>= f = f a := rfl

@[simp] theorem call_bind (o : Op) (next : Res o → Program Op Res α) (f : α → Program Op Res β) :
    call o next >>= f = call o fun r => next r >>= f := rfl

@[simp] theorem op_bind (o : Op) (f : Res o → Program Op Res β) : op o >>= f = call o f := rfl

/-- Go on with the value of a success, return a failure as it is. -/
def andThen {ε : Type} (p : Program Op Res (Except ε α)) (f : α → Program Op Res (Except ε β)) :
    Program Op Res (Except ε β) :=
  p >>= fun
    | .ok a => f a
    | .error e => ret (.error e)

theorem bind_assoc (p : Program Op Res α) (f : α → Program Op Res β) (g : β → Program Op Res γ) :
    p >>= f >>= g = p >>= fun a => f a >>= g := by
  induction p with
  | ret a => rfl
  | call o next ih => exact congrArg (call o) (funext ih)

/-! ### Runs with arbitrary answers -/

/-- An operation and the answer it got. -/
abbrev Event (Op : Type) (Res : Op → Type) : Type := (o : Op) × Res o

/-- `Runs p evs a`: answered as in `evs`, the program performs exactly the
operations of `evs` and returns `a`. -/
inductive Runs : Program Op Res α → List (Event Op Res) → α → Prop
  | ret (a : α) : Runs (ret a) [] a
  | call (o : Op) (next : Res o → Program Op Res α) (r : Res o) {evs : List (Event Op Res)} {a : α} :
      Runs (next r) evs a → Runs (call o next) (⟨o, r⟩ :: evs) a

@[simp] theorem runs_ret_iff {a b : α} {evs : List (Event Op Res)} :
    Runs (ret a) evs b ↔ evs = [] ∧ b = a := by
  constructor
  · intro h
    cases h
    exact ⟨rfl, rfl⟩
  · rintro ⟨rfl, rfl⟩
    exact Runs.ret _

@[simp] theorem runs_call_iff {o : Op} {next : Res o → Program Op Res α}
    {evs : List (Event Op Res)} {a : α} :
    Runs (call o next) evs a ↔ ∃ r evs', evs = ⟨o, r⟩ :: evs' ∧ Runs (next r) evs' a := by
  constructor
  · intro h
    cases h with
    | call o next r h => exact ⟨r, _, rfl, h⟩
  · rintro ⟨r, evs', rfl, h⟩
    exact Runs.call o next r h

/-- The first event of a run is that of its first operation. -/
theorem Runs.first {p : Program Op Res α} {o : Op} {r : Res o} {evs : List (Event Op Res)} {a : α}
    (h : Runs p (⟨o, r⟩ :: evs) a) : ∃ next, p = Program.call o next ∧ Runs (next r) evs a := by
  cases h with
  | call o next r h => exact ⟨next, rfl, h⟩

theorem Runs.over {p : Program Op Res α} {a : α} (h : Runs p [] a) : p = Program.ret a := by
  cases h
  rfl

/-- A run of a sequence is a run of each part. -/
theorem runs_bind_iff {p : Program Op Res α} {f : α → Program Op Res β}
    {evs : List (Event Op Res)} {b : β} :
    Runs (p >>= f) evs b ↔ ∃ a evs₁ evs₂, evs = evs₁ ++ evs₂ ∧ Runs p evs₁ a ∧ Runs (f a) evs₂ b := by
  induction p generalizing evs with
  | ret a =>
    constructor
    · intro h
      exact ⟨a, [], evs, rfl, Runs.ret a, h⟩
    · rintro ⟨a', evs₁, evs₂, rfl, h₁, h₂⟩
      obtain ⟨rfl, rfl⟩ := runs_ret_iff.mp h₁
      exact h₂
  | call o next ih =>
    rw [call_bind, runs_call_iff]
    constructor
    · rintro ⟨r, evs', rfl, h⟩
      obtain ⟨a, evs₁, evs₂, rfl, h₁, h₂⟩ := (ih r).mp h
      exact ⟨a, _, evs₂, rfl, Runs.call o next r h₁, h₂⟩
    · rintro ⟨a, evs₁, evs₂, rfl, h₁, h₂⟩
      obtain ⟨r, evs', rfl, h⟩ := runs_call_iff.mp h₁
      exact ⟨r, evs' ++ evs₂, rfl, (ih r).mpr ⟨a, evs', evs₂, rfl, h, h₂⟩⟩

/-- A run of `andThen` goes on after a success, and ends with a failure. -/
theorem runs_andThen {ε : Type} {p : Program Op Res (Except ε α)}
    {f : α → Program Op Res (Except ε β)} {evs : List (Event Op Res)} {b : Except ε β}
    (h : Runs (p.andThen f) evs b) :
    (∃ e, Runs p evs (.error e) ∧ b = .error e) ∨
    ∃ a evs₁ evs₂, evs = evs₁ ++ evs₂ ∧ Runs p evs₁ (.ok a) ∧ Runs (f a) evs₂ b := by
  obtain ⟨result, evs₁, evs₂, rfl, h₁, h₂⟩ := runs_bind_iff.mp h
  cases result with
  | error e =>
    obtain ⟨rfl, rfl⟩ := runs_ret_iff.mp h₂
    rw [List.append_nil]
    exact Or.inl ⟨e, h₁, rfl⟩
  | ok a => exact Or.inr ⟨a, evs₁, evs₂, rfl, h₁, h₂⟩

/-! ### Part of a run -/

/-- `Leads p evs q`: after `evs`, what is left of `p` is `q`. -/
inductive Leads : Program Op Res α → List (Event Op Res) → Program Op Res α → Prop
  | refl {p : Program Op Res α} : Leads p [] p
  | step {p : Program Op Res α} {evs : List (Event Op Res)} {o : Op}
      {next : Res o → Program Op Res α} (r : Res o) :
      Leads p evs (call o next) → Leads p (evs ++ [⟨o, r⟩]) (next r)

theorem Leads.runs {p q : Program Op Res α} {evs evs' : List (Event Op Res)} {a : α}
    (h : Leads p evs q) (hq : Runs q evs' a) : Runs p (evs ++ evs') a := by
  induction h generalizing evs' with
  | refl => exact hq
  | @step evs o next r _ ih =>
    have hcall : Runs p (evs ++ ⟨o, r⟩ :: evs') a := ih (Runs.call o next r hq)
    rw [List.append_assoc]
    exact hcall

theorem Leads.cons {o : Op} {next : Res o → Program Op Res α} {r : Res o}
    {evs : List (Event Op Res)} {q : Program Op Res α} (h : Leads (next r) evs q) :
    Leads (call o next) (⟨o, r⟩ :: evs) q := by
  induction h with
  | refl => exact Leads.step r Leads.refl
  | step r' _ ih => exact Leads.step r' ih

/-- A sequence is somewhere in its first part, or in its second. -/
theorem leads_bind {p : Program Op Res α} {f : α → Program Op Res β} {evs : List (Event Op Res)}
    {q : Program Op Res β} (h : Leads (p >>= f) evs q) :
    (∃ p', Leads p evs p' ∧ q = p' >>= f) ∨
    ∃ a evs₁ evs₂, evs = evs₁ ++ evs₂ ∧ Runs p evs₁ a ∧ Leads (f a) evs₂ q := by
  induction h with
  | refl => exact Or.inl ⟨p, Leads.refl, rfl⟩
  | @step evs o next r _ ih =>
    rcases ih with ⟨p', hp', hnext⟩ | ⟨a, evs₁, evs₂, rfl, h₁, h₂⟩
    · cases p' with
      | ret a =>
        -- the first part has just ended
        rw [ret_bind] at hnext
        have hstep : Leads (f a) [] (call o next) := by
          rw [hnext]
          exact Leads.refl
        refine Or.inr ⟨a, evs, [⟨o, r⟩], rfl, ?_, hstep.step r⟩
        have hruns : Runs p (evs ++ []) a := hp'.runs (Runs.ret a)
        rwa [List.append_nil] at hruns
      | call o' next' =>
        cases hnext
        exact Or.inl ⟨next' r, hp'.step r, rfl⟩
    · exact Or.inr ⟨a, evs₁, evs₂ ++ [⟨o, r⟩], List.append_assoc _ _ _, h₁, h₂.step r⟩

/-- A whole run leads to its value. -/
theorem Runs.leads {p : Program Op Res α} {evs : List (Event Op Res)} {a : α} (h : Runs p evs a) :
    Leads p evs (Program.ret a) := by
  induction h with
  | ret a => exact Leads.refl
  | call o next r _ ih => exact ih.cons

/-! ### The operations a program may perform -/

/-- Every operation the program can reach satisfies `allowed`. -/
def Uses (allowed : Op → Prop) : Program Op Res α → Prop
  | ret _ => True
  | call o next => allowed o ∧ ∀ r, (next r).Uses allowed

theorem Uses.bind {allowed : Op → Prop} {p : Program Op Res α} {f : α → Program Op Res β}
    (hp : p.Uses allowed) (hf : ∀ a, (f a).Uses allowed) : (p >>= f).Uses allowed := by
  induction p with
  | ret a => exact hf a
  | call o next ih => exact ⟨hp.1, fun r => ih r (hp.2 r)⟩

theorem Uses.andThen {allowed : Op → Prop} {ε : Type} {p : Program Op Res (Except ε α)}
    {f : α → Program Op Res (Except ε β)} (hp : p.Uses allowed) (hf : ∀ a, (f a).Uses allowed) :
    (p.andThen f).Uses allowed := by
  refine hp.bind ?_
  rintro (e | a)
  · trivial
  · exact hf a

theorem Uses.mono {allowed allowed' : Op → Prop} (h : ∀ o, allowed o → allowed' o)
    {p : Program Op Res α} (hp : p.Uses allowed) : p.Uses allowed' := by
  induction p with
  | ret a => trivial
  | call o next ih => exact ⟨h o hp.1, fun r => ih r (hp.2 r)⟩

/-- What a run has performed is allowed. -/
theorem Runs.allowed {allowed : Op → Prop} {p : Program Op Res α} {evs : List (Event Op Res)}
    {a : α} (h : Runs p evs a) (hp : p.Uses allowed) : ∀ e ∈ evs, allowed e.1 := by
  induction h with
  | ret a => simp
  | call o next r _ ih =>
    rw [List.forall_mem_cons]
    exact ⟨hp.1, ih (hp.2 r)⟩

/-- What part of a run has performed is allowed, and so is what is left. -/
theorem Leads.allowed {allowed : Op → Prop} {p q : Program Op Res α} {evs : List (Event Op Res)}
    (h : Leads p evs q) (hp : p.Uses allowed) : (∀ e ∈ evs, allowed e.1) ∧ q.Uses allowed := by
  induction h with
  | refl => exact ⟨nofun, hp⟩
  | step r _ ih =>
    obtain ⟨hevs, ho, hnext⟩ := ih
    refine ⟨fun e he => ?_, hnext r⟩
    rcases List.mem_append.mp he with he | he
    · exact hevs e he
    · rw [List.mem_singleton.mp he]
      exact ho

/-- A program that has returned does nothing more. -/
theorem Leads.of_ret {a : α} {q : Program Op Res α} {evs : List (Event Op Res)}
    (h : Leads (Program.ret a) evs q) : evs = [] := by
  cases h with
  | refl => rfl
  | step r h =>
    have hnothing : (Program.ret a : Program Op Res α).Uses fun _ => False := trivial
    exact ((h.allowed hnothing).2.1).elim

/-- Where every operation may be answered, part of a run is the beginning of a
whole one. -/
theorem Leads.completes {p q : Program Op Res α} {evs : List (Event Op Res)} (h : Leads p evs q)
    (hq : q.Uses fun o => Nonempty (Res o)) : ∃ evs' a, Runs p (evs ++ evs') a := by
  induction q generalizing evs with
  | ret a => exact ⟨[], a, h.runs (Runs.ret a)⟩
  | call o next ih =>
    obtain ⟨⟨r⟩, hnext⟩ := hq
    obtain ⟨evs', a, hruns⟩ := ih r (h.step r) (hnext r)
    refine ⟨⟨o, r⟩ :: evs', a, ?_⟩
    rw [List.append_assoc] at hruns
    exact hruns

/-- `good` holds wherever the program can come to perform an operation, with
what it goes on to. -/
def Always (good : (o : Op) → (Res o → Program Op Res α) → Prop) : Program Op Res α → Prop
  | ret _ => True
  | call o next => good o next ∧ ∀ r, (next r).Always good

/-! ### Runs against a state -/

/-- What an operation may answer in a state, and the state it leaves. -/
abbrev Sem (Op : Type) (Res : Op → Type) (S : Type) : Type := (o : Op) → S → Res o → S → Prop

/-- `Exec sem p s a s'`: run alone from `s`, the program can return `a` and
leave `s'`. -/
inductive Exec (sem : Sem Op Res S) : Program Op Res α → S → α → S → Prop
  | ret (a : α) (s : S) : Exec sem (ret a) s a s
  | call (o : Op) (next : Res o → Program Op Res α) {s s₁ s₂ : S} {r : Res o} {a : α} :
      sem o s r s₁ → Exec sem (next r) s₁ a s₂ → Exec sem (call o next) s a s₂

@[simp] theorem exec_ret_iff {sem : Sem Op Res S} {a b : α} {s s' : S} :
    Exec sem (ret a) s b s' ↔ b = a ∧ s' = s := by
  constructor
  · intro h
    cases h
    exact ⟨rfl, rfl⟩
  · rintro ⟨rfl, rfl⟩
    exact Exec.ret _ _

@[simp] theorem exec_call_iff {sem : Sem Op Res S} {o : Op} {next : Res o → Program Op Res α}
    {s s' : S} {a : α} :
    Exec sem (call o next) s a s' ↔ ∃ r s₁, sem o s r s₁ ∧ Exec sem (next r) s₁ a s' := by
  constructor
  · intro h
    cases h with
    | call o next hs h => exact ⟨_, _, hs, h⟩
  · rintro ⟨r, s₁, hs, h⟩
    exact Exec.call o next hs h

theorem Exec.mono {sem sem' : Sem Op Res S} (hsem : ∀ o s r s', sem o s r s' → sem' o s r s')
    {p : Program Op Res α} {s s' : S} {a : α} (h : Exec sem p s a s') : Exec sem' p s a s' := by
  induction h with
  | ret a s => exact Exec.ret a s
  | call o next hs _ ih => exact Exec.call o next (hsem _ _ _ _ hs) ih

/-- Where every answer is possible and nothing changes, a run is an
execution. -/
theorem Exec.of_runs {sem : Sem Op Res S} {allowed : Op → Prop} {s : S}
    (hsem : ∀ o r, allowed o → sem o s r s) {p : Program Op Res α} (hp : p.Uses allowed)
    {evs : List (Event Op Res)} {a : α} (h : Runs p evs a) : Exec sem p s a s := by
  induction h with
  | ret a => exact Exec.ret a s
  | call o next r _ ih => exact Exec.call o next (hsem o r hp.1) (ih (hp.2 r))

/-- An execution performs what the program uses. -/
theorem Exec.uses {sem : Sem Op Res S} {good : Op → Prop} {p : Program Op Res α} {s s' : S} {a : α}
    (h : Exec sem p s a s') (hp : p.Uses good) :
    Exec (fun o s r s' => good o ∧ sem o s r s') p s a s' := by
  induction h with
  | ret a s => exact Exec.ret a s
  | call o next hs _ ih => exact Exec.call o next ⟨hp.1, hs⟩ (ih (hp.2 _))

/-- An execution is a run. -/
theorem Exec.runs {sem : Sem Op Res S} {p : Program Op Res α} {s s' : S} {a : α}
    (h : Exec sem p s a s') : ∃ evs, Runs p evs a := by
  induction h with
  | ret a s => exact ⟨[], Runs.ret a⟩
  | call o next _ _ ih =>
    obtain ⟨evs, hruns⟩ := ih
    exact ⟨_, Runs.call o next _ hruns⟩

theorem exec_bind_iff {sem : Sem Op Res S} {p : Program Op Res α} {f : α → Program Op Res β}
    {s s' : S} {b : β} :
    Exec sem (p >>= f) s b s' ↔ ∃ a s₁, Exec sem p s a s₁ ∧ Exec sem (f a) s₁ b s' := by
  induction p generalizing s with
  | ret a => simp [and_assoc]
  | call o next ih =>
    rw [call_bind, exec_call_iff]
    constructor
    · rintro ⟨r, s₁, hs, h⟩
      obtain ⟨a, s₂, h₁, h₂⟩ := ih r |>.mp h
      exact ⟨a, s₂, Exec.call o next hs h₁, h₂⟩
    · rintro ⟨a, s₂, h₁, h₂⟩
      obtain ⟨r, s₁, hs, h⟩ := exec_call_iff.mp h₁
      exact ⟨r, s₁, hs, (ih r).mpr ⟨a, s₂, h, h₂⟩⟩

end Program
