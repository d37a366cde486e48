/-
ProvenoGateway/Interleave.lean

Interleaving of sequential programs over a shared state, with a
rely-guarantee rule, as a library of its own.

A pool holds the threads that are running or have returned.  One step of the
system lets one thread perform one operation, starts a thread, or crashes
every thread of one tag (a process, say).  Nothing is assumed about the order
of steps.

`Safe valid rely guar post p s` says what a thread running `p` promises when
it stands in state `s`: whatever the others do within `rely`, each of its own
operations keeps `valid` and stays within `guar`, and a value it returns
satisfies `post` from then on.  `Rules` bundles the promises of all threads
with the laws that make them fit together, and `Rules.reachable` is the
resulting invariant of every interleaving: one induction, done once.
-/
import ProvenoGateway.Program

namespace Interleave

open Program

variable {Op : Type} {Res : Op → Type} {α β S : Type}

/-! ### What one thread promises -/

/-- See the head of the file.  Recursion follows the program. -/
def Safe (sem : Sem Op Res S) (valid : S → Prop) (rely guar : S → S → Prop)
    (post : α → S → Prop) : Program Op Res α → S → Prop
  | ret a, s => ∀ s', valid s' → rely s s' → post a s'
  | call o next, s => ∀ s₁ r s₂, valid s₁ → rely s s₁ → sem o s₁ r s₂ →
      valid s₂ ∧ guar s₁ s₂ ∧ Safe sem valid rely guar post (next r) s₂

variable {sem : Sem Op Res S} {valid : S → Prop} {rely guar : S → S → Prop}
  {post : α → S → Prop}

/-- What the others do keeps the promise. -/
theorem Safe.stable (trans : ∀ {a b c}, rely a b → rely b c → rely a c) {p : Program Op Res α}
    {s s' : S} (h : Safe sem valid rely guar post p s) (hs : rely s s') :
    Safe sem valid rely guar post p s' := by
  cases p with
  | ret a => exact fun s₁ hv hr => h s₁ hv (trans hs hr)
  | call o next => exact fun s₁ r s₂ hv hr => h s₁ r s₂ hv (trans hs hr)

theorem Safe.weaken {post' : α → S → Prop} {p : Program Op Res α} {s : S}
    (h : Safe sem valid rely guar post p s) (imp : ∀ a s, valid s → post a s → post' a s) :
    Safe sem valid rely guar post' p s := by
  induction p generalizing s with
  | ret a => exact fun s' hv hr => imp a s' hv (h s' hv hr)
  | call o next ih =>
    intro s₁ r s₂ hv hr hsem
    obtain ⟨hv₂, hg, hn⟩ := h s₁ r s₂ hv hr hsem
    exact ⟨hv₂, hg, ih r hn⟩

/-- Sequencing: the second part may use what the first one established. -/
theorem Safe.bind {mid : α → S → Prop} {post : β → S → Prop} (refl : ∀ s, rely s s)
    {p : Program Op Res α} {f : α → Program Op Res β} {s : S} (hs : valid s)
    (hp : Safe sem valid rely guar mid p s)
    (hf : ∀ a s', valid s' → mid a s' → Safe sem valid rely guar post (f a) s') :
    Safe sem valid rely guar post (p >>= f) s := by
  induction p generalizing s with
  | ret a => exact hf a s hs (hp s hs (refl s))
  | call o next ih =>
    intro s₁ r s₂ hv hr hsem
    obtain ⟨hv₂, hg, hn⟩ := hp s₁ r s₂ hv hr hsem
    exact ⟨hv₂, hg, ih r hv₂ hn⟩

/-- Sequencing at `?`: the second part runs after a success only. -/
theorem Safe.andThen {ε : Type} {mid : Except ε α → S → Prop} {post : Except ε β → S → Prop}
    (refl : ∀ s, rely s s) {p : Program Op Res (Except ε α)}
    {f : α → Program Op Res (Except ε β)} {s : S} (hs : valid s)
    (hp : Safe sem valid rely guar mid p s)
    (hok : ∀ a s', valid s' → mid (.ok a) s' → Safe sem valid rely guar post (f a) s')
    (herror : ∀ e s', valid s' → mid (.error e) s' →
      Safe sem valid rely guar post (ret (.error e)) s') :
    Safe sem valid rely guar post (p.andThen f) s := by
  refine Safe.bind refl hs hp ?_
  rintro (e | a) s' hv hm
  · exact herror e s' hv hm
  · exact hok a s' hv hm

/-- A relation that both the others and the thread itself keep links the
state a program starts in to the one it returns in. -/
theorem Safe.remember {keeps : S → S → Prop} (trans : ∀ {a b c}, keeps a b → keeps b c → keeps a c)
    (hrely : ∀ a b, valid b → rely a b → keeps a b)
    (hguar : ∀ a b, valid b → guar a b → keeps a b)
    {p : Program Op Res α} {s₀ s : S} (h₀ : keeps s₀ s)
    (h : Safe sem valid rely guar post p s) :
    Safe sem valid rely guar (fun a s' => keeps s₀ s' ∧ post a s') p s := by
  induction p generalizing s with
  | ret a => exact fun s' hv hr => ⟨trans h₀ (hrely _ _ hv hr), h s' hv hr⟩
  | call o next ih =>
    intro s₁ r s₂ hv hr hsem
    obtain ⟨hv₂, hg, hn⟩ := h s₁ r s₂ hv hr hsem
    exact ⟨hv₂, hg, ih r (trans h₀ (trans (hrely _ _ hv hr) (hguar _ _ hv₂ hg))) hn⟩

/-- A program whose operations leave the state alone is safe, and what it
returns is the value of a run. -/
theorem Safe.of_uses {allowed : Op → Prop}
    (hsem : ∀ o s r s', allowed o → sem o s r s' → s' = s) (hguar : ∀ s, guar s s)
    {p : Program Op Res α} (hp : p.Uses allowed) (s : S) :
    Safe sem valid rely guar (fun a _ => ∃ evs, Runs p evs a) p s := by
  induction p generalizing s with
  | ret a => exact fun _ _ _ => ⟨[], Runs.ret a⟩
  | call o next ih =>
    intro s₁ r s₂ hv _ hstep
    obtain rfl := hsem o s₁ r s₂ hp.1 hstep
    refine ⟨hv, hguar s₂, (ih r (hp.2 r) s₂).weaken ?_⟩
    rintro a _ _ ⟨evs, he⟩
    exact ⟨_, Runs.call o next r he⟩

/-- What a safe program returns is the value of a run. -/
theorem Safe.runs {p : Program Op Res α} {s : S} (h : Safe sem valid rely guar post p s) :
    Safe sem valid rely guar (fun a s' => (∃ evs, Runs p evs a) ∧ post a s') p s := by
  induction p generalizing s with
  | ret a => exact fun s' hv hr => ⟨⟨[], Runs.ret a⟩, h s' hv hr⟩
  | call o next ih =>
    intro s₁ r s₂ hv hr hsem
    obtain ⟨hv₂, hg, hn⟩ := h s₁ r s₂ hv hr hsem
    refine ⟨hv₂, hg, (ih r hn).weaken ?_⟩
    rintro a s' - ⟨⟨evs, he⟩, hpost⟩
    exact ⟨⟨_, Runs.call o next r he⟩, hpost⟩

/-- A property that the thread's own steps keep may be added to `valid`. -/
theorem Safe.restrict {extra : S → Prop} (hguar : ∀ a b, extra a → guar a b → extra b)
    {p : Program Op Res α} {s : S} (h : Safe sem valid rely guar post p s) :
    Safe sem (fun s => valid s ∧ extra s) rely guar post p s := by
  induction p generalizing s with
  | ret a => exact fun s' hv hr => h s' hv.1 hr
  | call o next ih =>
    intro s₁ r s₂ hv hr hsem
    obtain ⟨hv₂, hg, hn⟩ := h s₁ r s₂ hv.1 hr hsem
    exact ⟨⟨hv₂, hguar s₁ s₂ hv.2 hg⟩, hg, ih r hn⟩

/-! ### The pool -/

variable {T : Type} {ε : Type}

/-- A thread: its tag and the rest of its program. -/
structure Thread (Op : Type) (Res : Op → Type) (T ε : Type) where
  tag : T
  prog : Program Op Res ε

/-- The threads by number. -/
abbrev Pool (Op : Type) (Res : Op → Type) (T ε : Type) : Type := Nat → Option (Thread Op Res T ε)

/-- Put a thread in a pool. -/
def Pool.set (pool : Pool Op Res T ε) (i : Nat) (th : Thread Op Res T ε) : Pool Op Res T ε :=
  fun j => if j = i then some th else pool j

/-- Remove every thread of one tag. -/
def Pool.kill [DecidableEq T] (pool : Pool Op Res T ε) (t : T) : Pool Op Res T ε :=
  fun j => (pool j).filter fun th => th.tag ≠ t

theorem Pool.set_self (pool : Pool Op Res T ε) (i : Nat) (th : Thread Op Res T ε) :
    pool.set i th i = some th := if_pos rfl

theorem Pool.set_ne (pool : Pool Op Res T ε) {i j : Nat} (th : Thread Op Res T ε) (h : j ≠ i) :
    pool.set i th j = pool j := if_neg h

theorem Pool.kill_eq_some [DecidableEq T] {pool : Pool Op Res T ε} {t : T} {j : Nat}
    {th : Thread Op Res T ε} : pool.kill t j = some th ↔ pool j = some th ∧ th.tag ≠ t := by
  simp [Pool.kill, Option.filter_eq_some_iff]

/-- What a system consists of, besides its threads: what an operation of
thread `i` with tag `t` does, which threads may be started, and what a crash
of a tag does to the shared state. -/
structure System (Op : Type) (Res : Op → Type) (S T ε : Type) where
  sem : Nat → T → Sem Op Res S
  spawn : Nat → T → Program Op Res ε → S → Prop
  crash : T → S → S → Prop

/-- One step of the system. -/
inductive Step [DecidableEq T] (sys : System Op Res S T ε) :
    Pool Op Res T ε × S → Pool Op Res T ε × S → Prop
  | run {pool : Pool Op Res T ε} {s s' : S} (i : Nat) (t : T) (o : Op)
      (next : Res o → Program Op Res ε) (r : Res o) :
      pool i = some ⟨t, call o next⟩ → sys.sem i t o s r s' →
      Step sys (pool, s) (pool.set i ⟨t, next r⟩, s')
  | spawn {pool : Pool Op Res T ε} {s : S} (i : Nat) (t : T) (p : Program Op Res ε) :
      pool i = none → sys.spawn i t p s → Step sys (pool, s) (pool.set i ⟨t, p⟩, s)
  | crash {pool : Pool Op Res T ε} {s s' : S} (t : T) :
      sys.crash t s s' → Step sys (pool, s) (pool.kill t, s')

/-- Any number of steps. -/
abbrev Steps [DecidableEq T] (sys : System Op Res S T ε) :
    Pool Op Res T ε × S → Pool Op Res T ε × S → Prop :=
  Relation.ReflTransGen (Step sys)

/-- The pool without threads. -/
def Pool.empty : Pool Op Res T ε := fun _ => none

theorem Pool.set_set (pool : Pool Op Res T ε) (i : Nat) (a b : Thread Op Res T ε) :
    (pool.set i a).set i b = pool.set i b := by
  funext j
  by_cases h : j = i
  · rw [h, Pool.set_self, Pool.set_self]
  · rw [Pool.set_ne _ _ h, Pool.set_ne _ _ h, Pool.set_ne _ _ h]

/-- One thread may run to its end while the others wait. -/
theorem Steps.exec [DecidableEq T] {sys : System Op Res S T ε} {i : Nat} {t : T}
    {p : Program Op Res ε} {a : ε} {s s' : S} (h : Exec (sys.sem i t) p s a s')
    (pool : Pool Op Res T ε) :
    Steps sys (pool.set i ⟨t, p⟩, s) (pool.set i ⟨t, ret a⟩, s') := by
  induction h with
  | ret a s => exact Relation.ReflTransGen.refl
  | call o next hsem _ ih =>
    have hstep := Step.run i t o next _ (pool.set_self i ⟨t, call o next⟩) hsem
    rw [Pool.set_set] at hstep
    exact Relation.ReflTransGen.head hstep ih

/-- A system that allows more has more runs. -/
theorem Steps.mono [DecidableEq T] {sys sys' : System Op Res S T ε}
    (hsem : ∀ i t o s r s', sys.sem i t o s r s' → sys'.sem i t o s r s')
    (hspawn : ∀ i t p s, sys.spawn i t p s → sys'.spawn i t p s)
    (hcrash : ∀ t s s', sys.crash t s s' → sys'.crash t s s') {x y : Pool Op Res T ε × S}
    (h : Steps sys x y) : Steps sys' x y := by
  induction h with
  | refl => exact Relation.ReflTransGen.refl
  | tail _ hstep ih =>
    apply ih.tail
    cases hstep with
    | run i t o next r hi hs => exact Step.run i t o next r hi (hsem i t o _ r _ hs)
    | spawn i t p hi hp => exact Step.spawn i t p hi (hspawn i t p _ hp)
    | crash t hc => exact Step.crash t (hcrash t _ _ hc)

/-- What holds of every program that may be started, and of what is left of it
after each operation, holds of every thread. -/
theorem Steps.threads [DecidableEq T] {sys : System Op Res S T ε} (good : Program Op Res ε → Prop)
    (hspawn : ∀ i t p s, sys.spawn i t p s → good p)
    (hstep : ∀ o next r, good (call o next) → good (next r)) {s : S}
    {x : Pool Op Res T ε × S} (h : Steps sys (Pool.empty, s) x) :
    ∀ i th, x.1 i = some th → good th.prog := by
  induction h with
  | refl =>
    intro i th hi
    cases hi
  | tail _ hxy ih =>
    intro j th hj
    cases hxy with
    | run i t o next r hi _ =>
      dsimp only at hj
      by_cases hji : j = i
      · subst hji
        rw [Pool.set_self] at hj
        cases hj
        exact hstep o next r (ih j _ hi)
      · rw [Pool.set_ne _ _ hji] at hj
        exact ih j th hj
    | spawn i t p _ hp =>
      dsimp only at hj
      by_cases hji : j = i
      · subst hji
        rw [Pool.set_self] at hj
        cases hj
        exact hspawn j t p _ hp
      · rw [Pool.set_ne _ _ hji] at hj
        exact ih j th hj
    | crash t _ => exact ih j th (Pool.kill_eq_some.mp hj).1

/-! ### The rely-guarantee rule -/

/-- The promises of all threads of a system, and the laws under which they
fit together. -/
structure Rules (sys : System Op Res S T ε) where
  valid : S → Prop
  rely : Nat → T → S → S → Prop
  guar : Nat → T → S → S → Prop
  post : Nat → T → ε → S → Prop
  rely_refl : ∀ i t s, rely i t s s
  rely_trans : ∀ i t {a b c}, rely i t a b → rely i t b c → rely i t a c
  /-- What one thread does is within what every other thread tolerates. -/
  compat : ∀ i j t u s s', i ≠ j → valid s → guar j u s s' → rely i t s s'
  /-- A thread that may be started keeps its promises. -/
  fresh : ∀ i t p s, sys.spawn i t p s → valid s →
    Safe (sys.sem i t) valid (rely i t) (guar i t) (post i t) p s
  crash_valid : ∀ t s s', sys.crash t s s' → valid s → valid s'
  crash_rely : ∀ i t u s s', sys.crash u s s' → t ≠ u → valid s → rely i t s s'

namespace Rules

variable {sys : System Op Res S T ε} (rules : Rules sys)

/-- The shared state is valid and every thread keeps its promises. -/
structure Holds (x : Pool Op Res T ε × S) : Prop where
  valid : rules.valid x.2
  threads : ∀ i th, x.1 i = some th →
    Safe (sys.sem i th.tag) rules.valid (rules.rely i th.tag) (rules.guar i th.tag)
      (rules.post i th.tag) th.prog x.2

variable {rules}

theorem Holds.init {s : S} (hs : rules.valid s) : rules.Holds (Pool.empty, s) :=
  ⟨hs, fun _ _ h => by cases h⟩

/-- A returned value satisfies the postcondition, now and in every later
state. -/
theorem Holds.returned {x : Pool Op Res T ε × S} (h : rules.Holds x) {i : Nat} {t : T} {a : ε}
    (hi : x.1 i = some ⟨t, ret a⟩) : rules.post i t a x.2 :=
  h.threads i _ hi x.2 h.valid (rules.rely_refl _ _ _)

variable [DecidableEq T]

/-- **One step keeps every promise.** -/
theorem Holds.step {x y : Pool Op Res T ε × S} (h : rules.Holds x) (hxy : Step sys x y) :
    rules.Holds y := by
  cases hxy with
  | @run pool s s' i t o next r hi hsem =>
    obtain ⟨hv, hg, hn⟩ := h.threads i _ hi s r s' h.valid (rules.rely_refl _ _ _) hsem
    refine ⟨hv, ?_⟩
    intro j th hj
    dsimp only at hj ⊢
    by_cases hji : j = i
    · subst hji
      rw [Pool.set_self] at hj
      cases hj
      exact hn
    · rw [Pool.set_ne _ _ hji] at hj
      have hr := rules.compat j i th.tag t s s' hji h.valid hg
      refine Safe.stable ?_ (h.threads j th hj) hr
      exact rules.rely_trans j th.tag
  | @spawn pool s i t p hi hp =>
    refine ⟨h.valid, ?_⟩
    intro j th hj
    dsimp only at hj ⊢
    by_cases hji : j = i
    · subst hji
      rw [Pool.set_self] at hj
      cases hj
      exact rules.fresh j t p s hp h.valid
    · rw [Pool.set_ne _ _ hji] at hj
      exact h.threads j th hj
  | @crash pool s s' t hc =>
    refine ⟨rules.crash_valid t s s' hc h.valid, ?_⟩
    intro j th hj
    obtain ⟨hj, ht⟩ := Pool.kill_eq_some.mp hj
    have hr := rules.crash_rely j th.tag t s s' hc ht h.valid
    refine Safe.stable ?_ (h.threads j th hj) hr
    exact rules.rely_trans j th.tag

/-- **Every interleaving keeps every promise.** -/
theorem Holds.steps {x y : Pool Op Res T ε × S} (h : rules.Holds x) (hxy : Steps sys x y) :
    rules.Holds y := by
  induction hxy with
  | refl => exact h
  | tail _ hstep ih => exact ih.step hstep

/-- What every guarantee and every crash keeps links a state to all later
ones. -/
theorem Holds.evolves (keeps : S → S → Prop) (refl : ∀ s, keeps s s)
    (trans : ∀ {a b c}, keeps a b → keeps b c → keeps a c)
    (hguar : ∀ i t a b, rules.guar i t a b → keeps a b)
    (hcrash : ∀ t a b, sys.crash t a b → keeps a b) {x y : Pool Op Res T ε × S}
    (h : rules.Holds x) (hxy : Steps sys x y) : keeps x.2 y.2 := by
  induction hxy with
  | refl => exact refl _
  | tail hsteps hstep ih =>
    apply trans ih
    have hmid := h.steps hsteps
    cases hstep with
    | run i t o next r hi hsem =>
      exact hguar i t _ _ (hmid.threads i _ hi _ r _ hmid.valid (rules.rely_refl _ _ _) hsem).2.1
    | spawn => exact refl _
    | crash t hc => exact hcrash t _ _ hc

/-! ### What holds from some moment on -/

/-- From a moment on when `extra` holds, which no step undoes, the threads
started later may promise more. -/
def since (rules : Rules sys) (extra : S → Prop) (old : Nat → Prop) (post : Nat → T → ε → S → Prop)
    (hguar : ∀ i t a b, extra a → rules.guar i t a b → extra b)
    (hcrash : ∀ t a b, sys.crash t a b → extra a → extra b)
    (hfresh : ∀ i t p s, sys.spawn i t p s → rules.valid s → extra s →
      Safe (sys.sem i t) rules.valid (rules.rely i t) (rules.guar i t) (post i t) p s) :
    Rules sys where
  valid s := rules.valid s ∧ extra s
  rely := rules.rely
  guar := rules.guar
  post i t a s := old i ∨ post i t a s
  rely_refl := rules.rely_refl
  rely_trans i t := rules.rely_trans i t
  compat i j t u s s' hij hv := rules.compat i j t u s s' hij hv.1
  fresh i t p s hp hv := by
    have hsafe := hfresh i t p s hp hv.1 hv.2
    refine Safe.weaken (Safe.restrict (hguar i t) hsafe) ?_
    exact fun _ _ _ h => Or.inr h
  crash_valid t s s' hc hv := ⟨rules.crash_valid t s s' hc hv.1, hcrash t s s' hc hv.2⟩
  crash_rely i t u s s' hc ht hv := rules.crash_rely i t u s s' hc ht hv.1

/-- **The rule for threads started later**: from `x` on, where `extra` holds,
a thread that was not yet there returns what a thread started under `extra`
promises. -/
theorem Holds.later (extra : S → Prop) (post : Nat → T → ε → S → Prop)
    (hguar : ∀ i t a b, extra a → rules.guar i t a b → extra b)
    (hcrash : ∀ t a b, sys.crash t a b → extra a → extra b)
    (hfresh : ∀ i t p s, sys.spawn i t p s → rules.valid s → extra s →
      Safe (sys.sem i t) rules.valid (rules.rely i t) (rules.guar i t) (post i t) p s)
    {x y : Pool Op Res T ε × S} (h : rules.Holds x) (hx : extra x.2) (hxy : Steps sys x y)
    {j : Nat} (hj : x.1 j = none) {t : T} {a : ε} (hy : y.1 j = some ⟨t, ret a⟩) :
    post j t a y.2 := by
  let later := rules.since extra (fun i => x.1 i ≠ none) post hguar hcrash hfresh
  have hx' : later.Holds x := by
    refine ⟨⟨h.valid, hx⟩, ?_⟩
    intro i th hi
    -- the threads that are there already promise nothing new
    have hsafe := Safe.restrict (hguar i th.tag) (h.threads i th hi)
    refine Safe.weaken hsafe ?_
    intro _ _ _ _
    have hne : x.1 i ≠ none := by
      rw [hi]
      exact Option.some_ne_none th
    exact Or.inl hne
  have hpost : x.1 j ≠ none ∨ post j t a y.2 := (hx'.steps hxy).returned hy
  exact hpost.resolve_left fun hne => hne hj

end Rules

end Interleave
