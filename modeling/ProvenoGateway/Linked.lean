/-
ProvenoGateway/Linked.lean

Programs that ask for different things, as a library of its own.

`Linked link related p p'`: whatever `p` asks for and is answered, `p'` asks
for something too, and there is an answer to it such that `link` holds of the
two events; what the programs return is `related`.  A run of one is then
followed by a run of the other (`Linked.runs`).  Where linked events do the
same to the state, whole pools of linked programs go through the same states
(`Steps.linked`).
-/
import Mathlib.Data.List.Forall2
import ProvenoGateway.Interleave

namespace Program

variable {Op Op' : Type} {Res : Op → Type} {Res' : Op' → Type} {α α' β β' : Type}

inductive Linked (link : Event Op Res → Event Op' Res' → Prop) (related : α → α' → Prop) :
    Program Op Res α → Program Op' Res' α' → Prop
  | ret (a : α) (a' : α') : related a a' → Linked link related (ret a) (ret a')
  | call (o : Op) (o' : Op') (answer : Res o → Res' o') (next : Res o → Program Op Res α)
      (next' : Res' o' → Program Op' Res' α') :
      (∀ r, link ⟨o, r⟩ ⟨o', answer r⟩) →
      (∀ r, Linked link related (next r) (next' (answer r))) →
      Linked link related (call o next) (call o' next')

variable {link : Event Op Res → Event Op' Res' → Prop} {related : α → α' → Prop}
  {related' : β → β' → Prop}

theorem Linked.bind {p : Program Op Res α} {p' : Program Op' Res' α'} {f : α → Program Op Res β}
    {f' : α' → Program Op' Res' β'} (h : Linked link related p p')
    (hf : ∀ a a', related a a' → Linked link related' (f a) (f' a')) :
    Linked link related' (p >>= f) (p' >>= f') := by
  induction h with
  | ret a a' ha => exact hf a a' ha
  | call o o' answer next next' hlink _ ih =>
    apply Linked.call o o' answer
    · exact hlink
    · exact ih

/-- A program is linked to itself, if the events it can cause are. -/
theorem Linked.refl {link : Event Op Res → Event Op Res → Prop} {allowed : Op → Prop}
    (hlink : ∀ o r, allowed o → link ⟨o, r⟩ ⟨o, r⟩) {p : Program Op Res α} (hp : p.Uses allowed) :
    Linked link Eq p p := by
  induction p with
  | ret a => exact Linked.ret a a rfl
  | call o next ih =>
    apply Linked.call o o id
    · exact fun r => hlink o r hp.1
    · exact fun r => ih r (hp.2 r)

/-- A run is followed, event by event. -/
theorem Linked.runs {p : Program Op Res α} {p' : Program Op' Res' α'} (h : Linked link related p p')
    {evs : List (Event Op Res)} {a : α} (hruns : Runs p evs a) :
    ∃ evs' a', Runs p' evs' a' ∧ List.Forall₂ link evs evs' ∧ related a a' := by
  induction hruns generalizing p' with
  | ret a =>
    cases h with
    | ret _ a' ha => exact ⟨[], a', Runs.ret a', .nil, ha⟩
  | call o next r _ ih =>
    cases h with
    | call _ o' answer _ next' hlink hnext =>
      obtain ⟨evs', a', hruns', hevs, ha⟩ := ih (hnext r)
      exact ⟨_, a', Runs.call o' next' (answer r) hruns', .cons (hlink r) hevs, ha⟩

end Program

namespace Interleave

open Program

variable {Op Op' : Type} {Res : Op → Type} {Res' : Op' → Type} {S T ε ε' : Type}

/-- The threads are linked one by one, each to one of its own tag. -/
inductive Thread.Linked (link : Event Op Res → Event Op' Res' → Prop) (related : ε → ε' → Prop) :
    Option (Thread Op Res T ε) → Option (Thread Op' Res' T ε') → Prop
  | none : Linked link related none none
  | some (t : T) {p : Program Op Res ε} {p' : Program Op' Res' ε'} :
      p.Linked link related p' → Linked link related (some ⟨t, p⟩) (some ⟨t, p'⟩)

def Pool.Linked (link : Event Op Res → Event Op' Res' → Prop) (related : ε → ε' → Prop)
    (pool : Pool Op Res T ε) (pool' : Pool Op' Res' T ε') : Prop :=
  ∀ i, Thread.Linked link related (pool i) (pool' i)

variable {link : Event Op Res → Event Op' Res' → Prop} {related : ε → ε' → Prop}
  {pool : Pool Op Res T ε} {pool' : Pool Op' Res' T ε'}

theorem Pool.Linked.empty :
    Pool.Linked link related (Pool.empty : Pool Op Res T ε) (Pool.empty : Pool Op' Res' T ε') :=
  fun _ => .none

theorem Pool.Linked.set (h : Pool.Linked link related pool pool') (i : Nat) (t : T)
    {p : Program Op Res ε} {p' : Program Op' Res' ε'} (hp : p.Linked link related p') :
    Pool.Linked link related (pool.set i ⟨t, p⟩) (pool'.set i ⟨t, p'⟩) := by
  intro j
  by_cases hj : j = i
  · rw [hj, Pool.set_self, Pool.set_self]
    exact .some t hp
  · rw [Pool.set_ne _ _ hj, Pool.set_ne _ _ hj]
    exact h j

theorem Pool.Linked.kill [DecidableEq T] (h : Pool.Linked link related pool pool') (t : T) :
    Pool.Linked link related (pool.kill t) (pool'.kill t) := by
  intro j
  show Thread.Linked link related ((pool j).filter _) ((pool' j).filter _)
  have hj := h j
  revert hj
  generalize pool j = th
  generalize pool' j = th'
  intro hj
  cases hj with
  | none => exact .none
  | some u hp =>
    by_cases hu : u = t
    · simpa [Option.filter, hu] using Thread.Linked.none
    · simpa [Option.filter, hu] using Thread.Linked.some u hp

/-- What returned in one pool has returned in the other. -/
theorem Pool.Linked.returned (h : Pool.Linked link related pool pool') {i : Nat} {t : T} {a : ε}
    (hi : pool i = some ⟨t, ret a⟩) : ∃ a', pool' i = some ⟨t, ret a'⟩ ∧ related a a' := by
  have hlinked := h i
  rw [hi] at hlinked
  generalize hth : pool' i = th' at hlinked
  cases hlinked with
  | some _ hp =>
    cases hp with
    | ret _ a' ha => exact ⟨a', rfl, ha⟩

variable [DecidableEq T] {sys : System Op Res S T ε} {sys' : System Op' Res' S T ε'}

/-- **Linked pools go through the same states.**  By induction on the steps,
each of which is followed by one of the other pool. -/
theorem Steps.linked
    (hsem : ∀ i t o r o' r' s s', link ⟨o, r⟩ ⟨o', r'⟩ → sys.sem i t o s r s' →
      sys'.sem i t o' s r' s')
    (hspawn : ∀ i t p s, sys.spawn i t p s → ∃ p', sys'.spawn i t p' s ∧ p.Linked link related p')
    (hcrash : ∀ t s s', sys.crash t s s' → sys'.crash t s s')
    (hpool : Pool.Linked link related pool pool') {s : S} {y : Pool Op Res T ε × S}
    (h : Steps sys (pool, s) y) :
    ∃ after, Steps sys' (pool', s) (after, y.2) ∧ Pool.Linked link related y.1 after := by
  induction h with
  | refl => exact ⟨pool', Relation.ReflTransGen.refl, hpool⟩
  | tail _ hstep ih =>
    obtain ⟨between, hsteps, hbetween⟩ := ih
    cases hstep with
    | @run now s s' i t o next r hi hdone =>
      have hlinked : Thread.Linked link related (now i) (between i) := hbetween i
      rw [hi] at hlinked
      generalize hth : between i = th at hlinked
      cases hlinked with
      | some _ hp =>
        cases hp with
        | call _ o' answer _ next' hlink hnext =>
          have hdone' := hsem i t o r o' (answer r) s s' (hlink r) hdone
          exact ⟨_, hsteps.tail (.run i t o' next' (answer r) hth hdone'),
            hbetween.set i t (hnext r)⟩
    | @spawn now s i t p hi hp =>
      obtain ⟨p', hp', hlinked⟩ := hspawn i t p _ hp
      have hnone : between i = none := by
        have hj : Thread.Linked link related (now i) (between i) := hbetween i
        rw [hi] at hj
        generalize between i = th at hj
        cases hj
        rfl
      exact ⟨_, hsteps.tail (.spawn i t p' hnone hp'), hbetween.set i t hlinked⟩
    | crash t hdone => exact ⟨_, hsteps.tail (.crash t (hcrash t _ _ hdone)), hbetween.kill t⟩

end Interleave
