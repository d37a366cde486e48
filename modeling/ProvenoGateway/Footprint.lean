/-
ProvenoGateway/Footprint.lean

What a program touches, as a library of its own.

Which operations a program may perform can depend on what it was answered
before: a file is its own once it has drawn the name.  `UsesAfter` says so of
every operation it can come to perform (`UsesAfter.next`).  In a state that
answers as expected, the operations then are all of a kind (`Exec.restrict`),
and what holds of each of them holds of the whole run: that it keeps a relation
(`Exec.related`), or that it goes the same way from a state that looks alike
(`Exec.simulated`).
-/
import ProvenoGateway.Program

namespace Program

variable {Op : Type} {Res : Op → Type} {α S : Type}

/-- Every operation the program can come to perform is allowed after the events
before it. -/
def UsesAfter (allowed : List (Event Op Res) → Op → Prop) :
    List (Event Op Res) → Program Op Res α → Prop
  | _, ret _ => True
  | past, call o next => allowed past o ∧ ∀ r, UsesAfter allowed (past ++ [⟨o, r⟩]) (next r)

variable {allowed : List (Event Op Res) → Op → Prop}

/-- Operations that stay allowed. -/
theorem Uses.after {base : Op → Prop} {past : List (Event Op Res)} {p : Program Op Res α}
    (h : p.Uses base) (hbase : ∀ more o, base o → allowed (past ++ more) o) :
    p.UsesAfter allowed past := by
  induction p generalizing past with
  | ret a => trivial
  | call o next ih =>
    refine ⟨?_, fun r => ih r (h.2 r) fun more o' ho' => ?_⟩
    · have hnow := hbase [] o h.1
      rwa [List.append_nil] at hnow
    · rw [List.append_assoc]
      exact hbase _ o' ho'

theorem UsesAfter.leads {past evs : List (Event Op Res)} {p q : Program Op Res α}
    (h : p.UsesAfter allowed past) (hq : Leads p evs q) : q.UsesAfter allowed (past ++ evs) := by
  induction hq with
  | refl => rwa [List.append_nil]
  | @step evs o next r _ ih =>
    have hcall : (call o next).UsesAfter allowed (past ++ evs) := ih
    rw [← List.append_assoc]
    exact hcall.2 r

/-- The next operation, wherever the program has come to. -/
theorem UsesAfter.next {evs : List (Event Op Res)} {p : Program Op Res α} {o : Op}
    {next : Res o → Program Op Res α} (h : p.UsesAfter allowed [])
    (hq : Leads p evs (call o next)) : allowed evs o := by
  have hcall : (call o next).UsesAfter allowed ([] ++ evs) := h.leads hq
  exact hcall.1

/-- Where the answers are as expected, what is allowed is good. -/
theorem Exec.restrict {sem : Sem Op Res S} {good : Op → Prop}
    {expected : List (Event Op Res) → S → Prop}
    (hstep : ∀ past o s r s', expected past s → allowed past o → sem o s r s' →
      good o ∧ expected (past ++ [⟨o, r⟩]) s')
    {past : List (Event Op Res)} {p : Program Op Res α} {s s' : S} {a : α}
    (hp : p.UsesAfter allowed past) (hs : expected past s) (h : Exec sem p s a s') :
    Exec (fun o s r s' => good o ∧ sem o s r s') p s a s' := by
  induction h generalizing past with
  | ret a s => exact Exec.ret a s
  | call o next hsem _ ih =>
    obtain ⟨hgood, hnext⟩ := hstep past o _ _ _ hs hp.1 hsem
    exact Exec.call o next ⟨hgood, hsem⟩ (ih (hp.2 _) hnext)

/-- What every operation keeps, the run keeps. -/
theorem Exec.related {sem : Sem Op Res S} {R : S → S → Prop} (hrefl : ∀ s, R s s)
    (htrans : ∀ {s s' s''}, R s s' → R s' s'' → R s s'')
    (hstep : ∀ o s r s', sem o s r s' → R s s') {p : Program Op Res α} {s s' : S} {a : α}
    (h : Exec sem p s a s') : R s s' := by
  induction h with
  | ret a s => exact hrefl s
  | call o next hsem _ ih => exact htrans (hstep o _ _ _ hsem) ih

/-- From a state that looks alike, the run goes the same way. -/
theorem Exec.simulated {sem sem' : Sem Op Res S} {alike : S → S → Prop}
    (hstep : ∀ o s r s' t, sem o s r s' → alike s t → ∃ t', sem' o t r t' ∧ alike s' t')
    {p : Program Op Res α} {s s' t : S} {a : α} (h : Exec sem p s a s') (ht : alike s t) :
    ∃ t', Exec sem' p t a t' ∧ alike s' t' := by
  induction h generalizing t with
  | ret a s => exact ⟨t, Exec.ret a t, ht⟩
  | call o next hsem _ ih =>
    obtain ⟨t₁, ht₁, halike⟩ := hstep o _ _ _ t hsem ht
    obtain ⟨t', ht', halike'⟩ := ih halike
    exact ⟨t', Exec.call o next ht₁ ht', halike'⟩

end Program
