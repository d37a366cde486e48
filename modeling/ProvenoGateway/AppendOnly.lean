/-
ProvenoGateway/AppendOnly.lean

When the store is append-only under concurrent callers.

A put looks for its file and later renames a temp file over it, so the two
are separate steps and a rival may come in between.  As long as that does not
happen (`CheckStands`: at the rename the file is still absent, or somebody has
stored the very same content), a file once there keeps its content, which is
all the callers need of each other.  `rivals_both_succeed` is a schedule in
which it does happen.
-/
import ProvenoGateway.Reference
import ProvenoGateway.StoreCalls

namespace ProvenoGateway

open Program Interleave

/-! ### The condition -/

/-- A rename that the check of its put still vouches for: the target is
absent, or holds the same content. -/
def CheckStands : Op → World → Prop
  | .rename tmp target, w => w.files target = none ∨ w.files target = w.files tmp
  | _, _ => True

instance (o : Op) (w : World) : Decidable (CheckStands o w) := by
  cases o <;> unfold CheckStands <;> infer_instance

/-- No temp file is left in the directory and no number is taken. -/
structure World.Clean (w : World) : Prop where
  files : ∀ p, p.IsTmp → w.files p = none
  owner : ∀ pid n, w.owner pid n = none

theorem World.Clean.numbered {w : World} (h : w.Clean) : w.Numbered := fun pid n _ => h.owner pid n

theorem World.Clean.tmpFresh {w : World} (h : w.Clean) : w.TmpFresh :=
  fun p pid n hp _ => h.files p ⟨pid, n, hp⟩

theorem World.clean_empty : World.empty.Clean := ⟨fun _ _ => rfl, fun _ _ => rfl⟩

/-! ### The protocol -/

/-- A file that is there keeps its content. -/
def appendOnly : Protocol where
  toSetting := .calm CheckStands
  inv _ := True
  rely _ V V' := ∀ p c, V p = some c → V' p = some c
  guar _ V V' := ∀ p c, V p = some c → V' p = some c
  rely_refl _ _ := fun _ _ h => h
  rely_trans _ := fun h h' p c hp => h' p c (h p c hp)
  guar_refl _ _ := fun _ _ h => h
  compat _ _ _ _ _ _ := fun h => h

theorem appendOnly_canPublish (i : Nat) (path : Path) (bytes : ByteArray) (V : Files) :
    appendOnly.CanPublish i path bytes V := by
  intro w tmp _ _ htmp hallowed
  refine ⟨trivial, ?_⟩
  intro p c hp
  by_cases hpp : p = path
  · subst hpp
    have hfile : w.files p = some c := by
      by_cases ht : p.IsTmp
      · rw [World.visible_of_tmp ht] at hp
        cases hp
      · rw [← World.visible_of_not_tmp ht]
        exact hp
    have hcheck : w.files p = none ∨ w.files p = w.files tmp := hallowed
    rw [hfile, htmp] at hcheck
    rw [Function.update_self]
    rcases hcheck with h | h
    · cases h
    · exact h.symm
  · rw [Function.update_of_ne hpp]
    exact hp

section Callers

variable {deps : Deps} {store : TraceStore}

/-- What a caller's answer says about the store. -/
structure Settled (deps : Deps) (store : TraceStore) (c : StoreCall) (a : StoreAnswer)
    (w : World) : Prop where
  stored : a = .put (.ok ()) → ∃ p bytes, c.path store = .ok p ∧ c.content deps = some bytes ∧
    w.visible p = some bytes
  refused : ∀ p bytes, c.path store = .ok p → c.content deps = some bytes →
    a = .put (.ok ()) ∨ a = .put (.error c.refusal)

theorem safe_settled {i pid : Nat} {w : World} (c : StoreCall) (hv : appendOnly.Valid w) :
    appendOnly.Safe i pid (fun a w' => a.1 = c ∧ Settled deps store c a.2 w')
      (c.thread deps store) w := by
  cases hp : c.path store with
  | error e =>
    obtain ⟨a, hthread, herr⟩ := StoreCall.thread_invalid deps hp
    have ha : a ≠ .put (.ok ()) := by
      rintro rfl
      cases herr
    rw [hthread]
    apply Protocol.Safe.ret
    intro w' _ _
    refine ⟨rfl, fun h => absurd h ha, fun p bytes h => ?_⟩
    rw [hp] at h
    cases h
  | ok p =>
    cases hc : c.content deps with
    | none =>
      refine Interleave.Safe.weaken (StoreCall.safe_get hv hc hp) ?_
      rintro a w' _ ⟨hcall, r, hr, -⟩
      refine ⟨hcall, fun h => ?_, fun p bytes _ h => ?_⟩
      · rw [hr] at h
        exact absurd h (StoreCall.reading_ne_put _ _ _ _)
      · rw [hc] at h
        cases h
    | some bytes =>
      have hsafe : appendOnly.Safe i pid _ (c.thread deps store) w :=
        StoreCall.safe_put hv hc hp (appendOnly_canPublish i p bytes w.visible)
      refine Interleave.Safe.weaken hsafe ?_
      rintro a w' _ ⟨hcall, r, hr, hput⟩
      refine ⟨hcall, fun h => ?_, fun _ _ _ _ => ?_⟩
      · have hok : r = .ok () := StoreAnswer.put.inj (hr.symm.trans h)
        obtain ⟨V, -, hV, hrely⟩ := hput.stored hok
        exact ⟨p, bytes, hp, hc, hrely p bytes hV⟩
      · rw [hr]
        cases r with
        | ok u => exact Or.inl rfl
        | error e =>
          rcases hput.failed e rfl with rfl | ⟨hcause, -⟩
          · exact Or.inr rfl
          · -- nothing strikes in this setting
            rcases hcause with hfault | ⟨hu, -⟩
            · exact hfault.elim
            · exact absurd trivial hu

/-- The callers of a store whose checks stand. -/
abbrev checked (deps : Deps) (store : TraceStore) :
    System Op Res World Nat (StoreCall × StoreAnswer) :=
  callers (.calm CheckStands) deps store fun _ _ _ => True

def appendOnlyRules (deps : Deps) (store : TraceStore) : Rules (checked deps store) :=
  appendOnly.rules _ (fun _ _ a w => Settled deps store a.1 a.2 w) (by
    rintro i pid p w ⟨c, -, rfl⟩ hv
    refine Interleave.Safe.weaken (safe_settled c hv) ?_
    rintro a w' _ ⟨hcall, hs⟩
    rw [hcall]
    exact hs)

theorem appendOnly_holds {w : World} (hw : w.Clean) {x : CallerPool × World}
    (h : Steps (checked deps store) (Pool.empty, w) x) : (appendOnlyRules deps store).Holds x :=
  Rules.Holds.steps (.init ⟨hw.numbered, fun _ => hw.tmpFresh, trivial⟩) h

/-! ### Append-only -/

/-- Of two rivals at most one succeeds, and the other is refused. -/
theorem rivals_exclude (codec : RecordCodec deps) {w : World} (hw : w.Clean)
    {x : CallerPool × World} (h : Steps (checked deps store) (Pool.empty, w) x)
    {i j pid pid' : Nat} {c c' : StoreCall} {a a' : StoreAnswer}
    (hi : x.1 i = some ⟨pid, ret (c, a)⟩) (hj : x.1 j = some ⟨pid', ret (c', a')⟩)
    (hr : Rival c c') {p : Path} (hp : c.path store = .ok p) :
    (a = .put (.ok ()) ∧ a' = .put (.error c'.refusal)) ∨
      (a = .put (.error c.refusal) ∧ a' = .put (.ok ())) ∨
      (a = .put (.error c.refusal) ∧ a' = .put (.error c'.refusal)) := by
  have hx := appendOnly_holds hw h
  have hs : Settled deps store c a x.2 := hx.returned hi
  have hs' : Settled deps store c' a' x.2 := hx.returned hj
  obtain ⟨hpath, bytes, bytes', hc, hc', hne⟩ := hr.differ store codec
  have hp' : c'.path store = .ok p := hpath.trans hp
  rcases hs.refused p bytes hp hc with ha | ha <;> rcases hs'.refused p bytes' hp' hc' with ha' | ha'
  · -- both stored: one file with two contents
    obtain ⟨q, b, hq, hb, hfile⟩ := hs.stored ha
    obtain ⟨q', b', hq', hb', hfile'⟩ := hs'.stored ha'
    rw [hp] at hq
    rw [hp'] at hq'
    cases hq
    cases hq'
    rw [hc] at hb
    rw [hc'] at hb'
    cases hb
    cases hb'
    exact absurd (Option.some.inj (hfile.symm.trans hfile')) hne
  · exact Or.inl ⟨ha, ha'⟩
  · exact Or.inr (Or.inl ⟨ha, ha'⟩)
  · exact Or.inr (Or.inr ⟨ha, ha'⟩)

/-- What was put is what every later get returns. -/
theorem later_gets (codec : RecordCodec deps) {w : World} (hw : w.Clean)
    {x y : CallerPool × World} (h : Steps (checked deps store) (Pool.empty, w) x)
    {i pid : Nat} {put : StoreCall} (hi : x.1 i = some ⟨pid, ret (put, .put (.ok ()))⟩)
    (hxy : Steps (checked deps store) x y) {j pid' : Nat} {get : StoreCall} {a a' : StoreAnswer}
    (hj : x.1 j = none) (hy : y.1 j = some ⟨pid', ret (get, a)⟩) (hf : Fetches put get a') :
    a = a' := by
  have hx := appendOnly_holds hw h
  have hs : Settled deps store put (.put (.ok ())) x.2 := hx.returned hi
  obtain ⟨p, bytes, hp, hc, hfile⟩ := hs.stored rfl
  -- from `x` on the file is there, so a get started later reads it
  refine hx.later (fun w => w.visible p = some bytes)
    (fun _ _ r _ => ¬ False → r.1 = get → r.2 = a') ?_ ?_ ?_ hfile hxy hj hy id rfl
  · intro k t u v hu hguar
    exact hguar.visible p bytes hu
  · rintro t u v ⟨hcalm, -⟩
    exact absurd trivial hcalm
  · rintro k t _ u ⟨c, -, rfl⟩ hv hu
    have hself : appendOnly.Safe k t (fun a _ => a.1 = c) (c.thread deps store) u :=
      Interleave.Safe.weaken (safe_settled c hv) fun _ _ _ h => h.1
    exact StoreCall.safe_fetch codec hv hf hc hp hu (fun _ _ h hV => h p bytes hV) hself

/-- In every run whose renames are all vouched for, at most one of two rivals
succeeds and the other is refused, and what was put is what every later get
returns. -/
theorem append_only (codec : RecordCodec deps) {w : World} (hw : w.Clean)
    {x : CallerPool × World} (h : Steps (checked deps store) (Pool.empty, w) x) :
    (∀ i j pid pid' c c' a a' p, x.1 i = some ⟨pid, ret (c, a)⟩ →
      x.1 j = some ⟨pid', ret (c', a')⟩ → Rival c c' → c.path store = .ok p →
      (a = .put (.ok ()) ∧ a' = .put (.error c'.refusal)) ∨
        (a = .put (.error c.refusal) ∧ a' = .put (.ok ())) ∨
        (a = .put (.error c.refusal) ∧ a' = .put (.error c'.refusal))) ∧
    (∀ i pid put, x.1 i = some ⟨pid, ret (put, .put (.ok ()))⟩ →
      ∀ y, Steps (checked deps store) x y → ∀ j pid' get a a', x.1 j = none →
        y.1 j = some ⟨pid', ret (get, a)⟩ → Fetches put get a' → a = a') := by
  refine ⟨?_, ?_⟩
  · intro i j pid pid' c c' a a' p hi hj hr hp
    exact rivals_exclude codec hw h hi hj hr hp
  · intro i pid put hi y hxy j pid' get a a' hj hy hf
    exact later_gets codec hw h hi hxy hj hy hf

end Callers

/-! ### At the instance -/

namespace Reference

def store : TraceStore := TraceStore.under "store"

def plain : StoreCall := .putProgram "a0" "return nil"

def commented : StoreCall := .putProgram "a0" "-- again\nreturn nil"

theorem rival : Rival plain commented := .program "a0" (by decide)

/-- One put after the other. -/
def inTurn : List Move :=
  .start 0 1 plain :: List.replicate 7 (.turn 0) ++ [.start 1 1 commented, .turn 1]

def fetch : List Move := [.start 2 1 (.getProgram "a0"), .turn 2]

/-- Both look before either writes. -/
def raced : List Move :=
  [.start 0 1 plain, .start 1 1 commented, .turn 0, .turn 1] ++ List.replicate 6 (.turn 0)

theorem play_checked {ms : List Move} {x y : CallerPool × World}
    (h : play reference store (fun o w => decide (CheckStands o w)) ms x = some y) :
    Steps (checked reference store) x y :=
  play_steps (fun _ _ _ => of_decide_eq_true) (fun _ _ _ _ _ => trivial) h

/-- Every run, whatever becomes of the checks. -/
abbrev unchecked : System Op Res World Nat (StoreCall × StoreAnswer) :=
  callers (.calm fun _ _ => True) reference store fun _ _ _ => True

theorem play_unchecked {ms : List Move} {x y : CallerPool × World}
    (h : play reference store (fun _ _ => true) ms x = some y) : Steps unchecked x y :=
  play_steps (fun _ _ _ _ => trivial) (fun _ _ _ _ _ => trivial) h

end Reference

open Reference in
theorem append_only_reference : ∃ x y, Steps (checked reference store) (Pool.empty, World.empty) x ∧
    Steps (checked reference store) x y ∧ x.1 0 = some ⟨1, ret (plain, .put (.ok ()))⟩ ∧
    x.1 1 = some ⟨1, ret (commented, .put (.error commented.refusal))⟩ ∧
    y.1 2 = some ⟨1, ret (.getProgram "a0", .text (.ok "return nil"))⟩ := by
  obtain ⟨x, hx, h₀, a₁, h₁⟩ : ∃ x, play reference store (fun o w => decide (CheckStands o w)) inTurn
      (Pool.empty, World.empty) = some x ∧ x.1 0 = some ⟨1, ret (plain, .put (.ok ()))⟩ ∧
      ∃ a₁, x.1 1 = some ⟨1, ret (commented, a₁)⟩ := ⟨_, rfl, rfl, _, rfl⟩
  obtain ⟨y, hy, h₂, a₂, h₃⟩ : ∃ y, play reference store (fun o w => decide (CheckStands o w)) fetch
      x = some y ∧ x.1 2 = none ∧ ∃ a₂, y.1 2 = some ⟨1, ret (.getProgram "a0", a₂)⟩ := by
    cases hx
    exact ⟨_, rfl, rfl, _, rfl⟩
  obtain ⟨hrivals, hgets⟩ := append_only codec World.clean_empty (play_checked hx)
  have ha₁ : a₁ = .put (.error commented.refusal) := by
    rcases hrivals 0 1 1 1 _ _ _ _ _ h₀ h₁ rival rfl with ⟨-, h⟩ | ⟨h, -⟩ | ⟨h, -⟩
    · exact h
    · cases h
    · cases h
  have ha₂ : a₂ = .text (.ok "return nil") :=
    hgets 0 1 _ h₀ y (play_checked hy) 2 1 _ _ _ h₂ h₃ (.program "a0" "return nil")
  rw [ha₁] at h₁
  rw [ha₂] at h₃
  exact ⟨x, y, play_checked hx, play_checked hy, h₀, h₁, h₃⟩

open Reference in
/-- Two rivals that look at the store before either writes: both succeed, and
a get started after the first one had its answer returns what the other put. -/
theorem rivals_both_succeed : Rival plain commented ∧
    ∃ x y, Steps unchecked (Pool.empty, World.empty) x ∧ Steps unchecked x y ∧
      x.1 0 = some ⟨1, ret (plain, .put (.ok ()))⟩ ∧ x.1 2 = none ∧
      y.1 1 = some ⟨1, ret (commented, .put (.ok ()))⟩ ∧
      y.1 2 = some ⟨1, ret (.getProgram "a0", .text (.ok "-- again\nreturn nil"))⟩ := by
  obtain ⟨x, hx, h₀, h₂⟩ : ∃ x, play reference store (fun _ _ => true) raced
      (Pool.empty, World.empty) = some x ∧ x.1 0 = some ⟨1, ret (plain, .put (.ok ()))⟩ ∧
      x.1 2 = none := ⟨_, rfl, rfl, rfl⟩
  obtain ⟨y, hy, h₁, h₃⟩ : ∃ y, play reference store (fun _ _ => true)
      (List.replicate 6 (.turn 1) ++ fetch) x = some y ∧
      y.1 1 = some ⟨1, ret (commented, .put (.ok ()))⟩ ∧
      y.1 2 = some ⟨1, ret (.getProgram "a0", .text (.ok "-- again\nreturn nil"))⟩ := by
    cases hx
    exact ⟨_, rfl, rfl, rfl⟩
  exact ⟨rival, x, y, play_unchecked hx, play_unchecked hy, h₀, h₂, h₁, h₃⟩

end ProvenoGateway
