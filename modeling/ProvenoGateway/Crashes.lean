/-
ProvenoGateway/Crashes.lean

What crashes cost a later write.

A process that ends in the middle of a put leaves its temp file behind.  The
next process with the same id counts from 0 again, so it may draw the number
of that file, and then `create_new` fails.  Here processes crash and start at
will, and faults strike any thread but the one whose put is looked at.  That
put succeeds as long as its temp name is free when it creates the file
(`NameFree`), and its content is there from then on; `stale_temp_file` is a
history in which the name is taken.
-/
import ProvenoGateway.AppendOnly

namespace ProvenoGateway

open Program Interleave

/-! ### The setting -/

/-- Nothing is under the temp name that thread `i₀` creates. -/
def NameFree (i₀ i : Nat) : Op → World → Prop
  | .createNew tmp, w => i = i₀ → w.files tmp = none
  | _, _ => True

/-- Thread `i₀` puts under a fresh key; nobody else puts under that key. -/
def FreshPut (deps : Deps) (store : TraceStore) (i₀ : Nat) (put : StoreCall) (p : Path) (i : Nat)
    (c : StoreCall) (w : World) : Prop :=
  if i = i₀ then c = put ∧ w.visible p = none
  else ∀ bytes, c.content deps = some bytes → c.path store ≠ .ok p

/-! ### The protocol -/

/-- Only thread `i₀` changes the file `p`, and it writes nothing but
`bytes`. -/
def oneWriter (faults : Nat → Prop) (i₀ : Nat) (p : Path) (bytes : ByteArray) : Protocol where
  toSetting := .crashing faults (NameFree i₀)
  inv _ := True
  rely i V V' := if i = i₀ then V' p = V p else V p = some bytes → V' p = some bytes
  guar i V V' := if i = i₀ then V p = some bytes → V' p = some bytes else V' p = V p
  rely_refl i V := by
    split
    · rfl
    · exact fun h => h
  rely_trans i a b c h h' := by
    split at h
    case isTrue hi =>
      rw [if_pos hi] at h' ⊢
      exact h'.trans h
    case isFalse hi =>
      rw [if_neg hi] at h' ⊢
      exact fun hp => h' (h hp)
  guar_refl i V := by
    split
    · exact fun h => h
    · rfl
  compat i j V V' hij _ h := by
    by_cases hi : i = i₀
    · subst hi
      rw [if_neg (Ne.symm hij)] at h
      rw [if_pos rfl]
      exact h
    · rw [if_neg hi]
      intro hp
      by_cases hj : j = i₀
      · rw [if_pos hj] at h
        exact h hp
      · rw [if_neg hj] at h
        exact h.trans hp

section Writer

variable {faults : Nat → Prop} {i₀ i j pid pid' : Nat} {p q : Path} {bytes content : ByteArray}

/-- The writer may publish what it is to write. -/
theorem oneWriter_publish (V : Files) :
    (oneWriter faults i₀ p bytes).CanPublish i₀ p bytes V := by
  intro w tmp _ _ _ _
  refine ⟨trivial, ?_⟩
  show if i₀ = i₀ then _ else _
  rw [if_pos rfl]
  intro _
  exact Function.update_self _ _ _

/-- The others may publish elsewhere. -/
theorem oneWriter_publish_elsewhere (hi : i ≠ i₀) (hq : q ≠ p) (V : Files) :
    (oneWriter faults i₀ p bytes).CanPublish i q content V := by
  intro w tmp _ _ _ _
  refine ⟨trivial, ?_⟩
  show if i = i₀ then _ else _
  rw [if_neg hi]
  exact Function.update_of_ne (Ne.symm hq) _ _

theorem oneWriter_rely_keeps {V V' : Files} (h : (oneWriter faults i₀ p bytes).rely i V V')
    (hV : V p = some bytes) : V' p = some bytes := by
  have h' : if i = i₀ then V' p = V p else V p = some bytes → V' p = some bytes := h
  split at h'
  · exact h'.trans hV
  · exact h' hV

/-- Every thread leaves the content alone once it is there. -/
theorem oneWriter_guar_keeps {V V' : Files} (h : (oneWriter faults i₀ p bytes).guar i V V')
    (hV : V p = some bytes) : V' p = some bytes := by
  have h' : if i = i₀ then V p = some bytes → V' p = some bytes else V' p = V p := h
  split at h'
  · exact h' hV
  · exact h'.trans hV

end Writer

/-! ### The put that is looked at -/

section Callers

variable {deps : Deps} {store : TraceStore} {faults : Nat → Prop} {i₀ : Nat} {put : StoreCall}
  {p : Path} {bytes : ByteArray}

/-- The histories: processes crash and start, thread `i₀` puts under a fresh
key, and its temp name is free. -/
abbrev history (deps : Deps) (store : TraceStore) (faults : Nat → Prop) (i₀ : Nat)
    (put : StoreCall) (p : Path) : System Op Res World Nat (StoreCall × StoreAnswer) :=
  callers (.crashing faults (NameFree i₀)) deps store (FreshPut deps store i₀ put p)

/-- What the thread promises: success, with the content in place. -/
def Stored (i₀ : Nat) (p : Path) (bytes : ByteArray) (i : Nat) (a : StoreCall × StoreAnswer)
    (w : World) : Prop :=
  i = i₀ → a.2 = .put (.ok ()) ∧ w.visible p = some bytes

theorem safe_fresh_put {pid : Nat} {w : World} (hfaults : ¬ faults i₀)
    (hv : (oneWriter faults i₀ p bytes).Valid w) (hc : put.content deps = some bytes)
    (hp : put.path store = .ok p) (hfresh : w.visible p = none) :
    (oneWriter faults i₀ p bytes).Safe i₀ pid
      (fun a w' => a.1 = put ∧ Stored i₀ p bytes i₀ a w') (put.thread deps store) w := by
  have hsafe : (oneWriter faults i₀ p bytes).Safe i₀ pid _ (put.thread deps store) w :=
    StoreCall.safe_put hv hc hp (oneWriter_publish w.visible)
  refine Interleave.Safe.weaken hsafe ?_
  rintro a w' _ ⟨hcall, r, hr, hput⟩
  refine ⟨hcall, fun _ => ?_⟩
  -- the key stays free until the writer fills it
  have hrely : ∀ {V V' : Files}, (oneWriter faults i₀ p bytes).rely i₀ V V' → V' p = V p := by
    intro V V' h
    have h' : if i₀ = i₀ then V' p = V p else _ := h
    rwa [if_pos rfl] at h'
  have hnot : r ≠ .error put.refusal := by
    intro h
    obtain ⟨V, c, -, h₀, hV, -⟩ := hput.refused h
    rw [hrely h₀, hfresh] at hV
    cases hV
  cases r with
  | ok u =>
    obtain ⟨V, -, hV, h₁⟩ := hput.stored rfl
    exact ⟨hr, (hrely h₁).trans hV⟩
  | error e =>
    exfalso
    rcases hput.failed e rfl with rfl | ⟨hcause, -⟩
    · exact hnot rfl
    · rcases hcause with h | ⟨-, u, n, hfree, htaken⟩
      · exact hfaults h
      · have hnone : u.files ⟨p.parent, tmpName pid n⟩ = none := hfree rfl
        rw [hnone] at htaken
        cases htaken

theorem safe_caller {i pid : Nat} {w : World} (hfaults : ¬ faults i₀)
    (hc : put.content deps = some bytes) (hp : put.path store = .ok p) (c : StoreCall)
    (hadmits : FreshPut deps store i₀ put p i c w) (hv : (oneWriter faults i₀ p bytes).Valid w) :
    (oneWriter faults i₀ p bytes).Safe i pid
      (fun a w' => a.1 = c ∧ Stored i₀ p bytes i a w') (c.thread deps store) w := by
  by_cases hi : i = i₀
  · subst hi
    have hadmits' : c = put ∧ w.visible p = none := by
      simpa [FreshPut] using hadmits
    obtain ⟨rfl, hfresh⟩ := hadmits'
    exact safe_fresh_put hfaults hv hc hp hfresh
  · have hother : ∀ b, c.content deps = some b → c.path store ≠ .ok p := by
      simpa [FreshPut, hi] using hadmits
    cases hq : c.path store with
    | error e =>
      obtain ⟨a, hthread, -⟩ := StoreCall.thread_invalid deps hq
      rw [hthread]
      exact Protocol.Safe.ret fun _ _ _ => ⟨rfl, fun h => absurd h hi⟩
    | ok q =>
      cases hb : c.content deps with
      | none =>
        refine Interleave.Safe.weaken (StoreCall.safe_get hv hb hq) ?_
        exact fun _ _ _ h => ⟨h.1, fun h => absurd h hi⟩
      | some content =>
        have hqp : q ≠ p := fun h => hother content hb (by rw [hq, h])
        refine Interleave.Safe.weaken
          (StoreCall.safe_put hv hb hq (oneWriter_publish_elsewhere hi hqp w.visible)) ?_
        exact fun _ _ _ h => ⟨h.1, fun h => absurd h hi⟩

def historyRules (faults : Nat → Prop) (hfaults : ¬ faults i₀) (hc : put.content deps = some bytes)
    (hp : put.path store = .ok p) : Rules (history deps store faults i₀ put p) :=
  (oneWriter faults i₀ p bytes).rules _ (fun i _ a w => Stored i₀ p bytes i a w) (by
    rintro i pid _ w ⟨c, hadmits, rfl⟩ hv
    exact Interleave.Safe.weaken (safe_caller hfaults hc hp c hadmits hv) fun _ _ _ h => h.2)

theorem history_holds (hfaults : ¬ faults i₀) (hc : put.content deps = some bytes)
    (hp : put.path store = .ok p) {w : World} (hw : w.Numbered) {x : CallerPool × World}
    (h : Steps (history deps store faults i₀ put p) (Pool.empty, w) x) :
    (historyRules faults hfaults hc hp).Holds x :=
  Rules.Holds.steps (.init ⟨hw, fun hu => hu.elim, trivial⟩) h

/-- In every history in which its temp name is free, a put under a fresh key
succeeds, and every later get that meets no fault returns what was put. -/
theorem fresh_put_succeeds (codec : RecordCodec deps) (hfaults : ¬ faults i₀)
    (hc : put.content deps = some bytes) (hp : put.path store = .ok p) {w : World}
    (hw : w.Numbered) {x : CallerPool × World}
    (h : Steps (history deps store faults i₀ put p) (Pool.empty, w) x) {pid : Nat} {a : StoreAnswer}
    (hi : x.1 i₀ = some ⟨pid, ret (put, a)⟩) :
    a = .put (.ok ()) ∧ ∀ y, Steps (history deps store faults i₀ put p) x y →
      ∀ j pid' get b b', ¬ faults j → x.1 j = none → y.1 j = some ⟨pid', ret (get, b)⟩ →
        Fetches put get b' → b = b' := by
  have hx := history_holds hfaults hc hp hw h
  have hstored : Stored i₀ p bytes i₀ (put, a) x.2 := hx.returned hi
  obtain ⟨ha, hfile⟩ := hstored rfl
  refine ⟨ha, ?_⟩
  intro y hxy j pid' get b b' hj hxj hyj hf
  refine hx.later (fun w => w.visible p = some bytes)
    (fun k _ r _ => ¬ faults k → r.1 = get → r.2 = b') ?_ ?_ ?_ hfile hxy hxj hyj hj rfl
  · intro k t u v hu hguar
    exact oneWriter_guar_keeps hguar.visible hu
  · rintro t u v ⟨-, hcrash⟩ hu
    rw [World.visible_crash hcrash]
    exact hu
  · rintro k t _ u ⟨c, hadmits, rfl⟩ hv hu
    have hself : (oneWriter faults i₀ p bytes).Safe k t (fun a _ => a.1 = c)
        (c.thread deps store) u :=
      Interleave.Safe.weaken (safe_caller hfaults hc hp c hadmits hv) fun _ _ _ h => h.1
    exact StoreCall.safe_fetch codec hv hf hc hp hu (fun _ _ => oneWriter_rely_keeps) hself

end Callers

/-! ### At the instance -/

/-- The end of a process that loses nothing it has written. -/
def World.ended (pid : Nat) (w : World) : World where
  files := w.files
  counter := fun q => if q = pid then 0 else w.counter q
  owner := fun q n => if q = pid then none else w.owner q n

theorem World.crash_ended (pid : Nat) (w : World) : crash pid w (w.ended pid) :=
  ⟨fun _ _ => rfl, fun _ h => h, rfl, rfl⟩

namespace Reference

def interrupted : StoreCall := .putProgram "a1" "return nil"

/-- A put that gets as far as creating its temp file. -/
def begun : List Move := .start 0 1 interrupted :: List.replicate 4 (.turn 0)

/-- Where that leaves the system, if its process then ends. -/
def afterCrash (x : CallerPool × World) : CallerPool × World := (x.1.kill 1, x.2.ended 1)

def nameCheck : Op → World → Bool
  | .createNew tmp, w => (w.files tmp).isNone
  | _, _ => true

theorem nameCheck_sound (i₀ i : Nat) (o : Op) (w : World) (h : nameCheck o w = true) :
    NameFree i₀ i o w := by
  cases o with
  | createNew tmp => exact fun _ => Option.isNone_iff_eq_none.mp h
  | _ => trivial

def plainPath : Path := ⟨"store/programs", "a0.lua"⟩

/-- Nothing but a temp file. -/
theorem visible_none {w : World} (h : ∀ p, (w.files p).isSome → p.name = ".tmp-1-0") :
    ∀ p, w.visible p = none := by
  intro p
  by_cases hp : p.IsTmp
  · exact World.visible_of_tmp hp
  · rw [World.visible_of_not_tmp hp]
    cases hf : w.files p with
    | none => rfl
    | some c => exact absurd ⟨1, 0, h p (by rw [hf]; rfl)⟩ hp

theorem begun_files {x : CallerPool × World}
    (h : play reference store nameCheck begun (Pool.empty, World.empty) = some x) (p : Path)
    (hp : (x.2.files p).isSome) : p.name = ".tmp-1-0" := by
  cases h
  by_contra hne
  have hnone : (if p = ⟨"store/programs", ".tmp-1-0"⟩ then some ByteArray.empty else none) = none :=
    if_neg fun he => hne (by rw [he])
  have hp' : (if p = ⟨"store/programs", ".tmp-1-0"⟩ then some ByteArray.empty
    else none).isSome = true := hp
  rw [hnone] at hp'
  cases hp'

/-- The state after the crash, with the put of thread 1 of process `pid`
started. -/
def resumed (x : CallerPool × World) (pid : Nat) : CallerPool × World :=
  ((afterCrash x).1.set 1 ⟨pid, plain.thread reference store⟩, (afterCrash x).2)

theorem begun_resumed {C : Setting} {admits : Nat → StoreCall → World → Prop}
    (hC : ¬ C.undisturbed) {x : CallerPool × World} (pid : Nat)
    (hx : Steps (callers C reference store admits) (Pool.empty, World.empty) x)
    (hnone : (afterCrash x).1 1 = none) (hadmits : admits 1 plain (afterCrash x).2) :
    Steps (callers C reference store admits) (Pool.empty, World.empty) (resumed x pid) := by
  have hcrash : Step (callers C reference store admits) x (afterCrash x) :=
    Step.crash 1 ⟨hC, World.crash_ended 1 x.2⟩
  have hstart : Step (callers C reference store admits) (afterCrash x) (resumed x pid) :=
    Step.spawn 1 pid _ hnone ⟨plain, hadmits, rfl⟩
  exact (hx.tail hcrash).tail hstart

end Reference

open Reference in
/-- The next process has another id. -/
theorem fresh_put_succeeds_reference :
    ∃ x, Steps (history reference store (fun _ => False) 1 plain plainPath)
      (Pool.empty, World.empty) x ∧ x.1 1 = some ⟨2, ret (plain, .put (.ok ()))⟩ := by
  obtain ⟨x, hx, hnone⟩ : ∃ x, play reference store nameCheck begun (Pool.empty, World.empty) =
      some x ∧ (afterCrash x).1 1 = none := ⟨_, rfl, rfl⟩
  have hbegun : Steps (history reference store (fun _ => False) 1 plain plainPath)
      (Pool.empty, World.empty) x := by
    refine play_steps (nameCheck_sound 1) ?_ hx
    intro i pid c w hmem
    have hmem' : Move.start i pid c = .start 0 1 interrupted := by simpa [begun] using hmem
    cases hmem'
    -- another key
    show if 0 = 1 then _ else _
    rw [if_neg (by decide)]
    intro _ _
    decide
  have hfresh : FreshPut reference store 1 plain plainPath 1 plain (afterCrash x).2 := by
    show if 1 = 1 then _ else _
    rw [if_pos rfl]
    exact ⟨rfl, visible_none (begun_files hx) plainPath⟩
  have hresumed := begun_resumed id 2 hbegun hnone hfresh
  obtain ⟨y, hy, a, ha⟩ : ∃ y, play reference store nameCheck (List.replicate 7 (.turn 1))
      (resumed x 2) = some y ∧ ∃ a, y.1 1 = some ⟨2, ret (plain, a)⟩ := by
    cases hx
    exact ⟨_, rfl, _, rfl⟩
  have hput : Steps (history reference store (fun _ => False) 1 plain plainPath)
      (resumed x 2) y := play_steps (nameCheck_sound 1) (by simp) hy
  obtain ⟨hok, -⟩ := fresh_put_succeeds codec id rfl rfl World.clean_empty.numbered
    (hresumed.trans hput) ha
  rw [hok] at ha
  exact ⟨y, hresumed.trans hput, ha⟩

namespace Reference

/-- Every history, whatever the temp names. -/
abbrev anyHistory : System Op Res World Nat (StoreCall × StoreAnswer) :=
  callers (.crashing (fun _ => False) fun _ _ _ => True) reference store fun _ _ _ => True

theorem play_anyHistory {check : Op → World → Bool} {ms : List Move} {x y : CallerPool × World}
    (h : play reference store check ms x = some y) : Steps anyHistory x y :=
  play_steps (fun _ _ _ _ => trivial) (fun _ _ _ _ _ => trivial) h

end Reference

open Reference in
/-- The next process has the same id and draws the same number: a put under a
key never used before fails. -/
theorem stale_temp_file : ∃ x y, Steps anyHistory (Pool.empty, World.empty) x ∧
    Steps anyHistory x y ∧ x.1 1 = some ⟨1, plain.thread reference store⟩ ∧
    (∀ p, x.2.visible p = none) ∧
    y.1 1 = some ⟨1, ret (plain, .put (.error (.io World.alreadyExists)))⟩ := by
  obtain ⟨x, hx, hnone⟩ : ∃ x, play reference store nameCheck begun (Pool.empty, World.empty) =
      some x ∧ (afterCrash x).1 1 = none := ⟨_, rfl, rfl⟩
  have hresumed : Steps anyHistory (Pool.empty, World.empty) (resumed x 1) :=
    begun_resumed id 1 (play_anyHistory hx) hnone trivial
  obtain ⟨y, hy, ha⟩ : ∃ y, play reference store (fun _ _ => true) (List.replicate 5 (.turn 1))
      (resumed x 1) = some y ∧
      y.1 1 = some ⟨1, ret (plain, .put (.error (.io World.alreadyExists)))⟩ := by
    cases hx
    exact ⟨_, rfl, rfl⟩
  have hfiles : ∀ p, (resumed x 1).2.visible p = none := visible_none fun p hp => begun_files hx p hp
  exact ⟨resumed x 1, y, hresumed, play_anyHistory hy, rfl, hfiles, ha⟩

end ProvenoGateway
