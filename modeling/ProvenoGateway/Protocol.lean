/-
ProvenoGateway/Protocol.lean

The store under concurrency: what one `write_atomic` promises, whatever the
other threads and processes do.

Seen from outside, the store is its visible files, those not under a temp
name.  A `Setting` says which runs are considered: where I/O faults may
strike, whether processes crash, which steps may be taken.  A `Protocol` adds
what is invariant of the visible files, and what a thread may rely on and
guarantees about their evolution.  The temp files and the counter are
handled here once and for all: a number drawn from the counter belongs to the
thread that drew it, and nobody else touches a temp file of that number
(`Keeps`, `Does`).  So the only step of a write that anyone can see is its
rename, which publishes the whole content at once.
-/
import Mathlib.Logic.Function.Basic
import ProvenoGateway.Interleave
import ProvenoGateway.Store

namespace ProvenoGateway

open Program Interleave

/-! ### Visible files -/

abbrev Files : Type := Path → Option ByteArray

namespace World

variable {w w' : World} {p q : Path} {c : Option ByteArray}

open Classical in
/-- The files under their final names. -/
noncomputable def visible (w : World) : Files := fun p => if p.IsTmp then none else w.files p

theorem visible_of_not_tmp (hp : ¬ p.IsTmp) : w.visible p = w.files p := if_neg hp

theorem visible_of_tmp (hp : p.IsTmp) : w.visible p = none := if_pos hp

theorem visible_set_tmp (hp : p.IsTmp) : (w.set p c).visible = w.visible := by
  funext q
  by_cases hq : q.IsTmp
  · rw [visible_of_tmp hq, visible_of_tmp hq]
  · have hne : q ≠ p := fun h => hq (h ▸ hp)
    rw [visible_of_not_tmp hq, visible_of_not_tmp hq, set_files_ne w c hne]

theorem visible_set (hp : ¬ p.IsTmp) : (w.set p c).visible = Function.update w.visible p c := by
  funext q
  by_cases hqp : q = p
  · subst hqp
    rw [visible_of_not_tmp hp, set_files_self, Function.update_self]
  · rw [Function.update_of_ne hqp]
    by_cases hq : q.IsTmp
    · rw [visible_of_tmp hq, visible_of_tmp hq]
    · rw [visible_of_not_tmp hq, visible_of_not_tmp hq, set_files_ne w c hqp]

@[simp] theorem visible_draw (i pid : Nat) : (w.draw i pid).visible = w.visible := rfl

@[simp] theorem visible_empty : empty.visible = fun _ => none := by
  funext p
  simp [visible, empty]

theorem visible_crash {pid : Nat} (h : crash pid w w') : w'.visible = w.visible := by
  funext p
  by_cases hp : p.IsTmp
  · rw [visible_of_tmp hp, visible_of_tmp hp]
  · rw [visible_of_not_tmp hp, visible_of_not_tmp hp, h.files p fun hpid => hp ⟨pid, hpid⟩]

/-- There is no temp file under a number not yet drawn. -/
def TmpFresh (w : World) : Prop :=
  ∀ p pid n, p.name = tmpName pid n → w.counter pid ≤ n → w.files p = none

/-- A number not yet drawn has no owner. -/
def Numbered (w : World) : Prop := ∀ pid n, w.counter pid ≤ n → w.owner pid n = none

theorem Numbered.set (h : w.Numbered) (p : Path) (c : Option ByteArray) : (w.set p c).Numbered := h

theorem Numbered.draw (h : w.Numbered) (i pid : Nat) : (w.draw i pid).Numbered := by
  intro q n hn
  simp only [World.draw] at hn ⊢
  split_ifs at hn with hq
  · subst hq
    rw [if_neg (by omega)]
    exact h q n (by omega)
  · rw [if_neg (by tauto)]
    exact h q n hn

theorem TmpFresh.draw (h : w.TmpFresh) (i pid : Nat) : (w.draw i pid).TmpFresh := by
  intro p q n hp hn
  refine h p q n hp ?_
  simp only [World.draw] at hn
  split_ifs at hn with hq
  · subst hq
    omega
  · exact hn

theorem Numbered.crash {pid : Nat} (h : w.Numbered) (hc : World.crash pid w w') :
    w'.Numbered := by
  intro q n hn
  rw [hc.owner]
  rw [hc.counter] at hn
  by_cases hq : q = pid
  · exact if_pos hq
  · simp only [if_neg hq] at hn ⊢
    exact h q n hn

end World

/-! ### Settings and protocols -/

/-- The runs that are considered: where I/O faults may strike, whether
processes keep from crashing, and a condition on each step. -/
structure Setting where
  faults : Nat → Prop
  undisturbed : Prop
  allowed : Nat → Op → World → Prop

namespace Setting

/-- No I/O fault and no crash. -/
def calm (allowed : Op → World → Prop) : Setting where
  faults _ := False
  undisturbed := True
  allowed _ := allowed

/-- Processes crash, and faults strike the threads of `faults`. -/
def crashing (faults : Nat → Prop) (allowed : Nat → Op → World → Prop) : Setting where
  faults := faults
  undisturbed := False
  allowed := allowed

variable (C : Setting) {ε : Type}

def sem (i pid : Nat) : Sem Op Res World := fun o w r w' =>
  C.allowed i o w ∧ World.sem (C.faults i) i pid o w r w'

/-- The system of the threads that `spawn` lets start. -/
def system (spawn : Nat → Nat → Program Op Res ε → World → Prop) :
    System Op Res World Nat ε where
  sem := C.sem
  spawn := spawn
  crash := fun pid w w' => ¬ C.undisturbed ∧ World.crash pid w w'

end Setting

/-- What the threads of a store promise each other about the visible files. -/
structure Protocol extends Setting where
  inv : Files → Prop
  rely : Nat → Files → Files → Prop
  guar : Nat → Files → Files → Prop
  rely_refl : ∀ i V, rely i V V
  rely_trans : ∀ i {a b c}, rely i a b → rely i b c → rely i a c
  guar_refl : ∀ i V, guar i V V
  compat : ∀ i j V V', i ≠ j → inv V → guar j V V' → rely i V V'

namespace Protocol

variable (P : Protocol) {ε : Type}

structure Valid (w : World) : Prop where
  numbered : w.Numbered
  fresh : P.undisturbed → w.TmpFresh
  inv : P.inv w.visible

/-- What thread `i` of process `pid` sees of the others: its numbers and its
temp files are left alone. -/
structure Keeps (i pid : Nat) (w w' : World) : Prop where
  owner : ∀ n, w.owner pid n = some i → w'.owner pid n = some i
  tmp : ∀ p n, p.name = tmpName pid n → w.owner pid n = some i → w'.files p = w.files p
  visible : P.rely i w.visible w'.visible

/-- What thread `i` of process `pid` does: it takes no number away and touches
no temp file but its own. -/
structure Does (i pid : Nat) (w w' : World) : Prop where
  owner : ∀ q n j, w.owner q n = some j → w'.owner q n = some j
  tmp : ∀ p q n, p.name = tmpName q n → ¬ (q = pid ∧ w'.owner q n = some i) →
    w'.files p = w.files p
  visible : P.guar i w.visible w'.visible

variable {P} {i j pid pid' : Nat} {w w' w'' : World}

theorem Keeps.refl (w : World) : P.Keeps i pid w w :=
  ⟨fun _ h => h, fun _ _ _ _ => rfl, P.rely_refl i _⟩

theorem Keeps.trans (h : P.Keeps i pid w w') (h' : P.Keeps i pid w' w'') :
    P.Keeps i pid w w'' where
  owner n hn := h'.owner n (h.owner n hn)
  tmp p n hp hn := (h'.tmp p n hp (h.owner n hn)).trans (h.tmp p n hp hn)
  visible := P.rely_trans i h.visible h'.visible

theorem Does.refl (w : World) : P.Does i pid w w :=
  ⟨fun _ _ _ h => h, fun _ _ _ _ _ => rfl, P.guar_refl i _⟩

theorem Does.keeps (hij : i ≠ j) (hv : P.Valid w) (h : P.Does j pid' w w') :
    P.Keeps i pid w w' where
  owner n hn := h.owner pid n i hn
  tmp p n hp hn := h.tmp p pid n hp fun ⟨_, hj⟩ => by
    rw [h.owner pid n i hn] at hj
    exact hij (Option.some.inj hj)
  visible := P.compat i j _ _ hij hv.inv h.visible

theorem Valid.crash (hv : P.Valid w) (hu : ¬ P.undisturbed) (hc : World.crash pid w w') :
    P.Valid w' :=
  ⟨hv.numbered.crash hc, fun h => absurd h hu, by rw [World.visible_crash hc]; exact hv.inv⟩

theorem Keeps.crash (hp : pid ≠ pid') (hc : World.crash pid' w w') : P.Keeps i pid w w' where
  owner n hn := by rw [hc.owner]; exact (if_neg hp).trans hn
  tmp p n hname _ := hc.files p fun ⟨m, hm⟩ => hp (tmpName_inj (hname.symm.trans hm)).1
  visible := by rw [World.visible_crash hc]; exact P.rely_refl i _

/-- What a thread of the store promises. -/
abbrev Safe (P : Protocol) {α : Type} (i pid : Nat) (post : α → World → Prop) (p : Gateway α)
    (w : World) : Prop :=
  Interleave.Safe (P.sem i pid) P.Valid (P.Keeps i pid) (P.Does i pid) post p w

/-- The promises fit together. -/
def rules (P : Protocol) (spawn : Nat → Nat → Program Op Res ε → World → Prop)
    (post : Nat → Nat → ε → World → Prop)
    (fresh : ∀ i pid p w, spawn i pid p w → P.Valid w → P.Safe i pid (post i pid) p w) :
    Rules (P.system spawn) where
  valid := P.Valid
  rely := P.Keeps
  guar := P.Does
  post := post
  rely_refl _ _ := Keeps.refl
  rely_trans _ _ := Keeps.trans
  compat _ _ _ _ _ _ hij hv h := h.keeps hij hv
  fresh := fresh
  crash_valid _ _ _ hc hv := hv.crash hc.1 hc.2
  crash_rely _ _ _ _ _ hc ht _ := Keeps.crash ht hc.2

/-! ### What a step needs to show -/

variable {α : Type} {post : α → World → Prop}

/-- An operation that leaves the world alone. -/
theorem Safe.quiet {o : Op} {next : Res o → Gateway α} (ho : World.Quiet o)
    (h : ∀ w₁ r, P.Valid w₁ → P.Keeps i pid w w₁ → P.allowed i o w₁ →
      World.sem (P.faults i) i pid o w₁ r w₁ → P.Safe i pid post (next r) w₁) :
    P.Safe i pid post (.call o next) w := by
  intro w₁ r w₂ hv hk hs
  obtain ⟨ha, hs⟩ := hs
  obtain rfl := World.sem_quiet ho hs
  exact ⟨hv, Does.refl _, h _ r hv hk ha hs⟩

theorem Safe.ret {a : α} (h : ∀ w', P.Valid w' → P.Keeps i pid w w' → post a w') :
    P.Safe i pid post (.ret a) w := h

/-- Changing an own temp file is invisible. -/
theorem tmp_step {p : Path} {n : Nat} {c : Option ByteArray} (hp : p.name = tmpName pid n)
    (hn : w.owner pid n = some i) (hv : P.Valid w) :
    P.Valid (w.set p c) ∧ P.Does i pid w (w.set p c) := by
  have htmp : p.IsTmp := ⟨pid, n, hp⟩
  have hvis := World.visible_set_tmp (w := w) (c := c) htmp
  refine ⟨⟨hv.numbered.set p c, ?_, by rw [hvis]; exact hv.inv⟩, ?_, ?_, ?_⟩
  · intro hu p' q m hp' hm
    have hne : p' ≠ p := by
      rintro rfl
      obtain ⟨rfl, rfl⟩ := tmpName_inj (hp'.symm.trans hp)
      have hnone := hv.numbered q m hm
      rw [hn] at hnone
      cases hnone
    rw [World.set_files_ne w c hne]
    exact hv.fresh hu p' q m hp' hm
  · exact fun _ _ _ h => h
  · intro q u m hq hu
    refine World.set_files_ne w c ?_
    rintro rfl
    obtain ⟨rfl, rfl⟩ := tmpName_inj (hq.symm.trans hp)
    exact hu ⟨rfl, hn⟩
  · rw [hvis]
    exact P.guar_refl i _

/-! ### `write_atomic` -/

/-- Publishing `bytes` at `path` is allowed, whatever has become of the files
`V` since. -/
def CanPublish (P : Protocol) (i : Nat) (path : Path) (bytes : ByteArray) (V : Files) : Prop :=
  ∀ w tmp, P.Valid w → P.rely i V w.visible → w.files tmp = some bytes →
    P.allowed i (.rename tmp path) w →
    P.inv (Function.update w.visible path (some bytes)) ∧
      P.guar i w.visible (Function.update w.visible path (some bytes))

/-- Why a write failed: a fault, or, where processes crash, a file left under
the temp name. -/
def Cause (P : Protocol) (i pid : Nat) (path : Path) : Prop :=
  P.faults i ∨ ¬ P.undisturbed ∧ ∃ w n, P.allowed i (.createNew ⟨path.parent, tmpName pid n⟩) w ∧
    (w.files ⟨path.parent, tmpName pid n⟩).isSome

/-- What `write_atomic` has done when it returns: on success the content was
published, and an error has a cause. -/
structure Wrote (P : Protocol) (i pid : Nat) (path : Path) (bytes : ByteArray)
    {ε : Type} (a : Except ε Unit) (w : World) : Prop where
  published : a = .ok () → ∃ V, P.inv V ∧ V path = some bytes ∧ P.rely i V w.visible
  failed : ∀ e, a = .error e → P.Cause i pid path

theorem Wrote.of_cause {path : Path} {bytes : ByteArray} {ε : Type} {e : ε}
    (h : P.Cause i pid path) : P.Wrote i pid path bytes (.error e : Except ε Unit) w :=
  ⟨fun h' => by (cases h'), fun _ _ => h⟩

section Steps

variable {path : Path} {bytes : ByteArray} {n : Nat} {V : Files}

/-- Thread `i` owns the number `n`, its temp file holds `content`, and the
visible files come from `V`. -/
structure Holding (P : Protocol) (i pid n : Nat) (path : Path) (content : ByteArray) (V : Files)
    (w : World) : Prop where
  owner : w.owner pid n = some i
  file : w.files ⟨path.parent, tmpName pid n⟩ = some content
  rely : P.rely i V w.visible

theorem Holding.keeps (h : P.Holding i pid n path bytes V w) (hk : P.Keeps i pid w w') :
    P.Holding i pid n path bytes V w' where
  owner := hk.owner n h.owner
  file := (hk.tmp _ n rfl h.owner).trans h.file
  rely := P.rely_trans i h.rely hk.visible

/-- Filling the temp file. -/
theorem Holding.set (hn : w.owner pid n = some i) (hr : P.rely i V w.visible) :
    P.Holding i pid n path bytes V (w.set ⟨path.parent, tmpName pid n⟩ (some bytes)) where
  owner := hn
  file := World.set_files_self _ _ _
  rely := by
    rw [World.visible_set_tmp ⟨pid, n, rfl⟩]
    exact hr

/-- Between the steps of a write: the temp file is as it should be, or the
write has failed for a cause. -/
def Midway (P : Protocol) (i pid n : Nat) (path : Path) (content : ByteArray) (V : Files)
    (a : Except IoError Unit) (w : World) : Prop :=
  match a with
  | .ok () => P.Holding i pid n path content V w
  | .error _ => w.owner pid n = some i ∧ P.Cause i pid path

theorem safe_createNew (hn : w.owner pid n = some i) (hr : P.rely i V w.visible)
    (hfree : P.undisturbed → w.files ⟨path.parent, tmpName pid n⟩ = none) :
    P.Safe i pid (P.Midway i pid n path ByteArray.empty V)
      (Fs.createNew ⟨path.parent, tmpName pid n⟩) w := by
  intro w₁ r w₂ hv₁ hk₁ ⟨ha₁, hs₁⟩
  have hn₁ := hk₁.owner n hn
  rcases World.sem_createNew hs₁ with ⟨e, rfl, rfl, hcause⟩ | ⟨rfl, rfl⟩
  · refine ⟨hv₁, Does.refl _, Safe.ret ?_⟩
    refine fun w' _ hk' => ⟨hk'.owner n hn₁, hcause.imp_right fun h => ⟨fun hu => ?_, _, n, ha₁, h⟩⟩
    rw [hk₁.tmp _ n rfl hn, hfree hu] at h
    cases h
  · obtain ⟨hv₂, hd₂⟩ := tmp_step (c := some ByteArray.empty)
      (p := ⟨path.parent, tmpName pid n⟩) rfl hn₁ hv₁
    refine ⟨hv₂, hd₂, Safe.ret ?_⟩
    exact fun w' _ hk' => (Holding.set hn₁ (P.rely_trans i hr hk₁.visible)).keeps hk'

theorem safe_writeAll {content : ByteArray} (h : P.Holding i pid n path content V w) :
    P.Safe i pid (P.Midway i pid n path bytes V)
      (Fs.writeAll ⟨path.parent, tmpName pid n⟩ bytes) w := by
  intro w₁ r w₂ hv₁ hk₁ ⟨_, hs₁⟩
  have h₁ := h.keeps hk₁
  rcases World.sem_writeAll hs₁ with ⟨e, c, rfl, hfault, rfl⟩ | ⟨rfl, rfl⟩
  · obtain ⟨hv₂, hd₂⟩ := tmp_step (c := c) (p := ⟨path.parent, tmpName pid n⟩) rfl h₁.owner hv₁
    refine ⟨hv₂, hd₂, Safe.ret ?_⟩
    exact fun w' _ hk' => ⟨hk'.owner n h₁.owner, Or.inl hfault⟩
  · rw [h₁.file, Option.map_some]
    obtain ⟨hv₂, hd₂⟩ := tmp_step (c := some bytes) (p := ⟨path.parent, tmpName pid n⟩) rfl
      h₁.owner hv₁
    refine ⟨hv₂, hd₂, Safe.ret ?_⟩
    exact fun w' _ hk' => (Holding.set h₁.owner h₁.rely).keeps hk'

theorem safe_syncAll (h : P.Holding i pid n path bytes V w) :
    P.Safe i pid (P.Midway i pid n path bytes V)
      (Fs.syncAll ⟨path.parent, tmpName pid n⟩) w := by
  refine Safe.quiet trivial ?_
  intro w₁ r _ hk₁ _ hs₁
  have h₁ := h.keeps hk₁
  rcases World.sem_syncAll hs₁ with rfl | ⟨hfault, e, rfl⟩
  · exact Safe.ret fun w' _ hk' => h₁.keeps hk'
  · exact Safe.ret fun w' _ hk' => ⟨hk'.owner n h₁.owner, Or.inl hfault⟩

/-- The rename publishes the content. -/
theorem safe_rename (hpath : ¬ path.IsTmp) (h : P.Holding i pid n path bytes V w)
    (hpub : P.CanPublish i path bytes V) :
    P.Safe i pid (fun a w' => w'.owner pid n = some i ∧ P.Wrote i pid path bytes a w')
      (Fs.rename ⟨path.parent, tmpName pid n⟩ path) w := by
  intro w₁ r w₂ hv₁ hk₁ ⟨ha₁, hs₁⟩
  have h₁ := h.keeps hk₁
  rcases World.sem_rename hs₁ with ⟨e, rfl, rfl, hcause⟩ | ⟨content, rfl, hcontent, rfl⟩
  · have hfault := hcause.resolve_right fun hnone => by rw [h₁.file] at hnone; cases hnone
    refine ⟨hv₁, Does.refl _, Safe.ret ?_⟩
    exact fun w' _ hk' => ⟨hk'.owner n h₁.owner, Wrote.of_cause (Or.inl hfault)⟩
  obtain rfl : bytes = content := Option.some.inj (h₁.file.symm.trans hcontent)
  obtain ⟨hinv, hguar⟩ := hpub w₁ _ hv₁ h₁.rely h₁.file ha₁
  have hvis : ((w₁.set ⟨path.parent, tmpName pid n⟩ none).set path (some bytes)).visible =
      Function.update w₁.visible path (some bytes) := by
    rw [World.visible_set hpath, World.visible_set_tmp ⟨pid, n, rfl⟩]
  refine ⟨⟨hv₁.numbered, ?_, by rw [hvis]; exact hinv⟩, ⟨fun _ _ _ h => h, ?_, ?_⟩, Safe.ret ?_⟩
  · intro hu p u m hp hm
    have hpp : p ≠ path := fun h => hpath ⟨u, m, h ▸ hp⟩
    rw [World.set_files_ne _ _ hpp]
    by_cases hpt : p = ⟨path.parent, tmpName pid n⟩
    · rw [hpt, World.set_files_self]
    · rw [World.set_files_ne _ _ hpt]
      exact hv₁.fresh hu p u m hp hm
  · intro p u m hp hu
    have hpp : p ≠ path := fun h => hpath ⟨u, m, h ▸ hp⟩
    have hpt : p ≠ ⟨path.parent, tmpName pid n⟩ := by
      rintro rfl
      obtain ⟨rfl, rfl⟩ := tmpName_inj hp.symm
      exact hu ⟨rfl, h₁.owner⟩
    rw [World.set_files_ne _ _ hpp, World.set_files_ne _ _ hpt]
  · rw [hvis]
    exact hguar
  · intro w' _ hk'
    refine ⟨hk'.owner n h₁.owner, fun _ => ?_, fun e h => by (cases h)⟩
    refine ⟨_, hinv, Function.update_self _ _ _, ?_⟩
    rw [← hvis]
    exact hk'.visible

theorem safe_writeSteps (hpath : ¬ path.IsTmp) (hv : P.Valid w) (hn : w.owner pid n = some i)
    (hfree : P.undisturbed → w.files ⟨path.parent, tmpName pid n⟩ = none)
    (hpub : P.CanPublish i path bytes w.visible) :
    P.Safe i pid (fun a w' => w'.owner pid n = some i ∧ P.Wrote i pid path bytes a w')
      (writeSteps ⟨path.parent, tmpName pid n⟩ path bytes) w := by
  have hfail : ∀ (content : ByteArray) (e : IoError) w', P.Valid w' →
      P.Midway i pid n path content w.visible (.error e) w' →
      P.Safe i pid (fun a w' => w'.owner pid n = some i ∧ P.Wrote i pid path bytes a w')
        (.ret (.error e)) w' := fun _ _ _ _ hm =>
    Safe.ret fun _ _ hk => ⟨hk.owner n hm.1, Wrote.of_cause hm.2⟩
  refine Safe.andThen Keeps.refl hv (safe_createNew hn (P.rely_refl i _) hfree) ?_ (hfail _)
  intro _ w₁ hv₁ h₁
  refine Safe.andThen Keeps.refl hv₁ (safe_writeAll h₁) ?_ (hfail _)
  intro _ w₂ hv₂ h₂
  refine Safe.andThen Keeps.refl hv₂ (safe_syncAll h₂) ?_ (hfail _)
  intro _ w₃ _ h₃
  exact safe_rename hpath h₃ hpub

end Steps

/-- **`write_atomic` shows nothing but the rename**, and on success the whole
content was published.  Its errors are I/O errors. -/
theorem safe_writeAtomic {path : Path} {bytes : ByteArray} (hpath : ¬ path.IsTmp)
    (hpub : P.CanPublish i path bytes w.visible) :
    P.Safe i pid
      (fun a w' => P.Wrote i pid path bytes a w' ∧ ∀ e, a = .error e → ∃ io, e = .io io)
      (writeAtomic path bytes) w := by
  refine Safe.quiet trivial ?_
  intro w₁ r hv₁ hk₁ _ hs₁
  obtain rfl := World.sem_processId hs₁
  intro w₂ m w₃ hv₂ hk₂ ⟨_, hs₂⟩
  obtain ⟨rfl, rfl⟩ := World.sem_fetchAdd hs₂
  have hfree := hv₂.numbered r (w₂.counter r) le_rfl
  have hown : (w₂.draw i r).owner r (w₂.counter r) = some i := if_pos ⟨rfl, rfl⟩
  have hrely : P.rely i w.visible (w₂.draw i r).visible :=
    P.rely_trans i hk₁.visible hk₂.visible
  have hv₃ : P.Valid (w₂.draw i r) :=
    ⟨hv₂.numbered.draw i r, fun hu => (hv₂.fresh hu).draw i r, hv₂.inv⟩
  have hfree₃ : P.undisturbed →
      (w₂.draw i r).files ⟨path.parent, tmpName r (w₂.counter r)⟩ = none := fun hu =>
    hv₂.fresh hu _ r _ rfl le_rfl
  refine ⟨hv₃, ⟨?_, fun _ _ _ _ _ => rfl, P.guar_refl i _⟩, ?_⟩
  · intro q n j hj
    simp only [World.draw]
    split_ifs with hq
    · rw [hq.1, hq.2, hfree] at hj
      cases hj
    · exact hj
  have hpub₃ : P.CanPublish i path bytes (w₂.draw i r).visible := fun w' tmp hv hr =>
    hpub w' tmp hv (P.rely_trans i hrely hr)
  change P.Safe i r _ (writeSteps _ path bytes >>= _) _
  refine Interleave.Safe.bind Keeps.refl hv₃ (safe_writeSteps hpath hv₃ hown hfree₃ hpub₃) ?_
  rintro (e | u) w₄ hv₄ ⟨hn₄, hw₄⟩
  · -- the temp file is removed
    intro w₅ x w₆ hv₅ hk₅ ⟨_, hs₅⟩
    have hpost : ∀ w', P.Wrote i r path bytes (.error (.io e) : Except StoreError Unit) w' ∧
        ∀ e', (.error (.io e) : Except StoreError Unit) = .error e' → ∃ io, e' = .io io :=
      fun _ => ⟨Wrote.of_cause (hw₄.failed e rfl), fun e' h => ⟨e, (Except.error.inj h).symm⟩⟩
    rcases World.sem_removeFile hs₅ with rfl | rfl
    · exact ⟨hv₅, Does.refl _, Safe.ret fun w' _ _ => hpost w'⟩
    · obtain ⟨hv₆, hd₆⟩ := tmp_step (c := none) (p := ⟨path.parent, tmpName r (w₂.counter r)⟩)
        rfl (hk₅.owner _ hn₄) hv₅
      exact ⟨hv₆, hd₆, Safe.ret fun w' _ _ => hpost w'⟩
  · refine Safe.ret ?_
    intro w' _ hk'
    refine ⟨⟨fun _ => ?_, fun e h => by (cases h)⟩, fun e h => by (cases h)⟩
    obtain ⟨V, hi, hp, hr⟩ := hw₄.published rfl
    exact ⟨V, hi, hp, P.rely_trans i hr hk'.visible⟩

/-! ### Puts and gets -/

section Calls

variable {path : Path} {bytes : ByteArray} {V₀ : Files} {refusal : StoreError}

/-- What a put has done when it returns.  `V₀` are the visible files it
started from, `refusal` is its error for a key that is taken. -/
structure Put (P : Protocol) (i pid : Nat) (path : Path) (bytes : ByteArray) (V₀ : Files)
    (refusal : StoreError) (a : Except StoreError Unit) (w : World) : Prop where
  stored : a = .ok () → ∃ V, P.inv V ∧ V path = some bytes ∧ P.rely i V w.visible
  refused : a = .error refusal → ∃ V c, P.inv V ∧ P.rely i V₀ V ∧ V path = some c ∧
    P.rely i V w.visible
  failed : ∀ e, a = .error e → e = refusal ∨ P.Cause i pid path ∧ ∃ io, e = .io io

/-- What a put may write is what it may write later on. -/
theorem CanPublish.later {V V' : Files} (h : P.CanPublish i path bytes V) (hr : P.rely i V V') :
    P.CanPublish i path bytes V' :=
  fun w tmp hv hr' => h w tmp hv (P.rely_trans i hr hr')

/-- A put that has come to `write_atomic`. -/
theorem safe_put_write (hpath : ¬ path.IsTmp) (hpub : P.CanPublish i path bytes w.visible)
    (hrefusal : ∀ io, refusal ≠ .io io) :
    P.Safe i pid (P.Put i pid path bytes V₀ refusal) (writeAtomic path bytes) w := by
  refine Interleave.Safe.weaken (safe_writeAtomic hpath hpub) ?_
  rintro a w' - ⟨hw, hio⟩
  refine ⟨hw.published, fun h => ?_, fun e h => Or.inr ⟨hw.failed e h, hio e h⟩⟩
  obtain ⟨io, hio⟩ := hio _ h
  exact absurd hio (hrefusal io)

/-- A put that failed for a cause. -/
theorem safe_put_failed {e : IoError} (he : .io e ≠ refusal) (hc : P.Cause i pid path) :
    P.Safe i pid (P.Put i pid path bytes V₀ refusal) (.ret (.error (.io e))) w :=
  Safe.ret fun _ _ _ => ⟨fun h => by (cases h), fun h => absurd (Except.error.inj h) he,
    fun _ h => Or.inr ⟨hc, e, (Except.error.inj h).symm⟩⟩

/-- A put that was refused on what it found. -/
theorem safe_put_refused {c : ByteArray} (hv : P.Valid w) (hr : P.rely i V₀ w.visible)
    (hc : w.visible path = some c) :
    P.Safe i pid (P.Put i pid path bytes V₀ refusal) (.ret (.error refusal)) w :=
  Safe.ret fun _ _ hk => ⟨fun h => by (cases h), fun _ => ⟨_, c, hv.inv, hr, hc, hk.visible⟩,
    fun _ h => Or.inl (Except.error.inj h).symm⟩

theorem safe_putContentAddressed {kind key content : String} (hpath : ¬ path.IsTmp)
    (hpub : P.CanPublish i path content.toUTF8 w.visible) :
    P.Safe i pid (P.Put i pid path content.toUTF8 w.visible (.conflict kind key))
      (putContentAddressed path kind key content) w := by
  refine Safe.quiet trivial ?_
  intro w₁ r hv₁ hk₁ _ hs₁
  have hpub₁ := hpub.later hk₁.visible
  rcases World.sem_read hs₁ with ⟨c, hc, rfl⟩ | ⟨-, rfl⟩ | ⟨hfault, e, he, rfl⟩
  · rw [← World.visible_of_not_tmp hpath] at hc
    change P.Safe i pid _ (if c = content.toUTF8 then _ else _) w₁
    split_ifs with heq
    · subst heq
      exact Safe.ret fun _ _ hk =>
        ⟨fun _ => ⟨_, hv₁.inv, hc, hk.visible⟩, fun h => by (cases h), fun _ h => by (cases h)⟩
    · exact safe_put_refused hv₁ hk₁.visible hc
  · exact safe_put_write hpath hpub₁ (fun io h => by (cases h))
  · change P.Safe i pid _ (if e.kind = .notFound then _ else _) w₁
    rw [if_neg (by rw [he]; simp)]
    exact safe_put_failed (by simp) (Or.inl hfault)

theorem safe_putTrace {store : TraceStore} {deps : Deps} {t : Trace}
    (hkey : keyPath store.traces t.header.traceId "json" = .ok path)
    (hpub : P.CanPublish i path (t.toVec deps) w.visible) :
    P.Safe i pid (P.Put i pid path (t.toVec deps) w.visible (.traceExists t.header.traceId))
      (store.putTrace deps t) w := by
  have hpath := not_isTmp_of_keyPath hkey
  simp only [TraceStore.putTrace, hkey]
  refine Safe.quiet trivial ?_
  intro w₁ r hv₁ hk₁ _ hs₁
  cases r with
  | true =>
    rcases World.sem_pathExists hs₁ with h | ⟨-, h⟩
    · obtain ⟨c, hc⟩ := Option.isSome_iff_exists.mp h.symm
      rw [← World.visible_of_not_tmp hpath] at hc
      exact safe_put_refused hv₁ hk₁.visible hc
    · cases h
  | false => exact safe_put_write hpath (hpub.later hk₁.visible) (fun io h => by (cases h))

/-- What a read answers: what was there at some moment since it began, unless
a fault struck. -/
structure Got (P : Protocol) (i : Nat) (path : Path) (V₀ : Files)
    (r : Except IoError ByteArray) (w : World) : Prop where
  seen : P.faults i ∨ ∃ V, P.inv V ∧ P.rely i V₀ V ∧ P.rely i V w.visible ∧
    r = (V path).elim (.error World.notFound) .ok

theorem safe_read (hpath : ¬ path.IsTmp) :
    P.Safe i pid (P.Got i path w.visible) (Fs.read path) w := by
  refine Safe.quiet trivial ?_
  intro w₁ r hv₁ hk₁ _ hs₁
  refine Safe.ret fun w' _ hk' => ⟨?_⟩
  rcases World.sem_read hs₁ with ⟨c, hc, rfl⟩ | ⟨hnone, rfl⟩ | ⟨hfault, -⟩
  · refine Or.inr ⟨_, hv₁.inv, hk₁.visible, hk'.visible, ?_⟩
    rw [World.visible_of_not_tmp hpath, hc]
    rfl
  · refine Or.inr ⟨_, hv₁.inv, hk₁.visible, hk'.visible, ?_⟩
    rw [World.visible_of_not_tmp hpath, hnone]
    rfl
  · exact Or.inl hfault

end Calls

end Protocol

end ProvenoGateway
