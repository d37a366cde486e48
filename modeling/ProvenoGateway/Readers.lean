/-
ProvenoGateway/Readers.lean

What readers of the store can see while others write, fail and crash.

Three results about any number of callers, interleaved at will.

* Reads are whole.  The visible files hold nothing but what a put supplied for
  that file (`Supplied`), with faults at any step and crashes at any point: this
  is one more `Protocol`, and a get returns what one read of it found.
* A failed put shows nothing.  The only operation of a put that touches a
  visible file is its rename, and a rename that went through is the last thing
  a put does (`Guarded`): it returns with success at once.
* Nothing is left behind.  Where no process crashes and the removal of a temp
  file meets no fault, every temp file belongs to a put that is still under way
  (`Leaves`), so none is left when the last put has returned.
-/
import ProvenoGateway.AppendOnly

namespace ProvenoGateway

open Program Interleave

/-! ### Reads are whole -/

section Whole

variable (deps : Deps) (store : TraceStore) (puts : Set StoreCall)

/-- Every file holds the whole content of a put for that file. -/
def Supplied (V : Files) : Prop :=
  ∀ p bytes, V p = some bytes → ∃ put ∈ puts, put.path store = .ok p ∧ put.content deps = some bytes

/-- The answer of a get: its key is invalid, or its read failed (there was no
entry, or a fault struck), or it read the whole content of a put for its key. -/
def SeesWhole (get : StoreCall) (a : StoreAnswer) : Prop :=
  (∃ e, get.path store = .error e) ∨ (∃ e, a = get.reading deps (.error e)) ∨
    ∃ put ∈ puts, ∃ bytes, put.path store = get.path store ∧ put.content deps = some bytes ∧
      a = get.reading deps (.ok bytes)

/-- Faults at any step of any thread, crashes at any point. -/
abbrev anything : Setting := .crashing (fun _ => True) fun _ _ _ => True

/-- The callers that make calls of `puts`, and gets. -/
abbrev wholeCallers : System Op Res World Nat (StoreCall × StoreAnswer) :=
  callers anything deps store fun _ c _ => c.content deps ≠ none → c ∈ puts

/-- The visible files stay supplied; the threads need no more of each other. -/
def supplied : Protocol where
  toSetting := anything
  inv := Supplied deps store puts
  rely _ _ _ := True
  guar _ _ _ := True
  rely_refl _ _ := trivial
  rely_trans _ := fun _ _ => trivial
  guar_refl _ _ := trivial
  compat _ _ _ _ _ _ _ := trivial

variable {deps store puts} {i pid : Nat} {w : World} {c : StoreCall} {p : Path}
  {bytes : ByteArray}

/-- A put of `puts` may publish its content, whatever is there. -/
theorem supplied_canPublish (hmem : c ∈ puts) (hp : c.path store = .ok p)
    (hc : c.content deps = some bytes) (V : Files) :
    (supplied deps store puts).CanPublish i p bytes V := by
  intro w tmp hv _ _ _
  refine ⟨?_, trivial⟩
  intro q content hq
  by_cases hqp : q = p
  · subst hqp
    rw [Function.update_self] at hq
    cases hq
    exact ⟨c, hmem, hp, hc⟩
  · rw [Function.update_of_ne hqp] at hq
    exact hv.inv q content hq

/-- A get returns what its one read found, and that is supplied. -/
theorem safe_sees (hc : c.content deps = none) (hp : c.path store = .ok p) :
    (supplied deps store puts).Safe i pid
      (fun a _ => a.1.content deps = none → SeesWhole deps store puts a.1 a.2)
      (c.thread deps store) w := by
  rw [StoreCall.thread_get hc hp]
  apply Protocol.Safe.quiet (o := .read p) trivial
  intro w₁ r hv₁ _ _ hs₁
  apply Protocol.Safe.ret
  intro w' _ _ _
  rcases World.sem_read hs₁ with ⟨content, hcontent, rfl⟩ | ⟨-, rfl⟩ | ⟨-, e, -, rfl⟩
  · rw [← World.visible_of_not_tmp (not_isTmp_of_path hp)] at hcontent
    obtain ⟨put, hmem, hpath, hput⟩ := hv₁.inv p content hcontent
    exact Or.inr (Or.inr ⟨put, hmem, content, hpath.trans hp.symm, hput, rfl⟩)
  · exact Or.inr (Or.inl ⟨_, rfl⟩)
  · exact Or.inr (Or.inl ⟨e, rfl⟩)

/-- Every caller keeps the files supplied, and a get sees whole contents. -/
theorem safe_whole (hmem : c.content deps ≠ none → c ∈ puts)
    (hv : (supplied deps store puts).Valid w) :
    (supplied deps store puts).Safe i pid
      (fun a _ => a.1.content deps = none → SeesWhole deps store puts a.1 a.2)
      (c.thread deps store) w := by
  cases hp : c.path store with
  | error e =>
    obtain ⟨a, hthread, -⟩ := StoreCall.thread_invalid deps hp
    rw [hthread]
    exact Protocol.Safe.ret fun _ _ _ _ => Or.inl ⟨e, hp⟩
  | ok p =>
    cases hc : c.content deps with
    | none => exact safe_sees hc hp
    | some bytes =>
      have hput := hmem (by rw [hc]; exact Option.some_ne_none bytes)
      apply Interleave.Safe.weaken
        (StoreCall.safe_put hv hc hp (supplied_canPublish hput hp hc w.visible))
      rintro a w' _ ⟨hcall, -⟩ hget
      rw [hcall, hc] at hget
      cases hget

def wholeRules (deps : Deps) (store : TraceStore) (puts : Set StoreCall) :
    Rules (wholeCallers deps store puts) :=
  (supplied deps store puts).rules _
    (fun _ _ a _ => a.1.content deps = none → SeesWhole deps store puts a.1 a.2) (by
      rintro i pid _ w ⟨c, hadmits, rfl⟩ hv
      exact safe_whole hadmits hv)

theorem wholeRules_holds (hw : w.Numbered) (hfiles : Supplied deps store puts w.visible)
    {x : CallerPool × World} (h : Steps (wholeCallers deps store puts) (Pool.empty, w) x) :
    (wholeRules deps store puts).Holds x :=
  Rules.Holds.steps (.init ⟨hw, fun hu => hu.elim, hfiles⟩) h

end Whole

/-! ### A failed put shows nothing -/

/-- An operation of a caller, with what it goes on to: it touches no file but
a temp file, or it is a rename after which a put returns with success. -/
def Guarded : (o : Op) → (Res o → Gateway (StoreCall × StoreAnswer)) → Prop
  | .createNew p, _ => p.IsTmp
  | .writeAll p _, _ => p.IsTmp
  | .removeFile p, _ => p.IsTmp
  | .rename p _, next => p.IsTmp ∧ ∃ c, next (.ok ()) = ret (c, .put (.ok ()))
  | _, _ => True

section Guarded

variable {deps : Deps} {store : TraceStore} {faults : Prop} {i pid : Nat} {w w' : World} {o : Op}

/-- What changes a visible file is a rename, and the put is over. -/
theorem Guarded.visible {next : Res o → Gateway (StoreCall × StoreAnswer)} (h : Guarded o next)
    {r : Res o} (hs : World.sem faults i pid o w r w') (hne : w'.visible ≠ w.visible) :
    ∃ c, next r = ret (c, .put (.ok ())) := by
  cases o with
  | createNew p =>
    rcases World.sem_createNew hs with ⟨_, _, rfl, _⟩ | ⟨_, rfl⟩
    · exact absurd rfl hne
    · exact absurd (World.visible_set_tmp h) hne
  | writeAll p bytes =>
    rcases World.sem_writeAll hs with ⟨_, _, _, _, rfl⟩ | ⟨_, rfl⟩
    · exact absurd (World.visible_set_tmp h) hne
    · exact absurd (World.visible_set_tmp h) hne
  | removeFile p =>
    rcases World.sem_removeFile hs with rfl | rfl
    · exact absurd rfl hne
    · exact absurd (World.visible_set_tmp h) hne
  | rename p q =>
    rcases World.sem_rename hs with ⟨_, _, rfl, _⟩ | ⟨_, rfl, _, _⟩
    · exact absurd rfl hne
    · exact h.2
  | fetchAdd =>
    obtain ⟨-, rfl⟩ := World.sem_fetchAdd hs
    exact absurd rfl hne
  | _ => exact absurd (congrArg World.visible (World.sem_quiet (by exact trivial) hs)) hne

/-- A write, and what is made of its result. -/
theorem guarded_writeAtomic {path : Path} {bytes : ByteArray}
    {k : Except StoreError Unit → Gateway (StoreCall × StoreAnswer)}
    (hok : ∃ c, k (.ok ()) = ret (c, .put (.ok ()))) (herror : ∀ e, (k (.error e)).Always Guarded) :
    (writeAtomic path bytes >>= k).Always Guarded := by
  obtain ⟨c, hc⟩ := hok
  -- after each failed step the temp file is removed
  have hfail : ∀ (pid n : Nat) (e : IoError),
      (Program.call (.removeFile ⟨path.parent, tmpName pid n⟩) fun _ =>
        k (.error (.io e))).Always Guarded :=
    fun pid n e => ⟨⟨pid, n, rfl⟩, fun _ => herror _⟩
  refine ⟨trivial, fun pid => ⟨trivial, fun n => ?_⟩⟩
  refine ⟨⟨pid, n, rfl⟩, ?_⟩
  rintro (e | u)
  · exact hfail pid n e
  refine ⟨⟨pid, n, rfl⟩, ?_⟩
  rintro (e | u)
  · exact hfail pid n e
  refine ⟨trivial, ?_⟩
  rintro (e | u)
  · exact hfail pid n e
  refine ⟨⟨⟨pid, n, rfl⟩, c, hc⟩, ?_⟩
  rintro (e | u)
  · exact hfail pid n e
  · show (k (.ok ())).Always Guarded
    rw [hc]
    trivial

theorem guarded_putContentAddressed {path : Path} {kind key content : String}
    {k : Except StoreError Unit → Gateway (StoreCall × StoreAnswer)}
    (hok : ∃ c, k (.ok ()) = ret (c, .put (.ok ()))) (herror : ∀ e, (k (.error e)).Always Guarded) :
    (putContentAddressed path kind key content >>= k).Always Guarded := by
  have hk : (k (.ok ())).Always Guarded := by
    obtain ⟨c, hc⟩ := hok
    rw [hc]
    trivial
  refine ⟨trivial, ?_⟩
  rintro (e | existing)
  · show ((if e.kind = .notFound then writeAtomic path content.toUTF8
      else ret (.error (.io e))) >>= k).Always Guarded
    split_ifs
    · exact guarded_writeAtomic hok herror
    · exact herror _
  · show ((if existing = content.toUTF8 then ret (.ok ())
      else ret (.error (.conflict kind key))) >>= k).Always Guarded
    split_ifs
    · exact hk
    · exact herror _

theorem thread_guarded (c : StoreCall) : (c.thread deps store).Always Guarded := by
  cases hp : c.path store with
  | error e =>
    obtain ⟨a, hthread, -⟩ := StoreCall.thread_invalid deps hp
    rw [hthread]
    trivial
  | ok p =>
    have hok : ∃ c', ret (c, StoreAnswer.put (.ok ())) =
      (ret (c', .put (.ok ())) : Gateway (StoreCall × StoreAnswer)) := ⟨c, rfl⟩
    cases c with
    | putTrace t =>
      have hp' : keyPath store.traces t.header.traceId "json" = .ok p := hp
      simp only [StoreCall.thread, StoreCall.run, TraceStore.putTrace, hp', bind_assoc, op_bind,
        call_bind, pure_eq]
      refine ⟨trivial, ?_⟩
      rintro (_ | _)
      · exact guarded_writeAtomic hok fun _ => trivial
      · trivial
    | putProgram h source =>
      have hp' : keyPath store.programs h "lua" = .ok p := hp
      simp only [StoreCall.thread, StoreCall.run, TraceStore.putProgram, hp', bind_assoc, pure_eq]
      exact guarded_putContentAddressed hok fun _ => trivial
    | putDescription h text =>
      have hp' : keyPath store.descriptions h "txt" = .ok p := hp
      simp only [StoreCall.thread, StoreCall.run, TraceStore.putDescription, hp', bind_assoc,
        pure_eq]
      exact guarded_putContentAddressed hok fun _ => trivial
    | getTrace id =>
      rw [StoreCall.thread_get rfl hp]
      exact ⟨trivial, fun _ => trivial⟩
    | getProgram h =>
      rw [StoreCall.thread_get rfl hp]
      exact ⟨trivial, fun _ => trivial⟩
    | getDescription h =>
      rw [StoreCall.thread_get rfl hp]
      exact ⟨trivial, fun _ => trivial⟩

/-- Whatever has happened, every thread is guarded. -/
theorem callers_guarded {C : Setting} {admits : Nat → StoreCall → World → Prop} {w : World}
    {x : CallerPool × World} (h : Steps (callers C deps store admits) (Pool.empty, w) x) :
    ∀ i th, x.1 i = some th → th.prog.Always Guarded := by
  refine Steps.threads (fun p => p.Always Guarded) ?_ (fun o next r hp => hp.2 r) h
  rintro i pid _ s ⟨c, -, rfl⟩
  exact thread_guarded c

end Guarded

/-! ### Nothing is left behind -/

/-- The operation that removes a temp file. -/
def Removal : Op → Prop
  | .removeFile _ => True
  | _ => False

/-- The callers of processes that do not crash: faults strike at any step but
the removal of a temp file. -/
def lasting (deps : Deps) (store : TraceStore) :
    System Op Res World Nat (StoreCall × StoreAnswer) where
  sem := fun i pid o => World.sem (¬ Removal o) i pid o
  spawn := fun _ _ p _ => ∃ c : StoreCall, p = c.thread deps store
  crash := fun _ _ _ => False

/-- Numbers have owners only once drawn, and a temp file has a number that is
owned. -/
structure World.Tended (w : World) : Prop where
  numbered : w.Numbered
  owned : ∀ p pid n, p.name = tmpName pid n → w.files p ≠ none → w.owner pid n ≠ none

/-- What thread `i` of process `pid` sees of the others: its numbers are its
own and its temp files are left alone. -/
structure Spares (i pid : Nat) (w w' : World) : Prop where
  owner : ∀ n, w'.owner pid n = some i ↔ w.owner pid n = some i
  tmp : ∀ p n, p.name = tmpName pid n → w.owner pid n = some i → w'.files p = w.files p

/-- What thread `i` of process `pid` does: the others keep their numbers and
their temp files. -/
structure Minds (i pid : Nat) (w w' : World) : Prop where
  owner : ∀ q n j, ¬ (j = i ∧ q = pid) → (w'.owner q n = some j ↔ w.owner q n = some j)
  tmp : ∀ p q n j, ¬ (j = i ∧ q = pid) → p.name = tmpName q n → w.owner q n = some j →
    w'.files p = w.files p

theorem Spares.refl (i pid : Nat) (w : World) : Spares i pid w w :=
  ⟨fun _ => Iff.rfl, fun _ _ _ _ => rfl⟩

theorem Spares.trans {i pid : Nat} {a b c : World} (h : Spares i pid a b) (h' : Spares i pid b c) :
    Spares i pid a c where
  owner n := (h'.owner n).trans (h.owner n)
  tmp p n hp hn := (h'.tmp p n hp ((h.owner n).mpr hn)).trans (h.tmp p n hp hn)

theorem Minds.refl (i pid : Nat) (w : World) : Minds i pid w w :=
  ⟨fun _ _ _ _ => Iff.rfl, fun _ _ _ _ _ _ _ => rfl⟩

theorem Minds.spares {i j pid pid' : Nat} {w w' : World} (hij : i ≠ j) (h : Minds j pid' w w') :
    Spares i pid w w' where
  owner n := h.owner pid n i fun hi => hij hi.1
  tmp p n hp hn := h.tmp p pid n i (fun hi => hij hi.1) hp hn

/-- Of the temp files of thread `i`, none is there but perhaps `tmp`. -/
def Leaves (i pid : Nat) (tmp : Option Path) (w : World) : Prop :=
  ∀ p n, p.name = tmpName pid n → w.owner pid n = some i → w.files p ≠ none → some p = tmp

/-- What a thread promises about its temp files. -/
abbrev Tidy {α : Type} (i pid : Nat) (post : α → World → Prop) (p : Gateway α) (w : World) : Prop :=
  Interleave.Safe (fun o => World.sem (¬ Removal o) i pid o) World.Tended (Spares i pid)
    (Minds i pid) post p w

section Tidy

variable {α : Type} {i pid n : Nat} {w w' : World} {tmp : Option Path} {path : Path}
  {bytes : ByteArray} {post : α → World → Prop}

theorem Leaves.spares (h : Leaves i pid tmp w) (hs : Spares i pid w w') :
    Leaves i pid tmp w' := by
  intro p n hp hn hfile
  have hn' := (hs.owner n).mp hn
  rw [hs.tmp p n hp hn'] at hfile
  exact h p n hp hn' hfile

theorem Leaves.weaken (h : Leaves i pid none w) : Leaves i pid tmp w := by
  intro p n hp hn hfile
  cases h p n hp hn hfile

theorem Tidy.ret {a : α} (h : ∀ w', Spares i pid w w' → post a w') : Tidy i pid post (.ret a) w :=
  fun w' _ hs => h w' hs

theorem Tidy.quiet {o : Op} {next : Res o → Gateway α} (ho : World.Quiet o)
    (h : ∀ w₁ r, World.Tended w₁ → Spares i pid w w₁ → Tidy i pid post (next r) w₁) :
    Tidy i pid post (.call o next) w := by
  intro w₁ r w₂ hv hk hs
  obtain rfl := World.sem_quiet ho hs
  exact ⟨hv, Minds.refl i pid _, h _ r hv hk⟩

/-- A step on an own temp file. -/
theorem tended_set (path : Path) {c : Option ByteArray} (hv : w.Tended) (hn : w.owner pid n = some i) :
    (w.set ⟨path.parent, tmpName pid n⟩ c).Tended ∧
      Minds i pid w (w.set ⟨path.parent, tmpName pid n⟩ c) := by
  refine ⟨⟨hv.numbered.set _ c, ?_⟩, fun _ _ _ _ => Iff.rfl, ?_⟩
  · intro p q m hp hfile
    by_cases hpt : p = ⟨path.parent, tmpName pid n⟩
    · subst hpt
      obtain ⟨rfl, rfl⟩ := tmpName_inj hp
      show w.owner pid n ≠ none
      rw [hn]
      exact Option.some_ne_none i
    · rw [World.set_files_ne w c hpt] at hfile
      exact hv.owned p q m hp hfile
  · intro p q m j hj hp hm
    apply World.set_files_ne
    rintro rfl
    obtain ⟨rfl, rfl⟩ := tmpName_inj hp
    rw [hn] at hm
    exact hj ⟨(Option.some.inj hm).symm, rfl⟩

/-- With the file changed, nothing else of the thread's is there. -/
theorem Leaves.set {c : Option ByteArray}
    (h : Leaves i pid (some ⟨path.parent, tmpName pid n⟩) w) :
    Leaves i pid (some ⟨path.parent, tmpName pid n⟩)
      (w.set ⟨path.parent, tmpName pid n⟩ c) := by
  intro p m hp hm hfile
  by_cases hpt : p = ⟨path.parent, tmpName pid n⟩
  · rw [hpt]
  · rw [World.set_files_ne w c hpt] at hfile
    exact h p m hp hm hfile

/-- With the file gone, nothing is there. -/
theorem Leaves.clear (h : Leaves i pid (some ⟨path.parent, tmpName pid n⟩) w) :
    Leaves i pid none (w.set ⟨path.parent, tmpName pid n⟩ none) := by
  intro p m hp hm hfile
  by_cases hpt : p = ⟨path.parent, tmpName pid n⟩
  · rw [hpt, World.set_files_self] at hfile
    exact absurd rfl hfile
  · rw [World.set_files_ne w none hpt] at hfile
    exact absurd (Option.some.inj (h p m hp hm hfile)) hpt

/-- The state of a write between its steps: the number is the thread's, and at
most its temp file is there. -/
structure Writing (i pid n : Nat) (path : Path) (w : World) : Prop where
  owner : w.owner pid n = some i
  leaves : Leaves i pid (some ⟨path.parent, tmpName pid n⟩) w

theorem Writing.spares (h : Writing i pid n path w) (hs : Spares i pid w w') :
    Writing i pid n path w' :=
  ⟨(hs.owner n).mpr h.owner, h.leaves.spares hs⟩

theorem Writing.set {c : Option ByteArray} (h : Writing i pid n path w) :
    Writing i pid n path (w.set ⟨path.parent, tmpName pid n⟩ c) :=
  ⟨h.owner, h.leaves.set⟩

theorem tidy_createNew (h : Writing i pid n path w) :
    Tidy i pid (fun _ => Writing i pid n path) (Fs.createNew ⟨path.parent, tmpName pid n⟩) w := by
  intro w₁ r w₂ hv hk hs
  have h₁ := h.spares hk
  rcases World.sem_createNew hs with ⟨_, _, rfl, _⟩ | ⟨_, rfl⟩
  · exact ⟨hv, Minds.refl i pid _, Tidy.ret fun w' hk' => h₁.spares hk'⟩
  · obtain ⟨hv₂, hm⟩ := tended_set path (c := some ByteArray.empty) hv h₁.owner
    exact ⟨hv₂, hm, Tidy.ret fun w' hk' => h₁.set.spares hk'⟩

theorem tidy_writeAll (h : Writing i pid n path w) :
    Tidy i pid (fun _ => Writing i pid n path)
      (Fs.writeAll ⟨path.parent, tmpName pid n⟩ bytes) w := by
  intro w₁ r w₂ hv hk hs
  have h₁ := h.spares hk
  have hset : ∃ c, w₂ = w₁.set ⟨path.parent, tmpName pid n⟩ c := by
    rcases World.sem_writeAll hs with ⟨_, c, _, _, hw⟩ | ⟨_, hw⟩
    · exact ⟨c, hw⟩
    · exact ⟨_, hw⟩
  obtain ⟨c, rfl⟩ := hset
  obtain ⟨hv₂, hm⟩ := tended_set path (c := c) hv h₁.owner
  exact ⟨hv₂, hm, Tidy.ret fun w' hk' => h₁.set.spares hk'⟩

theorem tidy_syncAll (h : Writing i pid n path w) :
    Tidy i pid (fun _ => Writing i pid n path)
      (Fs.syncAll ⟨path.parent, tmpName pid n⟩) w := by
  apply Tidy.quiet (o := .syncAll _) trivial
  intro w₁ r _ hk
  exact Tidy.ret fun w' hk' => (h.spares hk).spares hk'

/-- After the write: with success nothing is left, after an error at most the
temp file. -/
def Written (i pid n : Nat) (path : Path) (a : Except IoError Unit) (w : World) : Prop :=
  Writing i pid n path w ∧ (a = .ok () → Leaves i pid none w)

theorem tidy_rename (hpath : ¬ path.IsTmp) (h : Writing i pid n path w) :
    Tidy i pid (Written i pid n path) (Fs.rename ⟨path.parent, tmpName pid n⟩ path) w := by
  intro w₁ r w₂ hv hk hs
  have h₁ := h.spares hk
  rcases World.sem_rename hs with ⟨e, rfl, rfl, _⟩ | ⟨content, rfl, _, rfl⟩
  · refine ⟨hv, Minds.refl i pid _, Tidy.ret fun w' hk' => ⟨h₁.spares hk', ?_⟩⟩
    intro hok
    cases hok
  · obtain ⟨hv₂, hm⟩ := tended_set path (c := none) hv h₁.owner
    -- the target is no temp file
    have hne : ∀ p q m, p.name = tmpName q m → p ≠ path := by
      rintro p q m hp rfl
      exact hpath ⟨q, m, hp⟩
    have hfiles : ∀ p q m, p.name = tmpName q m →
        ((w₁.set ⟨path.parent, tmpName pid n⟩ none).set path (some content)).files p =
          (w₁.set ⟨path.parent, tmpName pid n⟩ none).files p :=
      fun p q m hp => World.set_files_ne _ _ (hne p q m hp)
    have hleaves : Leaves i pid none
        ((w₁.set ⟨path.parent, tmpName pid n⟩ none).set path (some content)) := by
      intro p m hp hm' hfile
      rw [hfiles p pid m hp] at hfile
      exact h₁.leaves.clear p m hp hm' hfile
    refine ⟨⟨hv₂.numbered.set path _, ?_⟩, ⟨hm.owner, ?_⟩, Tidy.ret fun w' hk' => ⟨?_, fun _ => ?_⟩⟩
    · intro p q m hp hfile
      rw [hfiles p q m hp] at hfile
      exact hv₂.owned p q m hp hfile
    · intro p q m j hj hp hm'
      rw [hfiles p q m hp]
      exact hm.tmp p q m j hj hp hm'
    · have hwriting : Writing i pid n path
          ((w₁.set ⟨path.parent, tmpName pid n⟩ none).set path (some content)) :=
        ⟨h₁.owner, hleaves.weaken⟩
      exact hwriting.spares hk'
    · exact hleaves.spares hk'

theorem tidy_writeSteps (hpath : ¬ path.IsTmp) (hv : w.Tended) (h : Writing i pid n path w) :
    Tidy i pid (Written i pid n path) (writeSteps ⟨path.parent, tmpName pid n⟩ path bytes) w := by
  have hfail : ∀ (e : IoError) w', World.Tended w' → Writing i pid n path w' →
      Tidy i pid (Written i pid n path) (.ret (.error e)) w' := by
    intro e w' _ h'
    apply Tidy.ret
    intro w'' hk
    exact ⟨h'.spares hk, fun hok => by (cases hok)⟩
  apply Safe.andThen (Spares.refl i pid) hv (tidy_createNew h) ?_ hfail
  intro _ w₁ hv₁ h₁
  apply Safe.andThen (Spares.refl i pid) hv₁ (tidy_writeAll h₁) ?_ hfail
  intro _ w₂ hv₂ h₂
  apply Safe.andThen (Spares.refl i pid) hv₂ (tidy_syncAll h₂) ?_ hfail
  intro _ w₃ _ h₃
  exact tidy_rename hpath h₃

/-- Drawing a number. -/
theorem tended_draw (path : Path) (hv : w.Tended) (h : Leaves i pid none w) :
    (w.draw i pid).Tended ∧ Minds i pid w (w.draw i pid) ∧
      Writing i pid (w.counter pid) path (w.draw i pid) := by
  have hfree : w.owner pid (w.counter pid) = none := hv.numbered pid _ le_rfl
  refine ⟨⟨hv.numbered.draw i pid, ?_⟩, ⟨?_, fun _ _ _ _ _ _ _ => rfl⟩, if_pos ⟨rfl, rfl⟩, ?_⟩
  · intro p q m hp hfile
    have howned := hv.owned p q m hp hfile
    show (if q = pid ∧ m = w.counter pid then some i else w.owner q m) ≠ none
    split_ifs
    · exact Option.some_ne_none i
    · exact howned
  · intro q m j hj
    show (if q = pid ∧ m = w.counter pid then some i else w.owner q m) = some j ↔ _
    split_ifs with hq
    · rw [hq.1, hq.2, hfree]
      constructor
      · intro hij
        exact absurd ⟨(Option.some.inj hij).symm, hq.1⟩ hj
      · intro hnone
        cases hnone
    · exact Iff.rfl
  · intro p m hp hm hfile
    have hm' : (if pid = pid ∧ m = w.counter pid then some i else w.owner pid m) = some i := hm
    split_ifs at hm' with hq
    · -- there is no file under a number not drawn before
      have howned := hv.owned p pid m hp hfile
      rw [hq.2] at howned
      exact absurd hfree howned
    · cases h p m hp hm' hfile

theorem sem_removal {p : Path} {r : Except IoError Unit}
    (h : World.sem (¬ Removal (.removeFile p)) i pid (.removeFile p) w r w') :
    w' = w.set p none ∨ w' = w ∧ w.files p = none := by
  obtain ⟨c, hf, h⟩ := h
  cases c with
  | fine =>
    simp only [World.step] at h
    split at h
    case isTrue =>
      cases h
      exact Or.inl rfl
    case isFalse hp =>
      cases h
      exact Or.inr ⟨rfl, by simpa using hp⟩
  | fault e m => exact absurd trivial (hf rfl)
  | uuid id => cases h
  | answer result => cases h

/-- **A write leaves no temp file**, whatever fault it meets. -/
theorem tidy_writeAtomic (hpath : ¬ path.IsTmp) (h : Leaves i pid none w) :
    Tidy i pid (fun _ => Leaves i pid none) (writeAtomic path bytes) w := by
  intro w₁ r w₂ hv₁ hk₁ hs₁
  obtain rfl := World.sem_quiet (o := .processId) trivial hs₁
  obtain rfl := World.sem_processId hs₁
  refine ⟨hv₁, Minds.refl i _ _, ?_⟩
  intro w₃ m w₄ hv₃ hk₃ hs₃
  obtain ⟨rfl, rfl⟩ := World.sem_fetchAdd hs₃
  obtain ⟨hv₄, hminds, hwriting⟩ := tended_draw path hv₃ ((h.spares hk₁).spares hk₃)
  refine ⟨hv₄, hminds, ?_⟩
  show Tidy i r _ (writeSteps _ path bytes >>= _) _
  apply Safe.bind (Spares.refl i r) hv₄ (tidy_writeSteps hpath hv₄ hwriting)
  rintro (e | u) w₅ hv₅ ⟨hw₅, hok⟩
  · -- the temp file is removed
    intro w₆ x w₇ hv₆ hk₆ hs₆
    have hw₆ := hw₅.spares hk₆
    rcases sem_removal hs₆ with rfl | ⟨rfl, hnone⟩
    · obtain ⟨hv₇, hm₇⟩ := tended_set path (c := none) hv₆ hw₆.owner
      exact ⟨hv₇, hm₇, Tidy.ret fun w' hk' => hw₆.leaves.clear.spares hk'⟩
    · refine ⟨hv₆, Minds.refl i r _, Tidy.ret fun w' hk' => ?_⟩
      have hclear : Leaves i r none w₇ := by
        intro p n hp hn hfile
        have hpt := Option.some.inj (hw₆.leaves p n hp hn hfile)
        rw [hpt, hnone] at hfile
        exact absurd rfl hfile
      exact hclear.spares hk'
  · exact Tidy.ret fun w' hk' => (hok rfl).spares hk'

theorem tidy_ret {a : α} (h : Leaves i pid none w) :
    Tidy i pid (fun _ => Leaves i pid none) (.ret a) w :=
  Tidy.ret fun _ hk => h.spares hk

theorem tidy_putContentAddressed {kind key content : String} (hpath : ¬ path.IsTmp)
    (h : Leaves i pid none w) :
    Tidy i pid (fun _ => Leaves i pid none) (putContentAddressed path kind key content) w := by
  apply Tidy.quiet (o := .read path) trivial
  intro w₁ r _ hk
  have h₁ := h.spares hk
  cases r with
  | error e =>
    show Tidy i pid _ (if e.kind = .notFound then _ else _) w₁
    split_ifs
    · exact tidy_writeAtomic hpath h₁
    · exact tidy_ret h₁
  | ok existing =>
    show Tidy i pid _ (if existing = content.toUTF8 then _ else _) w₁
    split_ifs
    · exact tidy_ret h₁
    · exact tidy_ret h₁

/-- A caller leaves no temp file. -/
theorem tidy_thread {deps : Deps} {store : TraceStore} (c : StoreCall) (hv : w.Tended)
    (h : Leaves i pid none w) :
    Tidy i pid (fun _ => Leaves i pid none) (c.thread deps store) w := by
  -- the thread is the put, and then its answer wrapped up
  have wrap : ∀ {put : Gateway (Except StoreError Unit)},
      Tidy i pid (fun _ => Leaves i pid none) put w →
      Tidy i pid (fun _ => Leaves i pid none)
        ((put >>= fun r => pure (StoreAnswer.put r)) >>= fun a => pure (c, a)) w := by
    intro put hput
    rw [Program.bind_assoc]
    apply Safe.bind (Spares.refl i pid) hv hput
    exact fun r w₁ _ h₁ => tidy_ret h₁
  cases hp : c.path store with
  | error e =>
    obtain ⟨a, hthread, -⟩ := StoreCall.thread_invalid deps hp
    rw [hthread]
    exact tidy_ret h
  | ok p =>
    have hpath := not_isTmp_of_path hp
    cases hc : c.content deps with
    | none =>
      rw [StoreCall.thread_get hc hp]
      apply Tidy.quiet (o := .read p) trivial
      exact fun w₁ r _ hk => tidy_ret (h.spares hk)
    | some bytes =>
      cases c with
      | putTrace t =>
        apply wrap
        have hp' : keyPath store.traces t.header.traceId "json" = .ok p := hp
        simp only [TraceStore.putTrace, hp']
        apply Tidy.quiet (o := .pathExists p) trivial
        intro w₁ r _ hk
        cases r with
        | true => exact tidy_ret (h.spares hk)
        | false => exact tidy_writeAtomic hpath (h.spares hk)
      | putProgram key source =>
        apply wrap
        have hp' : keyPath store.programs key "lua" = .ok p := hp
        simp only [TraceStore.putProgram, hp']
        exact tidy_putContentAddressed hpath h
      | putDescription key text =>
        apply wrap
        have hp' : keyPath store.descriptions key "txt" = .ok p := hp
        simp only [TraceStore.putDescription, hp']
        exact tidy_putContentAddressed hpath h
      | getTrace id => cases hc
      | getProgram key => cases hc
      | getDescription key => cases hc

end Tidy

/-! ### All callers together -/

section Lasting

variable {deps : Deps} {store : TraceStore} {w : World} {x : CallerPool × World}

/-- Only drawing a number changes an owner. -/
theorem sem_owner {faults : Prop} {i pid : Nat} {o : Op} {r : Res o} {w' : World}
    (h : World.sem faults i pid o w r w') {q n j : Nat} (hj : w'.owner q n = some j) :
    w.owner q n = some j ∨ j = i ∧ q = pid := by
  cases o with
  | createNew p =>
    rcases World.sem_createNew h with ⟨_, _, rfl, _⟩ | ⟨_, rfl⟩
    · exact Or.inl hj
    · exact Or.inl hj
  | writeAll p bytes =>
    rcases World.sem_writeAll h with ⟨_, _, _, _, rfl⟩ | ⟨_, rfl⟩
    · exact Or.inl hj
    · exact Or.inl hj
  | removeFile p =>
    rcases World.sem_removeFile h with rfl | rfl
    · exact Or.inl hj
    · exact Or.inl hj
  | rename p q =>
    rcases World.sem_rename h with ⟨_, _, rfl, _⟩ | ⟨_, _, _, rfl⟩
    · exact Or.inl hj
    · exact Or.inl hj
  | fetchAdd =>
    obtain ⟨-, rfl⟩ := World.sem_fetchAdd h
    have hj' : (if q = pid ∧ n = w.counter pid then some i else w.owner q n) = some j := hj
    split_ifs at hj' with hq
    · exact Or.inr ⟨(Option.some.inj hj').symm, hq.1⟩
    · exact Or.inl hj'
  | _ =>
    obtain rfl := World.sem_quiet (by exact trivial) h
    exact Or.inl hj

/-- `lasting`, with what is true of it anyway: a thread that starts has no
number yet. -/
def numbering (deps : Deps) (store : TraceStore) :
    System Op Res World Nat (StoreCall × StoreAnswer) where
  sem := (lasting deps store).sem
  spawn := fun i pid p w => (lasting deps store).spawn i pid p w ∧ ∀ q n, w.owner q n ≠ some i
  crash := (lasting deps store).crash

/-- The owner of a number is a thread of its process. -/
theorem lasting_numbering (hw : w.Clean) (h : Steps (lasting deps store) (Pool.empty, w) x) :
    Steps (numbering deps store) (Pool.empty, w) x ∧
      ∀ q n j, x.2.owner q n = some j → ∃ p, x.1 j = some ⟨q, p⟩ := by
  induction h with
  | refl =>
    refine ⟨Relation.ReflTransGen.refl, fun q n j hj => ?_⟩
    rw [hw.owner q n] at hj
    cases hj
  | tail _ hstep ih =>
    obtain ⟨hsteps, howner⟩ := ih
    cases hstep with
    | run i pid o next r hi hs =>
      dsimp only at howner
      refine ⟨hsteps.tail (Step.run i pid o next r hi hs), fun q n j hj => ?_⟩
      by_cases hji : j = i
      · subst hji
        refine ⟨next r, ?_⟩
        rcases sem_owner hs hj with hold | ⟨-, rfl⟩
        · obtain ⟨p, hp⟩ := howner q n j hold
          cases hp.symm.trans hi
          exact Pool.set_self _ _ _
        · exact Pool.set_self _ _ _
      · have hold := (sem_owner hs hj).resolve_right fun h => hji h.1
        obtain ⟨p, hp⟩ := howner q n j hold
        exact ⟨p, (Pool.set_ne _ _ hji).trans hp⟩
    | spawn i pid p hi hp =>
      dsimp only at howner
      have hnone : ∀ q n, _ ≠ some i := fun q n hq => by
        obtain ⟨p', hp'⟩ := howner q n i hq
        rw [hi] at hp'
        cases hp'
      refine ⟨hsteps.tail (Step.spawn i pid p hi ⟨hp, hnone⟩), fun q n j hj => ?_⟩
      obtain ⟨p', hp'⟩ := howner q n j hj
      have hji : j ≠ i := by
        rintro rfl
        rw [hi] at hp'
        cases hp'
      exact ⟨p', (Pool.set_ne _ _ hji).trans hp'⟩
    | crash t hc => exact hc.elim

def tidyRules (deps : Deps) (store : TraceStore) : Rules (numbering deps store) where
  valid := World.Tended
  rely := Spares
  guar := Minds
  post i pid _ w := Leaves i pid none w
  rely_refl := Spares.refl
  rely_trans _ _ := Spares.trans
  compat _ _ _ _ _ _ hij _ h := h.spares hij
  fresh := by
    rintro i pid _ w ⟨⟨c, rfl⟩, hfree⟩ hv
    exact tidy_thread c hv fun p n _ hn => absurd hn (hfree pid n)
  crash_valid _ _ _ hc := hc.elim
  crash_rely _ _ _ _ _ hc := hc.elim

/-- A get changes nothing, so it already has what it promises. -/
theorem leaves_of_get {i pid : Nat} {get : StoreCall} (hget : get.content deps = none)
    (hv : w.Tended) (h : Tidy i pid (fun _ => Leaves i pid none) (get.thread deps store) w) :
    Leaves i pid none w := by
  cases hp : get.path store with
  | error e =>
    obtain ⟨a, hthread, -⟩ := StoreCall.thread_invalid deps hp
    rw [hthread] at h
    exact h w hv (Spares.refl i pid w)
  | ok p =>
    rw [StoreCall.thread_get hget hp] at h
    have hread : World.sem (¬ Removal (.read p)) i pid (.read p) w
        ((w.files p).elim (.error World.notFound) .ok) w :=
      ⟨.fine, fun hf => by (cases hf), rfl⟩
    obtain ⟨-, -, hret⟩ := h w _ w hv (Spares.refl i pid w) hread
    exact hret w hv (Spares.refl i pid w)

/-- When every put has returned, no temp file is left. -/
theorem nothing_left (hw : w.Clean) (h : Steps (lasting deps store) (Pool.empty, w) x)
    (hdone : ∀ i th, x.1 i = some th → (∃ a, th.prog = ret a) ∨
      ∃ get : StoreCall, get.content deps = none ∧ th.prog = get.thread deps store)
    {p : Path} (hp : p.IsTmp) : x.2.files p = none := by
  obtain ⟨hsteps, howner⟩ := lasting_numbering hw h
  have hstart : (tidyRules deps store).Holds (Pool.empty, w) :=
    .init ⟨hw.numbered, fun p pid n hp hfile => absurd (hw.files p ⟨pid, n, hp⟩) hfile⟩
  have hholds := Rules.Holds.steps hstart hsteps
  by_contra hfile
  obtain ⟨q, n, hname⟩ := hp
  obtain ⟨j, hj⟩ := Option.ne_none_iff_exists'.mp (hholds.valid.owned p q n hname hfile)
  obtain ⟨prog, hprog⟩ := howner q n j hj
  have hsafe : Tidy j q (fun _ => Leaves j q none) prog x.2 := hholds.threads j _ hprog
  have hleaves : Leaves j q none x.2 := by
    rcases hdone j _ hprog with ⟨a, ha⟩ | ⟨get, hget, hthread⟩
    · rw [show prog = ret a from ha] at hsafe
      exact hsafe x.2 hholds.valid (Spares.refl j q x.2)
    · rw [show prog = get.thread deps store from hthread] at hsafe
      exact leaves_of_get hget hholds.valid hsafe
  cases hleaves p n hname hj hfile

end Lasting

/-! ### What readers see -/

/-- **Readers see all or nothing.**  Whatever steps are interleaved, whatever
faults strike and whenever processes crash: a get that returns has seen no
entry or the whole content of a put for its key; the visible files change only
in the last step of a put that then returns with success, so no step of a put
that goes on to return an error changes them.  And where no process crashes and
temp files can be removed, none is left once every put has returned. -/
theorem reads_are_whole (deps : Deps) (store : TraceStore) (puts : Set StoreCall) :
    (∀ w x, w.Numbered → Supplied deps store puts w.visible →
      Steps (wholeCallers deps store puts) (Pool.empty, w) x →
      (∀ i pid get a, x.1 i = some ⟨pid, ret (get, a)⟩ → get.content deps = none →
        SeesWhole deps store puts get a) ∧
      (∀ i pid o next r w', x.1 i = some ⟨pid, .call o next⟩ → World.sem True i pid o x.2 r w' →
        (w'.visible ≠ x.2.visible → ∃ c, next r = ret (c, .put (.ok ()))) ∧
        (∀ evs c e, Runs (next r) evs (c, .put (.error e)) → w'.visible = x.2.visible))) ∧
    (∀ w x, w.Clean → Steps (lasting deps store) (Pool.empty, w) x →
      (∀ i th, x.1 i = some th → (∃ a, th.prog = ret a) ∨
        ∃ get : StoreCall, get.content deps = none ∧ th.prog = get.thread deps store) →
      ∀ p, p.IsTmp → x.2.files p = none) := by
  refine ⟨?_, fun w x hw h hdone p hp => nothing_left hw h hdone hp⟩
  intro w x hw hfiles h
  have hholds := wholeRules_holds hw hfiles h
  refine ⟨fun i pid get a hi hget => hholds.returned hi hget, ?_⟩
  intro i pid o next r w' hi hs
  have hguarded : Guarded o next := (callers_guarded h i _ hi).1
  have hlast : w'.visible ≠ x.2.visible → ∃ c, next r = ret (c, .put (.ok ())) :=
    fun hne => hguarded.visible hs hne
  refine ⟨hlast, ?_⟩
  intro evs c e hruns
  by_contra hne
  obtain ⟨c', hret⟩ := hlast hne
  rw [hret, runs_ret_iff] at hruns
  cases hruns.2

namespace Reference

/-- A put, and then a get of its key. -/
def putThenGet : List Move :=
  .start 0 1 plain :: List.replicate 7 (.turn 0) ++ [.start 1 1 (.getProgram "a0"), .turn 1]

end Reference

open Reference in
theorem reads_are_whole_reference : ∃ x,
    Steps (wholeCallers reference store {plain}) (Pool.empty, World.empty) x ∧
    (∃ a, x.1 1 = some ⟨1, ret (.getProgram "a0", a)⟩ ∧
      SeesWhole reference store {plain} (.getProgram "a0") a) ∧
    ∀ p, p.IsTmp → x.2.files p = none := by
  obtain ⟨hwhole, hleft⟩ := reads_are_whole reference store {plain}
  obtain ⟨x, hx, a₀, h₀, a, h₁⟩ : ∃ x, play reference store (fun _ _ => true) putThenGet
      (Pool.empty, World.empty) = some x ∧ ∃ a₀, x.1 0 = some ⟨1, ret (plain, a₀)⟩ ∧
      ∃ a, x.1 1 = some ⟨1, ret (.getProgram "a0", a)⟩ := ⟨_, rfl, _, rfl, _, rfl⟩
  have hothers : ∀ i, i ≠ 0 → i ≠ 1 → x.1 i = none := by
    cases hx
    intro i hi₀ hi₁
    simp [Pool.set, Pool.empty, hi₀, hi₁]
  have hcalls : ∀ i pid c, Move.start i pid c ∈ putThenGet → c.content reference ≠ none →
      c ∈ ({plain} : Set StoreCall) := by
    intro i pid c hmem hc
    have hmem' : Move.start i pid c = .start 0 1 plain ∨
        Move.start i pid c = .start 1 1 (.getProgram "a0") := by
      simpa [putThenGet] using hmem
    rcases hmem' with h | h
    · cases h
      rfl
    · cases h
      exact absurd rfl hc
  have hsteps : Steps (wholeCallers reference store {plain}) (Pool.empty, World.empty) x :=
    play_steps (fun _ _ _ _ => trivial) (fun i pid c _ => hcalls i pid c) hx
  have hcalm : Steps (lasting reference store) (Pool.empty, World.empty) x := by
    apply Steps.mono ?_ ?_ ?_ (play_unchecked hx)
    · rintro i t o s r s' ⟨-, c, hf, hstep⟩
      exact ⟨c, fun hc => (hf hc).elim, hstep⟩
    · rintro i t p s ⟨c, -, hp⟩
      exact ⟨c, hp⟩
    · exact fun t s s' hc => hc.1 trivial
  have hempty : Supplied reference store {plain} World.empty.visible := by
    intro p bytes hp
    rw [World.visible_empty] at hp
    cases hp
  obtain ⟨hsees, -⟩ := hwhole _ x World.clean_empty.numbered hempty hsteps
  refine ⟨x, hsteps, ⟨a, h₁, hsees 1 1 _ a h₁ rfl⟩, ?_⟩
  apply hleft _ x World.clean_empty hcalm
  intro i th hi
  by_cases hi₀ : i = 0
  · rw [hi₀, h₀] at hi
    cases hi
    exact Or.inl ⟨_, rfl⟩
  · by_cases hi₁ : i = 1
    · rw [hi₁, h₁] at hi
      cases hi
      exact Or.inl ⟨_, rfl⟩
    · rw [hothers i hi₀ hi₁] at hi
      cases hi

end ProvenoGateway
