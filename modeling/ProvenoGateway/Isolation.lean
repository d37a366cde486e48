/-
ProvenoGateway/Isolation.lean

Store keys are isolated from each other.

A key that is accepted is one name in one directory, and what a call does goes
to the file of its key and to a temp file in the same directory, the one whose
number the call has drawn (`confined_thread`).  Files of different keys or
kinds have different paths, and no key has the path of a temp file
(`text_inj`): both kinds of name are last components, and a temp name starts
with a dot.
-/
import ProvenoGateway.Footprint
import ProvenoGateway.StoreCalls

namespace ProvenoGateway

open Program

/-! ### Kinds of file -/

inductive FileKind
  | trace
  | program
  | description

def FileKind.ext : FileKind → String
  | trace => "json"
  | program => "lua"
  | description => "txt"

/-- The directory of a kind of file. -/
def TraceStore.directory (store : TraceStore) : FileKind → String
  | .trace => store.traces
  | .program => store.programs
  | .description => store.descriptions

namespace StoreCall

def kind : StoreCall → FileKind
  | putTrace _ | getTrace _ => .trace
  | putProgram _ _ | getProgram _ => .program
  | putDescription _ _ | getDescription _ => .description

def key : StoreCall → String
  | putTrace t => t.header.traceId
  | putProgram key _ | putDescription key _ | getTrace key | getProgram key
  | getDescription key => key

theorem path_eq (store : TraceStore) (c : StoreCall) :
    c.path store = keyPath (store.directory c.kind) c.key c.kind.ext := by
  cases c <;> rfl

end StoreCall

/-! ### The files an operation names -/

/-- The operation names none but these files, and does nothing else but to draw
a number and to ask for the process. -/
def Touches (own : Path → Prop) : Op → Prop
  | .pathExists p | .read p | .createNew p | .writeAll p _ | .syncAll p | .removeFile p => own p
  | .rename p q => own p ∧ own q
  | .fetchAdd | .processId => True
  | _ => False

theorem Touches.mono {own own' : Path → Prop} (h : ∀ q, own q → own' q) {o : Op}
    (ho : Touches own o) : Touches own' o := by
  cases o with
  | rename p q => exact ⟨h p ho.1, h q ho.2⟩
  | pathExists p => exact h p ho
  | read p => exact h p ho
  | createNew p => exact h p ho
  | writeAll p bytes => exact h p ho
  | syncAll p => exact h p ho
  | removeFile p => exact h p ho
  | fetchAdd => trivial
  | processId => trivial
  | _ => exact ho.elim

/-- Files that are the same in two worlds, with the number drawn next. -/
structure World.SameOn (own : Path → Prop) (pid : Nat) (w v : World) : Prop where
  files : ∀ q, own q → v.files q = w.files q
  counter : v.counter pid = w.counter pid

section Step

variable {own : Path → Prop} {i pid : Nat} {faults : Prop} {w w' v : World} {o : Op} {r : Res o}

/-- The other files stay as they are. -/
theorem Touches.frame (ho : Touches own o) (h : World.sem faults i pid o w r w') (q : Path)
    (hq : ¬ own q) : w'.files q = w.files q := by
  have hne : ∀ {p : Path}, own p → q ≠ p := fun hp heq => hq (by rw [heq]; exact hp)
  cases o with
  | createNew p =>
    rcases World.sem_createNew h with ⟨_, _, rfl, _⟩ | ⟨_, rfl⟩
    · rfl
    · exact World.set_files_ne _ _ (hne ho)
  | writeAll p bytes =>
    rcases World.sem_writeAll h with ⟨_, _, _, _, rfl⟩ | ⟨_, rfl⟩
    · exact World.set_files_ne _ _ (hne ho)
    · exact World.set_files_ne _ _ (hne ho)
  | rename p p' =>
    rcases World.sem_rename h with ⟨_, _, rfl, _⟩ | ⟨_, _, _, rfl⟩
    · rfl
    · rw [World.set_files_ne _ _ (hne ho.2), World.set_files_ne _ _ (hne ho.1)]
  | removeFile p =>
    rcases World.sem_removeFile h with rfl | rfl
    · rfl
    · exact World.set_files_ne _ _ (hne ho)
  | fetchAdd =>
    obtain ⟨-, rfl⟩ := World.sem_fetchAdd h
    rfl
  | _ => rw [World.sem_quiet (by exact trivial) h]

theorem World.SameOn.set (hv : World.SameOn own pid w v) (p : Path) (c : Option ByteArray) :
    World.SameOn own pid (w.set p c) (v.set p c) := by
  refine ⟨fun q hq => ?_, hv.counter⟩
  by_cases hqp : q = p
  · rw [hqp, World.set_files_self, World.set_files_self]
  · rw [World.set_files_ne _ _ hqp, World.set_files_ne _ _ hqp, hv.files q hq]

theorem World.SameOn.draw (hv : World.SameOn own pid w v) :
    World.SameOn own pid (w.draw i pid) (v.draw i pid) := by
  refine ⟨hv.files, ?_⟩
  show (if pid = pid then v.counter pid + 1 else v.counter pid) =
    if pid = pid then w.counter pid + 1 else w.counter pid
  rw [hv.counter]

/-- Where the files named are the same, the operation answers and does the
same. -/
theorem step_simulated {c : World.Choice} (ho : Touches own o)
    (h : World.step i pid c o w = some (r, w')) (hv : World.SameOn own pid w v) :
    ∃ v', World.step i pid c o v = some (r, v') ∧ World.SameOn own pid w' v' := by
  cases o with
  | pathExists p =>
    cases c with
    | fine =>
      cases h
      refine ⟨v, ?_, hv⟩
      rw [World.step, hv.files p ho]
    | fault e n =>
      cases h
      exact ⟨v, rfl, hv⟩
    | _ => cases h
  | read p =>
    cases c with
    | fine =>
      cases h
      refine ⟨v, ?_, hv⟩
      rw [World.step, hv.files p ho]
    | fault e n =>
      cases h
      exact ⟨v, rfl, hv⟩
    | _ => cases h
  | createNew p =>
    cases c with
    | fine =>
      rw [World.step] at h ⊢
      rw [hv.files p ho]
      split at h
      case isTrue hsome =>
        cases h
        exact ⟨v, if_pos hsome, hv⟩
      case isFalse hnone =>
        cases h
        exact ⟨_, if_neg hnone, hv.set p _⟩
    | fault e n =>
      cases h
      exact ⟨v, rfl, hv⟩
    | _ => cases h
  | writeAll p bytes =>
    cases c with
    | fine =>
      cases h
      refine ⟨_, rfl, ?_⟩
      rw [hv.files p ho]
      exact hv.set p _
    | fault e n =>
      cases h
      refine ⟨_, rfl, ?_⟩
      rw [hv.files p ho]
      exact hv.set p _
    | _ => cases h
  | syncAll p =>
    cases c with
    | fine =>
      cases h
      exact ⟨v, rfl, hv⟩
    | fault e n =>
      cases h
      exact ⟨v, rfl, hv⟩
    | _ => cases h
  | rename p q =>
    cases c with
    | fine =>
      rcases hfile : w.files p with - | content
      · simp only [World.step, hfile, hv.files p ho.1] at h ⊢
        cases h
        exact ⟨v, rfl, hv⟩
      · simp only [World.step, hfile, hv.files p ho.1] at h ⊢
        cases h
        exact ⟨_, rfl, (hv.set p none).set q _⟩
    | fault e n =>
      cases h
      exact ⟨v, rfl, hv⟩
    | _ => cases h
  | removeFile p =>
    cases c with
    | fine =>
      rw [World.step] at h ⊢
      rw [hv.files p ho]
      split at h
      case isTrue hsome =>
        cases h
        exact ⟨_, if_pos hsome, hv.set p none⟩
      case isFalse hnone =>
        cases h
        exact ⟨v, if_neg hnone, hv⟩
    | fault e n =>
      cases h
      exact ⟨v, rfl, hv⟩
    | _ => cases h
  | fetchAdd =>
    cases c with
    | fine =>
      cases h
      refine ⟨v.draw i pid, ?_, hv.draw⟩
      rw [World.step, hv.counter]
    | _ => cases h
  | processId =>
    cases c with
    | fine =>
      cases h
      exact ⟨v, rfl, hv⟩
    | _ => cases h
  | _ => exact ho.elim

end Step

/-! ### What a call touches -/

/-- The file of the key, or the temp file beside it whose number was drawn. -/
def OwnFile (p : Path) (past : List (Event Op Res)) (q : Path) : Prop :=
  q = p ∨ ∃ pid n, (⟨.processId, pid⟩ : Event Op Res) ∈ past ∧
    (⟨.fetchAdd, n⟩ : Event Op Res) ∈ past ∧ q = ⟨p.parent, tmpName pid n⟩

/-- Only own files are named, and a number is drawn once. -/
structure Confined (p : Path) (past : List (Event Op Res)) (o : Op) : Prop where
  touches : Touches (OwnFile p past) o
  once : o = .fetchAdd → ∀ n, (⟨.fetchAdd, n⟩ : Event Op Res) ∉ past

/-- Once process and number are known: the file, and one temp file. -/
def OneTmp (p : Path) (pid n : Nat) (q : Path) : Prop := q = p ∨ q = ⟨p.parent, tmpName pid n⟩

/-- What is left when the number has been drawn. -/
def Rest (p : Path) (pid n : Nat) (o : Op) : Prop := Touches (OneTmp p pid n) o ∧ o ≠ .fetchAdd

section Confined

variable {p : Path} {α : Type}

theorem Rest.confined {pid n : Nat} {past : List (Event Op Res)}
    (hpid : (⟨.processId, pid⟩ : Event Op Res) ∈ past)
    (hn : (⟨.fetchAdd, n⟩ : Event Op Res) ∈ past) (more : List (Event Op Res)) {o : Op}
    (ho : Rest p pid n o) : Confined p (past ++ more) o := by
  refine ⟨ho.1.mono ?_, fun heq => absurd heq ho.2⟩
  rintro q (rfl | rfl)
  · exact Or.inl rfl
  · exact Or.inr ⟨pid, n, List.mem_append_left _ hpid, List.mem_append_left _ hn, rfl⟩

/-- The write, with what is made of its result. -/
theorem confined_writeAtomic {bytes : ByteArray} {past : List (Event Op Res)}
    (hpast : ∀ n, (⟨.fetchAdd, n⟩ : Event Op Res) ∉ past)
    {k : Except StoreError Unit → Gateway α} (hk : ∀ r, ∃ a, k r = ret a) :
    (writeAtomic p bytes >>= k).UsesAfter (Confined p) past := by
  refine ⟨⟨trivial, fun h => by (cases h)⟩, fun pid => ⟨⟨trivial, fun _ n hn => ?_⟩, fun n => ?_⟩⟩
  · rcases List.mem_append.mp hn with hn | hn
    · exact hpast n hn
    · cases List.mem_singleton.mp hn
  -- from here on it is one temp file
  have htmp : OneTmp p pid n ⟨p.parent, tmpName pid n⟩ := Or.inr rfl
  have hdone : ∀ r, (k r).Uses (Rest p pid n) := by
    intro r
    obtain ⟨a, ha⟩ := hk r
    rw [ha]
    trivial
  have hfail : ∀ e : IoError, (Program.call (.removeFile ⟨p.parent, tmpName pid n⟩) fun _ =>
      k (.error (.io e))).Uses (Rest p pid n) :=
    fun e => ⟨⟨htmp, fun h => by (cases h)⟩, fun _ => hdone _⟩
  refine @Uses.after Op Res α (Confined p) (Rest p pid n) _ _ ?_ fun more o ho =>
    ho.confined ?_ ?_ more
  · refine ⟨⟨htmp, fun h => by (cases h)⟩, ?_⟩
    rintro (e | u)
    · exact hfail e
    refine ⟨⟨htmp, fun h => by (cases h)⟩, ?_⟩
    rintro (e | u)
    · exact hfail e
    refine ⟨⟨htmp, fun h => by (cases h)⟩, ?_⟩
    rintro (e | u)
    · exact hfail e
    refine ⟨⟨⟨htmp, Or.inl rfl⟩, fun h => by (cases h)⟩, ?_⟩
    rintro (e | u)
    · exact hfail e
    · exact hdone (.ok ())
  · simp
  · simp

theorem confined_putContentAddressed {kind key content : String}
    {k : Except StoreError Unit → Gateway α} (hk : ∀ r, ∃ a, k r = ret a) :
    (putContentAddressed p kind key content >>= k).UsesAfter (Confined p) [] := by
  have hdone : ∀ r past, (k r).UsesAfter (Confined p) past := by
    intro r past
    obtain ⟨a, ha⟩ := hk r
    rw [ha]
    trivial
  refine ⟨⟨Or.inl rfl, fun h => by (cases h)⟩, ?_⟩
  rintro (e | existing)
  · show ((if e.kind = .notFound then writeAtomic p content.toUTF8
      else ret (.error (.io e))) >>= k).UsesAfter (Confined p) _
    split_ifs
    · refine confined_writeAtomic (fun n hn => ?_) hk
      cases List.mem_singleton.mp hn
    · exact hdone _ _
  · show ((if existing = content.toUTF8 then ret (.ok ())
      else ret (.error (.conflict kind key))) >>= k).UsesAfter (Confined p) _
    split_ifs
    · exact hdone _ _
    · exact hdone _ _

end Confined

/-- A call with a key goes to its own files only. -/
theorem confined_thread {deps : Deps} {store : TraceStore} {c : StoreCall} {p : Path}
    (hp : c.path store = .ok p) : (c.thread deps store).UsesAfter (Confined p) [] := by
  have hk : ∀ r : Except StoreError Unit,
      ∃ a, (ret (c, StoreAnswer.put r) : Gateway (StoreCall × StoreAnswer)) = ret a :=
    fun r => ⟨_, rfl⟩
  have hread : ∀ next : Except IoError ByteArray → Gateway (StoreCall × StoreAnswer),
      (∀ r, ∃ a, next r = ret a) → (Program.call (.read p) next).UsesAfter (Confined p) [] := by
    intro next hnext
    refine ⟨⟨Or.inl rfl, fun h => by (cases h)⟩, fun r => ?_⟩
    obtain ⟨a, ha⟩ := hnext r
    rw [ha]
    trivial
  cases c with
  | putTrace t =>
    have hp' : keyPath store.traces t.header.traceId "json" = .ok p := hp
    simp only [StoreCall.thread, StoreCall.run, TraceStore.putTrace, hp', bind_assoc, op_bind,
      call_bind, pure_eq]
    refine ⟨⟨Or.inl rfl, fun h => by (cases h)⟩, ?_⟩
    rintro (_ | _)
    · refine confined_writeAtomic (fun n hn => ?_) hk
      cases List.mem_singleton.mp hn
    · trivial
  | putProgram h source =>
    have hp' : keyPath store.programs h "lua" = .ok p := hp
    simp only [StoreCall.thread, StoreCall.run, TraceStore.putProgram, hp', bind_assoc, pure_eq]
    exact confined_putContentAddressed hk
  | putDescription h text =>
    have hp' : keyPath store.descriptions h "txt" = .ok p := hp
    simp only [StoreCall.thread, StoreCall.run, TraceStore.putDescription, hp', bind_assoc,
      pure_eq]
    exact confined_putContentAddressed hk
  | getTrace id =>
    rw [StoreCall.thread_get rfl hp]
    exact hread _ fun r => ⟨_, rfl⟩
  | getProgram h =>
    rw [StoreCall.thread_get rfl hp]
    exact hread _ fun r => ⟨_, rfl⟩
  | getDescription h =>
    rw [StoreCall.thread_get rfl hp]
    exact hread _ fun r => ⟨_, rfl⟩

/-! ### Executions -/

section Exec

variable {deps : Deps} {store : TraceStore} {c : StoreCall} {p : Path}
variable {faults : Prop} {i pid : Nat} {w w' v : World} {a : StoreCall × StoreAnswer}

/-- The answers of process `pid` that started to draw at `n`. -/
structure Drawing (pid n : Nat) (past : List (Event Op Res)) (w : World) : Prop where
  process : ∀ q, (⟨.processId, q⟩ : Event Op Res) ∈ past → q = pid
  number : ∀ m, (⟨.fetchAdd, m⟩ : Event Op Res) ∈ past → m = n
  counter : (∀ m, (⟨.fetchAdd, m⟩ : Event Op Res) ∉ past) → w.counter pid = n

theorem sem_counter {o : Op} {r : Res o} (h : World.sem faults i pid o w r w')
    (ho : o ≠ .fetchAdd) : w'.counter = w.counter := by
  cases o with
  | createNew p =>
    rcases World.sem_createNew h with ⟨_, _, rfl, _⟩ | ⟨_, rfl⟩ <;> rfl
  | writeAll p bytes =>
    rcases World.sem_writeAll h with ⟨_, _, _, _, rfl⟩ | ⟨_, rfl⟩ <;> rfl
  | rename p q =>
    rcases World.sem_rename h with ⟨_, _, rfl, _⟩ | ⟨_, _, _, rfl⟩ <;> rfl
  | removeFile p =>
    rcases World.sem_removeFile h with rfl | rfl <;> rfl
  | fetchAdd => exact absurd rfl ho
  | _ => rw [World.sem_quiet (by exact trivial) h]

/-- One step: the operation goes to the file and the one temp file. -/
theorem Drawing.step {n : Nat} {past : List (Event Op Res)} {o : Op} {r : Res o}
    (hd : Drawing pid n past w) (ho : Confined p past o)
    (h : World.sem faults i pid o w r w') :
    Touches (OneTmp p pid n) o ∧ Drawing pid n (past ++ [⟨o, r⟩]) w' := by
  constructor
  · refine ho.touches.mono ?_
    rintro q (rfl | ⟨pid', m, hpid, hm, rfl⟩)
    · exact Or.inl rfl
    · rw [hd.process pid' hpid, hd.number m hm]
      exact Or.inr rfl
  · refine ⟨fun q hq => ?_, fun m hm => ?_, fun hnone => ?_⟩
    · rcases List.mem_append.mp hq with hq | hq
      · exact hd.process q hq
      · cases List.mem_singleton.mp hq
        exact World.sem_processId h
    · rcases List.mem_append.mp hm with hm | hm
      · exact hd.number m hm
      · cases List.mem_singleton.mp hm
        -- the first draw, from the counter as it was
        rw [(World.sem_fetchAdd h).1]
        exact hd.counter (ho.once rfl)
    · by_cases hdraw : o = .fetchAdd
      · subst hdraw
        exact absurd (List.mem_append_right _ List.mem_cons_self) (hnone r)
      · rw [sem_counter h hdraw]
        exact hd.counter fun m hm => hnone m (List.mem_append_left _ hm)

/-- Run alone, a call names its file and one temp file. -/
theorem exec_confined (hp : c.path store = .ok p)
    (h : Exec (World.sem faults i pid) (c.thread deps store) w a w') :
    Exec (fun o w₁ r w₂ => Touches (OneTmp p pid (w.counter pid)) o ∧
      World.sem faults i pid o w₁ r w₂) (c.thread deps store) w a w' := by
  have hstart : Drawing pid (w.counter pid) [] w := ⟨by simp, by simp, fun _ => rfl⟩
  refine Exec.restrict ?_ (confined_thread hp) hstart h
  exact fun past o w₁ r w₂ hd ho hsem => hd.step ho hsem

/-- Every other file is left as it is. -/
theorem exec_frame (hp : c.path store = .ok p)
    (h : Exec (World.sem faults i pid) (c.thread deps store) w a w') (q : Path)
    (hq : ¬ OneTmp p pid (w.counter pid) q) : w'.files q = w.files q := by
  have hrelated := Exec.related (R := fun w w' : World => w'.files q = w.files q) (fun _ => rfl)
    (fun h₁ h₂ => h₂.trans h₁) (fun o w₁ r w₂ hstep => hstep.1.frame hstep.2 q hq)
    (exec_confined hp h)
  exact hrelated

/-- No other file matters: the call returns and writes the same wherever its own
files and the counter are the same. -/
theorem exec_reads (hp : c.path store = .ok p)
    (h : Exec (World.sem faults i pid) (c.thread deps store) w a w')
    (hv : World.SameOn (OneTmp p pid (w.counter pid)) pid w v) :
    ∃ v', Exec (World.sem faults i pid) (c.thread deps store) v a v' ∧
      World.SameOn (OneTmp p pid (w.counter pid)) pid w' v' := by
  refine Exec.simulated ?_ (exec_confined hp h) hv
  rintro o w₁ r w₂ v₁ ⟨ho, choice, hchoice, hstep⟩ hv₁
  obtain ⟨v₂, hv₂, hsame⟩ := step_simulated ho hstep hv₁
  exact ⟨v₂, ⟨choice, hchoice, hv₂⟩, hsame⟩

end Exec

/-! ### Names and paths -/

/-- A name that is one component of a path. -/
structure Component (name : String) : Prop where
  nonempty : name ≠ ""
  here : name ≠ "."
  up : name ≠ ".."
  slash : '/' ∉ name.toList
  nul : '\x00' ∉ name.toList

/-- The path as the operating system is given it. -/
def Path.text (p : Path) : String := joinPath p.parent p.name

/-- A directory that is followed by a slash. -/
structure Directory (dir : String) : Prop where
  nonempty : dir ≠ ""
  open_ : Text.endsWith '/' dir = false

theorem text_eq_join {p : Path} (hdir : Directory p.parent) (hname : '/' ∉ p.name.toList) :
    p.text = p.parent ++ ("/" ++ p.name) := by
  have hhead : p.name.toList.head? ≠ some '/' := fun h => hname (List.mem_of_head? h)
  rw [Path.text, joinPath, if_neg hhead, if_neg hdir.nonempty, hdir.open_]
  simp [String.append_assoc]

/-- Two texts are the same only if they are before and after their last
slash. -/
theorem slash_inj {a b c d : List Char} (hb : '/' ∉ b) (hd : '/' ∉ d)
    (h : a ++ '/' :: b = c ++ '/' :: d) : a = c ∧ b = d := by
  have htake : ∀ {x y : List Char}, '/' ∉ y →
      (x ++ '/' :: y).reverse.takeWhile (· ≠ '/') = y.reverse := by
    intro x y hy
    have hall : ∀ c ∈ y.reverse, decide (c ≠ '/') = true := by
      intro c hc
      refine decide_eq_true ?_
      rintro rfl
      exact hy (List.mem_reverse.mp hc)
    rw [List.reverse_append, List.reverse_cons, List.append_assoc,
      List.takeWhile_append_of_pos hall]
    simp
  have hbd : b = d := by
    rw [← List.reverse_inj, ← htake (x := a) hb, ← htake (x := c) hd, h]
  rw [hbd] at h
  exact ⟨List.append_cancel_right h, hbd⟩

/-- The last slash of a path is the one before the name. -/
theorem text_inj {p q : Path} (hp : Directory p.parent) (hq : Directory q.parent)
    (hpn : '/' ∉ p.name.toList) (hqn : '/' ∉ q.name.toList) (h : p.text = q.text) : p = q := by
  rw [text_eq_join hp hpn, text_eq_join hq hqn] at h
  have hchars := congrArg String.toList h
  simp only [String.toList_append] at hchars
  obtain ⟨hparent, hname⟩ := slash_inj hpn hqn hchars
  show Path.mk p.parent p.name = Path.mk q.parent q.name
  rw [String.toList_inj.mp hparent, String.toList_inj.mp hname]

theorem under_directory (dir : String) (k : FileKind) :
    Directory ((TraceStore.under dir).directory k) := by
  obtain ⟨start, hjoin⟩ := TraceStore.joinPath_relative dir
  have hlast : ∀ name : String, name ≠ "" → name.toList.head? ≠ some '/' →
      Text.endsWith '/' name = false → Directory (joinPath dir name) := by
    intro name hne hhead hend
    rw [hjoin name hhead]
    have hchars : name.toList ≠ [] := fun h => hne (String.toList_eq_nil_iff.mp h)
    refine ⟨fun h => hne (String.append_eq_empty_iff.mp h).2, ?_⟩
    rw [Text.endsWith, String.toList_append, List.getLast?_append_of_ne_nil _ hchars]
    exact hend
  cases k with
  | trace => exact hlast "traces" (by decide) (by decide) (by decide)
  | program => exact hlast "programs" (by decide) (by decide) (by decide)
  | description => exact hlast "descriptions" (by decide) (by decide) (by decide)

theorem isKeyChar_of_mem {key : String} (h : validKey key = true) {c : Char}
    (hc : c ∈ key.toList) : isKeyChar c = true := by
  rw [validKey, Bool.and_eq_true] at h
  exact List.all_eq_true.mp h.2 c hc

theorem notMem_of_validKey {key : String} (h : validKey key = true) {c : Char}
    (hc : isKeyChar c = false) : c ∉ key.toList := by
  intro hmem
  rw [isKeyChar_of_mem h hmem] at hc
  cases hc

theorem toList_fileName (key : String) (k : FileKind) :
    (s!"{key}.{k.ext}").toList = key.toList ++ '.' :: k.ext.toList := by
  show (key ++ "." ++ k.ext).toList = _
  rw [String.toList_append, String.toList_append, List.append_assoc]
  rfl

/-- A character that no key, no extension and no dot is. -/
theorem notMem_fileName {key : String} (h : validKey key = true) (k : FileKind) {c : Char}
    (hc : isKeyChar c = false) (hdot : c ≠ '.') (hext : ∀ k : FileKind, c ∉ k.ext.toList) :
    c ∉ (s!"{key}.{k.ext}").toList := by
  rw [toList_fileName, List.mem_append, List.mem_cons, not_or, not_or]
  exact ⟨notMem_of_validKey h hc, hdot, hext k⟩

theorem slash_notMem_fileName {key : String} (h : validKey key = true) (k : FileKind) :
    '/' ∉ (s!"{key}.{k.ext}").toList := by
  refine notMem_fileName h k (by decide) (by decide) fun k => ?_
  cases k <;> decide

/-- The file of a key is one name. -/
theorem component_fileName {key : String} (h : validKey key = true) (k : FileKind) :
    Component s!"{key}.{k.ext}" := by
  obtain ⟨c, rest, hkey⟩ : ∃ c rest, key.toList = c :: rest := by
    rw [validKey, Bool.and_eq_true] at h
    rcases hlist : key.toList with - | ⟨c, rest⟩
    · rw [hlist] at h
      cases h.1
    · exact ⟨c, rest, rfl⟩
  have hfirst : (s!"{key}.{k.ext}").toList.head? = some c := by
    rw [toList_fileName, hkey]
    rfl
  have hdot : c ≠ '.' := by
    rintro rfl
    have hmem : '.' ∈ key.toList := by
      rw [hkey]
      exact List.mem_cons_self
    exact notMem_of_validKey h (by decide) hmem
  refine ⟨?_, ?_, ?_, slash_notMem_fileName h k, ?_⟩
  · intro hempty
    rw [hempty] at hfirst
    cases hfirst
  · intro hhere
    rw [hhere] at hfirst
    exact hdot (Option.some.inj hfirst).symm
  · intro hup
    rw [hup] at hfirst
    exact hdot (Option.some.inj hfirst).symm
  · refine notMem_fileName h k (by decide) (by decide) fun k => ?_
    cases k <;> decide

theorem ext_inj {k k' : FileKind} (h : k.ext = k'.ext) : k = k' := by
  cases k <;> cases k' <;> first | rfl | exact absurd h (by decide)

/-- The name says kind and key. -/
theorem fileName_inj {key other : String} (h : validKey key = true) (h' : validKey other = true)
    {k l : FileKind} (heq : s!"{key}.{k.ext}" = s!"{other}.{l.ext}") : k = l ∧ key = other := by
  have hsplit : ∀ {key : String}, validKey key = true → ∀ k : FileKind,
      Text.splitOnce '.' s!"{key}.{k.ext}" = some (key, k.ext) := by
    intro key h k
    have hdot : Text.contains '.' key = false :=
      Text.contains_eq_false.mpr (notMem_of_validKey h (by decide))
    show Text.splitOnce '.' (key ++ "." ++ k.ext) = some (key, k.ext)
    rw [String.append_assoc]
    exact Text.splitOnce_append hdot k.ext
  have hpair := hsplit h k
  rw [heq, hsplit h' l] at hpair
  obtain ⟨hkey, hext⟩ := Prod.mk.inj (Option.some.inj hpair)
  exact ⟨(ext_inj hext).symm, hkey.symm⟩

theorem slash_notMem_tmpName (pid n : Nat) : '/' ∉ (tmpName pid n).toList := by
  have hdigits : ∀ m : Nat, '/' ∉ Nat.toDigits 10 m := by
    intro m hm
    have hdigit := Nat.isDigit_of_mem_toDigits (by omega) (by omega) hm
    exact absurd hdigit (by decide)
  intro h
  rw [tmpName_toList] at h
  rcases List.mem_append.mp h with h | h
  · exact absurd h (by decide)
  rcases List.mem_append.mp h with h | h
  · exact hdigits pid h
  rcases List.mem_cons.mp h with h | h
  · exact absurd h (by decide)
  · exact hdigits n h

/-! ### Isolation -/

/-- The call is answered `InvalidKey`, without an operation. -/
structure Rejected (deps : Deps) (store : TraceStore) (c : StoreCall) : Prop where
  returns : ∃ a, c.thread deps store = ret (c, a) ∧ a.err = some (.invalidKey c.key)
  untouched : ∀ {faults : Prop} {i pid : Nat} {w w' : World} {a : StoreCall × StoreAnswer},
    Exec (World.sem faults i pid) (c.thread deps store) w a w' → w' = w

/-- The call goes to the file `p` and to its own temp file beside it. -/
structure Isolated (deps : Deps) (store : TraceStore) (c : StoreCall) (p : Path) : Prop where
  inside : p.text = store.directory c.kind ++ ("/" ++ p.name)
  component : Component p.name
  confined : ∀ {evs : List (Event Op Res)} {o : Op} {next : Res o → Gateway _},
    Leads (c.thread deps store) evs (.call o next) → Confined p evs o
  changes : ∀ {faults : Prop} {i pid : Nat} {w w' : World} {a : StoreCall × StoreAnswer},
    Exec (World.sem faults i pid) (c.thread deps store) w a w' →
      ∀ q, ¬ OneTmp p pid (w.counter pid) q → w'.files q = w.files q
  reads : ∀ {faults : Prop} {i pid : Nat} {w w' v : World} {a : StoreCall × StoreAnswer},
    Exec (World.sem faults i pid) (c.thread deps store) w a w' →
      World.SameOn (OneTmp p pid (w.counter pid)) pid w v →
      ∃ v', Exec (World.sem faults i pid) (c.thread deps store) v a v' ∧
        World.SameOn (OneTmp p pid (w.counter pid)) pid w' v'

theorem rejected {deps : Deps} {store : TraceStore} {c : StoreCall}
    (h : validKey c.key = false) : Rejected deps store c := by
  have hpath : c.path store = .error (.invalidKey c.key) := by
    rw [c.path_eq, keyPath, h]
    rfl
  obtain ⟨a, hthread, herr⟩ := StoreCall.thread_invalid deps hpath
  refine ⟨⟨a, hthread, herr⟩, fun hexec => ?_⟩
  rw [hthread] at hexec
  exact (exec_ret_iff.mp hexec).2

theorem isolated (deps : Deps) (dir : String) {c : StoreCall} (h : validKey c.key = true) :
    ∃ p, c.path (.under dir) = .ok p ∧ Isolated deps (.under dir) c p := by
  obtain ⟨p, hpath⟩ : ∃ p, c.path (.under dir) = .ok p := by
    rw [c.path_eq]
    exact ⟨_, keyPath_eq_ok.mpr ⟨h, rfl⟩⟩
  have hfile := hpath
  rw [c.path_eq] at hfile
  obtain ⟨-, hp⟩ := keyPath_eq_ok.mp hfile
  have hparent : p.parent = (TraceStore.under dir).directory c.kind := congrArg Path.parent hp
  have hname : p.name = s!"{c.key}.{c.kind.ext}" := congrArg Path.name hp
  refine ⟨p, hpath, ?_⟩
  refine
    { inside := ?_
      component := ?_
      confined := fun hleads => (confined_thread hpath).next hleads
      changes := fun hexec => exec_frame hpath hexec
      reads := fun hexec hv => exec_reads hpath hexec hv }
  · rw [← hparent]
    refine text_eq_join ?_ ?_
    · rw [hparent]
      exact under_directory dir c.kind
    · rw [hname]
      exact slash_notMem_fileName h c.kind
  · rw [hname]
    exact component_fileName h c.kind

/-- A call with a key is rejected, or goes to the one file of its kind and key
and its own temp file; no two keys share a file, and none has that of a temp
file. -/
theorem store_keys_isolated (deps : Deps) (dir : String) :
    (∀ c : StoreCall, validKey c.key = false → Rejected deps (.under dir) c) ∧
    (∀ c : StoreCall, validKey c.key = true →
      ∃ p, c.path (.under dir) = .ok p ∧ Isolated deps (.under dir) c p) ∧
    (∀ (k k' : FileKind) (key key' : String) (p p' : Path),
      keyPath ((TraceStore.under dir).directory k) key k.ext = .ok p →
      keyPath ((TraceStore.under dir).directory k') key' k'.ext = .ok p' →
      p.text = p'.text → k = k' ∧ key = key') ∧
    ∀ (k k' : FileKind) (key : String) (p : Path) (pid n : Nat),
      keyPath ((TraceStore.under dir).directory k) key k.ext = .ok p →
      p.text ≠ Path.text ⟨(TraceStore.under dir).directory k', tmpName pid n⟩ := by
  refine ⟨fun c => rejected, fun c => isolated deps dir, ?_, ?_⟩
  · intro k k' key key' p p' hp hp' htext
    obtain ⟨hkey, rfl⟩ := keyPath_eq_ok.mp hp
    obtain ⟨hkey', rfl⟩ := keyPath_eq_ok.mp hp'
    have hpath := text_inj (under_directory dir k) (under_directory dir k')
      (slash_notMem_fileName hkey k) (slash_notMem_fileName hkey' k') htext
    exact fileName_inj hkey hkey' (congrArg Path.name hpath)
  · intro k k' key p pid n hp htext
    have htmp := not_isTmp_of_keyPath hp
    obtain ⟨hkey, hfile⟩ := keyPath_eq_ok.mp hp
    have hdir : Directory p.parent := by
      rw [hfile]
      exact under_directory dir k
    have hslash : '/' ∉ p.name.toList := by
      rw [hfile]
      exact slash_notMem_fileName hkey k
    have hpath : p = ⟨(TraceStore.under dir).directory k', tmpName pid n⟩ :=
      text_inj hdir (under_directory dir k') hslash (slash_notMem_tmpName pid n) htext
    exact htmp ⟨pid, n, congrArg Path.name hpath⟩

end ProvenoGateway
