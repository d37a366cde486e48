/-
ProvenoGateway/Effects.lean

What the gateway does to the world, one atomic operation at a time, and the
world as far as the store sees it.

`Op` lists the operations: the file-system calls of `store.rs`, the counter
and the process id its temp names are made of, the run's fresh id, one
`tools/call` request, and a panic, which has no answer.  `Gateway α` is a
program over them.

`World.step` is what an operation does, given a `Choice` for what the gateway
does not control: whether an I/O fault strikes, the fresh id, the downstream's
answer.  A fault at `write_all` may leave a part of the bytes; a fault at
`Path::exists` answers `false`, as that function does.  `rename` is atomic.
`World.crash` is the end of a process: its temp files may hold anything, its
counter starts again at 0.  Paths are a directory and a name in it; the
counter does not wrap.

`owner` is a ghost: the thread that drew a number from the counter.
-/
import ProvenoGateway.Config
import ProvenoGateway.Json
import ProvenoGateway.Program
import Mathlib.Data.Nat.Digits.Lemmas

namespace ProvenoGateway

/-! ### Data -/

/-- A name in a directory. -/
structure Path where
  parent : String
  name : String
  deriving DecidableEq

inductive IoErrorKind
  | notFound
  | alreadyExists
  | other
  deriving DecidableEq

structure IoError where
  kind : IoErrorKind
  text : String
  deriving DecidableEq

/-- A block of a tool's answer; only text matters. -/
inductive ContentBlock
  | text (s : String)
  | other

/-- A `tools/call` request: the tool's name and its arguments. -/
structure CallToolRequestParams where
  name : String
  arguments : Option (List (String × Json))

structure CallToolResult where
  content : List ContentBlock
  structuredContent : Option Json
  isError : Option Bool
  meta_ : Option (List (String × Json))

/-! ### Operations -/

inductive Op
  | createDirAll (dir : String)
  | pathExists (path : Path)
  | read (path : Path)
  | createNew (path : Path)
  | writeAll (path : Path) (bytes : ByteArray)
  | syncAll (path : Path)
  | rename (source target : Path)
  | removeFile (path : Path)
  | fetchAdd
  | processId
  | uuidNow
  | toolsCall (client : Client) (params : CallToolRequestParams)
  | panic (message : String)

@[reducible] def Res : Op → Type
  | .createDirAll _ => Except IoError Unit
  | .pathExists _ => Bool
  | .read _ => Except IoError ByteArray
  | .createNew _ => Except IoError Unit
  | .writeAll _ _ => Except IoError Unit
  | .syncAll _ => Except IoError Unit
  | .rename _ _ => Except IoError Unit
  | .removeFile _ => Except IoError Unit
  | .fetchAdd => Nat
  | .processId => Nat
  | .uuidNow => String
  | .toolsCall _ _ => Except String CallToolResult
  | .panic _ => Empty

/-- A stateful function of the gateway. -/
abbrev Gateway (α : Type) : Type := Program Op Res α

/-- A panic: there is nothing to go on with. -/
def panicWith {α : Type} (message : String) : Gateway α := .call (.panic message) Empty.elim

/-! ### The operations as programs -/

namespace Fs

abbrev createDirAll (dir : String) : Gateway (Except IoError Unit) :=
  Program.op (Op.createDirAll dir)

abbrev pathExists (path : Path) : Gateway Bool := Program.op (Op.pathExists path)

abbrev read (path : Path) : Gateway (Except IoError ByteArray) := Program.op (Op.read path)

abbrev createNew (path : Path) : Gateway (Except IoError Unit) := Program.op (Op.createNew path)

abbrev writeAll (path : Path) (bytes : ByteArray) : Gateway (Except IoError Unit) :=
  Program.op (Op.writeAll path bytes)

abbrev syncAll (path : Path) : Gateway (Except IoError Unit) := Program.op (Op.syncAll path)

abbrev rename (source target : Path) : Gateway (Except IoError Unit) :=
  Program.op (Op.rename source target)

abbrev removeFile (path : Path) : Gateway (Except IoError Unit) := Program.op (Op.removeFile path)

end Fs

abbrev fetchAdd : Gateway Nat := Program.op Op.fetchAdd

abbrev processId : Gateway Nat := Program.op Op.processId

abbrev uuidNow : Gateway String := Program.op Op.uuidNow

abbrev toolsCall (client : Client) (params : CallToolRequestParams) :
    Gateway (Except String CallToolResult) := Program.op (Op.toolsCall client params)

/-! ### Temp names -/

/-- The name `write_atomic` gives the temp file of process `pid`, number `n`. -/
def tmpName (pid n : Nat) : String := s!".tmp-{pid}-{n}"

/-- A temp file of process `pid`. -/
def Path.IsTmpOf (pid : Nat) (p : Path) : Prop := ∃ n, p.name = tmpName pid n

/-- A temp file. -/
def Path.IsTmp (p : Path) : Prop := ∃ pid, p.IsTmpOf pid

theorem tmpName_toList (pid n : Nat) : (tmpName pid n).toList =
    ['.', 't', 'm', 'p', '-'] ++ (Nat.toDigits 10 pid ++ '-' :: Nat.toDigits 10 n) := by
  simp [tmpName, toString, String.toList_append, Nat.toList_repr]

theorem dash_not_mem_toDigits (n : Nat) : '-' ∉ Nat.toDigits 10 n := by
  intro h
  have hd := Nat.isDigit_of_mem_toDigits (by omega) (by omega) h
  simp at hd

/-- A temp name determines the process and the number. -/
theorem tmpName_inj {pid n pid' n' : Nat} (h : tmpName pid n = tmpName pid' n') :
    pid = pid' ∧ n = n' := by
  have hl := congrArg String.toList h
  rw [tmpName_toList, tmpName_toList] at hl
  have hl := List.append_cancel_left hl
  have htake : ∀ a b : Nat, (Nat.toDigits 10 a ++ '-' :: Nat.toDigits 10 b).takeWhile (· ≠ '-') =
      Nat.toDigits 10 a := by
    intro a b
    have hall : ∀ c ∈ Nat.toDigits 10 a, decide (c ≠ '-') = true := by
      intro c hc
      simp only [decide_eq_true_eq]
      rintro rfl
      exact dash_not_mem_toDigits a hc
    rw [List.takeWhile_append_of_pos hall]
    simp
  have hp : Nat.toDigits 10 pid = Nat.toDigits 10 pid' := by
    rw [← htake pid n, ← htake pid' n', hl]
  rw [hp] at hl
  have hn : Nat.toDigits 10 n = Nat.toDigits 10 n' := by
    simpa using hl
  have hof := @Nat.ofDigitChars_ten_toDigits
  refine ⟨?_, ?_⟩
  · rw [← hof (n := pid), ← hof (n := pid'), hp]
  · rw [← hof (n := n), ← hof (n := n'), hn]

/-! ### The world -/

structure World where
  files : Path → Option ByteArray
  counter : Nat → Nat
  owner : Nat → Nat → Option Nat

namespace World

/-- No files, no process has drawn a number. -/
def empty : World := ⟨fun _ => none, fun _ => 0, fun _ _ => none⟩

/-- Replace what is at a path. -/
def set (w : World) (p : Path) (content : Option ByteArray) : World :=
  { w with files := fun q => if q = p then content else w.files q }

@[simp] theorem set_files_self (w : World) (p : Path) (c : Option ByteArray) :
    (w.set p c).files p = c := if_pos rfl

theorem set_files_ne (w : World) {p q : Path} (c : Option ByteArray) (h : q ≠ p) :
    (w.set p c).files q = w.files q := if_neg h

@[simp] theorem set_counter (w : World) (p : Path) (c : Option ByteArray) :
    (w.set p c).counter = w.counter := rfl

@[simp] theorem set_owner (w : World) (p : Path) (c : Option ByteArray) :
    (w.set p c).owner = w.owner := rfl

/-- Thread `i` of process `pid` draws a number. -/
def draw (w : World) (i pid : Nat) : World where
  files := w.files
  counter := fun q => if q = pid then w.counter pid + 1 else w.counter q
  owner := fun q n => if q = pid ∧ n = w.counter pid then some i else w.owner q n

/-! ### Steps -/

/-- What the gateway does not control. -/
inductive Choice
  | fine
  | fault (text : String) (written : Nat)
  | uuid (id : String)
  | answer (result : Except String CallToolResult)

def Choice.isFault : Choice → Bool
  | .fault _ _ => true
  | _ => false

def notFound : IoError := ⟨.notFound, "No such file or directory (os error 2)"⟩
def alreadyExists : IoError := ⟨.alreadyExists, "File exists (os error 17)"⟩

/-- One operation of thread `i` of process `pid`. -/
def step (i pid : Nat) : Choice → (o : Op) → World → Option (Res o × World)
  | .fine, .createDirAll _, w => some (.ok (), w)
  | .fine, .pathExists p, w => some ((w.files p).isSome, w)
  | .fine, .read p, w => some ((w.files p).elim (.error notFound) .ok, w)
  | .fine, .createNew p, w =>
      if (w.files p).isSome then some (.error alreadyExists, w)
      else some (.ok (), w.set p (some ByteArray.empty))
  | .fine, .writeAll p bytes, w => some (.ok (), w.set p ((w.files p).map fun _ => bytes))
  | .fine, .syncAll _, w => some (.ok (), w)
  | .fine, .rename p q, w =>
      match w.files p with
      | some content => some (.ok (), (w.set p none).set q (some content))
      | none => some (.error notFound, w)
  | .fine, .removeFile p, w =>
      if (w.files p).isSome then some (.ok (), w.set p none) else some (.error notFound, w)
  | .fine, .fetchAdd, w => some (w.counter pid, w.draw i pid)
  | .fine, .processId, w => some (pid, w)
  | .fault e _, .createDirAll _, w => some (.error ⟨.other, e⟩, w)
  | .fault _ _, .pathExists _, w => some (false, w)
  | .fault e _, .read _, w => some (.error ⟨.other, e⟩, w)
  | .fault e _, .createNew _, w => some (.error ⟨.other, e⟩, w)
  | .fault e n, .writeAll p bytes, w =>
      some (.error ⟨.other, e⟩, w.set p ((w.files p).map fun _ => bytes.extract 0 n))
  | .fault e _, .syncAll _, w => some (.error ⟨.other, e⟩, w)
  | .fault e _, .rename _ _, w => some (.error ⟨.other, e⟩, w)
  | .fault e _, .removeFile _, w => some (.error ⟨.other, e⟩, w)
  | .uuid id, .uuidNow, w => some (id, w)
  | .answer result, .toolsCall _ _, w => some (result, w)
  | _, _, _ => none

/-- What an operation may do; faults strike only where `faults` holds. -/
def sem (faults : Prop) (i pid : Nat) : Program.Sem Op Res World := fun o w r w' =>
  ∃ c : Choice, (c.isFault = true → faults) ∧ step i pid c o w = some (r, w')

/-- A program run with nobody else about and no fault; `none` if it asks for
something only the outside can answer. -/
def alone {α : Type} (i pid : Nat) : Gateway α → World → Option (α × World)
  | .ret a, w => some (a, w)
  | .call o next, w =>
      match step i pid .fine o w with
      | some (r, w') => alone i pid (next r) w'
      | none => none

/-- The end of process `pid`: its temp files hold anything, its counter and
its numbers are gone. -/
structure crash (pid : Nat) (w w' : World) : Prop where
  files : ∀ p, ¬ p.IsTmpOf pid → w'.files p = w.files p
  leftover : ∀ p, w.files p = none → w'.files p = none
  counter : w'.counter = fun q => if q = pid then 0 else w.counter q
  owner : w'.owner = fun q n => if q = pid then none else w.owner q n

/-! ### What each operation can do -/

section Inversion

variable {faults : Prop} {i pid : Nat} {w w' : World}

/-- Operations that leave the world alone. -/
def Quiet : Op → Prop
  | .createDirAll _ | .pathExists _ | .read _ | .syncAll _ | .processId | .uuidNow
  | .toolsCall _ _ | .panic _ => True
  | _ => False

/-- What a run does besides computing: it sends requests, and it may panic. -/
def Running : Op → Prop
  | .toolsCall _ _ | .panic _ => True
  | _ => False

theorem Running.quiet {o : Op} (h : Running o) : Quiet o := by
  cases o <;> trivial

/-- The downstream may answer a request in any way. -/
theorem sem_running {o : Op} (ho : Running o) (r : Res o) (w : World) : sem faults i pid o w r w := by
  cases o with
  | toolsCall client params => exact ⟨.answer r, fun h => by (cases h), rfl⟩
  | panic message => exact nomatch r
  | _ => exact ho.elim

theorem sem_quiet {o : Op} {r : Res o} (ho : Quiet o) (h : sem faults i pid o w r w') :
    w' = w := by
  obtain ⟨c, -, h⟩ := h
  cases o <;> cases c <;> first
    | exact ho.elim
    | cases h; rfl
    | cases h

theorem sem_processId {r : Nat} (h : sem faults i pid .processId w r w') : r = pid := by
  obtain ⟨c, -, h⟩ := h
  cases c with
  | fine => cases h; rfl
  | fault e n => cases h
  | uuid id => cases h
  | answer result => cases h

theorem sem_fetchAdd {r : Nat} (h : sem faults i pid .fetchAdd w r w') :
    r = w.counter pid ∧ w' = w.draw i pid := by
  obtain ⟨c, -, h⟩ := h
  cases c with
  | fine => cases h; exact ⟨rfl, rfl⟩
  | fault e n => cases h
  | uuid id => cases h
  | answer result => cases h

theorem sem_pathExists {p : Path} {r : Bool} (h : sem faults i pid (.pathExists p) w r w') :
    r = (w.files p).isSome ∨ faults ∧ r = false := by
  obtain ⟨c, hf, h⟩ := h
  cases c with
  | fine => cases h; exact Or.inl rfl
  | fault e n => cases h; exact Or.inr ⟨hf rfl, rfl⟩
  | uuid id => cases h
  | answer result => cases h

theorem sem_read {p : Path} {r : Except IoError ByteArray}
    (h : sem faults i pid (.read p) w r w') :
    (∃ content, w.files p = some content ∧ r = .ok content) ∨
      (w.files p = none ∧ r = .error notFound) ∨
      (faults ∧ ∃ e, e.kind = .other ∧ r = .error e) := by
  obtain ⟨c, hf, h⟩ := h
  cases c with
  | fine =>
    simp only [step, Option.some.injEq, Prod.mk.injEq] at h
    cases hp : w.files p with
    | none => exact Or.inr (Or.inl ⟨rfl, by rw [← h.1, hp]; rfl⟩)
    | some content => exact Or.inl ⟨content, rfl, by rw [← h.1, hp]; rfl⟩
  | fault e n =>
    simp only [step, Option.some.injEq, Prod.mk.injEq] at h
    exact Or.inr (Or.inr ⟨hf rfl, _, rfl, h.1.symm⟩)
  | uuid id => cases h
  | answer result => cases h

theorem sem_createNew {p : Path} {r : Except IoError Unit}
    (h : sem faults i pid (.createNew p) w r w') :
    (∃ e, r = .error e ∧ w' = w ∧ (faults ∨ (w.files p).isSome)) ∨
      (r = .ok () ∧ w' = w.set p (some ByteArray.empty)) := by
  obtain ⟨c, hf, h⟩ := h
  cases c with
  | fine =>
    simp only [step] at h
    split at h
    case isTrue hp =>
      cases h
      exact Or.inl ⟨_, rfl, rfl, Or.inr hp⟩
    case isFalse =>
      cases h
      exact Or.inr ⟨rfl, rfl⟩
  | fault e n =>
    cases h
    exact Or.inl ⟨_, rfl, rfl, Or.inl (hf rfl)⟩
  | uuid id => cases h
  | answer result => cases h

theorem sem_writeAll {p : Path} {bytes : ByteArray} {r : Except IoError Unit}
    (h : sem faults i pid (.writeAll p bytes) w r w') :
    (∃ e content, r = .error e ∧ faults ∧ w' = w.set p content) ∨
      (r = .ok () ∧ w' = w.set p ((w.files p).map fun _ => bytes)) := by
  obtain ⟨c, hf, h⟩ := h
  cases c with
  | fine =>
    cases h
    exact Or.inr ⟨rfl, rfl⟩
  | fault e n =>
    cases h
    exact Or.inl ⟨_, _, rfl, hf rfl, rfl⟩
  | uuid id => cases h
  | answer result => cases h

theorem sem_syncAll {p : Path} {r : Except IoError Unit}
    (h : sem faults i pid (.syncAll p) w r w') : r = .ok () ∨ faults ∧ ∃ e, r = .error e := by
  obtain ⟨c, hf, h⟩ := h
  cases c with
  | fine =>
    cases h
    exact Or.inl rfl
  | fault e n =>
    cases h
    exact Or.inr ⟨hf rfl, _, rfl⟩
  | uuid id => cases h
  | answer result => cases h

theorem sem_rename {p q : Path} {r : Except IoError Unit}
    (h : sem faults i pid (.rename p q) w r w') :
    (∃ e, r = .error e ∧ w' = w ∧ (faults ∨ w.files p = none)) ∨
      (∃ content, r = .ok () ∧ w.files p = some content ∧
        w' = (w.set p none).set q (some content)) := by
  obtain ⟨c, hf, h⟩ := h
  cases c with
  | fine =>
    cases hp : w.files p with
    | none =>
      simp only [step, hp, Option.some.injEq, Prod.mk.injEq] at h
      exact Or.inl ⟨_, h.1.symm, h.2.symm, Or.inr rfl⟩
    | some content =>
      simp only [step, hp, Option.some.injEq, Prod.mk.injEq] at h
      exact Or.inr ⟨content, h.1.symm, rfl, h.2.symm⟩
  | fault e n =>
    cases h
    exact Or.inl ⟨_, rfl, rfl, Or.inl (hf rfl)⟩
  | uuid id => cases h
  | answer result => cases h

theorem sem_removeFile {p : Path} {r : Except IoError Unit}
    (h : sem faults i pid (.removeFile p) w r w') : w' = w ∨ w' = w.set p none := by
  obtain ⟨c, -, h⟩ := h
  cases c with
  | fine =>
    simp only [step] at h
    split at h
    case isTrue =>
      cases h
      exact Or.inr rfl
    case isFalse =>
      cases h
      exact Or.inl rfl
  | fault e n =>
    cases h
    exact Or.inl rfl
  | uuid id => cases h
  | answer result => cases h

end Inversion

end World

end ProvenoGateway
