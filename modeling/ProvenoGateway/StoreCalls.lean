/-
ProvenoGateway/StoreCalls.lean

Any number of callers of one store.

A `StoreCall` is one of the six functions of the store with its arguments; as
a thread it returns itself together with its answer, so that the pool tells
who was answered what.  `concurrent` is the system of all such threads, one
file-system step at a time.  Which steps are considered, where faults strike
and whether processes crash is left to a `Protocol`, so the same threads serve
every result about concurrent callers: `safe_put` and `safe_get` are what a
put and a get promise under any protocol.
-/
import ProvenoGateway.Protocol

namespace ProvenoGateway

open Program Interleave

/-! ### Calls and answers -/

inductive StoreCall
  | putTrace (trace : Trace)
  | putProgram (programHash source : String)
  | putDescription (descriptionHash text : String)
  | getTrace (traceId : String)
  | getProgram (programHash : String)
  | getDescription (descriptionHash : String)

inductive StoreAnswer
  | put (r : Except StoreError Unit)
  | trace (r : Except StoreError Trace)
  | text (r : Except StoreError String)

/-- The error of an answer. -/
def StoreAnswer.err : StoreAnswer → Option StoreError
  | put (.error e) | trace (.error e) | text (.error e) => some e
  | _ => none

namespace StoreCall

variable (deps : Deps) (store : TraceStore)

/-- The call made. -/
def run : StoreCall → Gateway StoreAnswer
  | putTrace t => do pure (.put (← store.putTrace deps t))
  | putProgram h source => do pure (.put (← store.putProgram h source))
  | putDescription h text => do pure (.put (← store.putDescription h text))
  | getTrace id => do pure (.trace (← store.getTrace deps id))
  | getProgram h => do pure (.text (← store.getProgram h))
  | getDescription h => do pure (.text (← store.getDescription h))

/-- The call as a thread: it returns itself and its answer. -/
def thread (c : StoreCall) : Gateway (StoreCall × StoreAnswer) := do
  pure (c, ← c.run deps store)

/-- The file of the call's key. -/
def path : StoreCall → Except StoreError Path
  | putTrace t => keyPath store.traces t.header.traceId "json"
  | getTrace id => keyPath store.traces id "json"
  | putProgram h _ | getProgram h => keyPath store.programs h "lua"
  | putDescription h _ | getDescription h => keyPath store.descriptions h "txt"

/-- What a put writes. -/
def content : StoreCall → Option ByteArray
  | putTrace t => some (t.toVec deps)
  | putProgram _ text | putDescription _ text => some text.toUTF8
  | _ => none

/-- The error of a put whose key is taken. -/
def refusal : StoreCall → StoreError
  | putTrace t => .traceExists t.header.traceId
  | putProgram h _ => .conflict "program" h
  | putDescription h _ => .conflict "description" h
  | getTrace id | getProgram id | getDescription id => .invalidKey id

/-- What a get makes of what it read; a put reads nothing. -/
def reading (c : StoreCall) (r : Except IoError ByteArray) : StoreAnswer :=
  match c, r with
  | getTrace _, .error e => .trace (.error (.io e))
  | getTrace _, .ok bytes =>
      match Trace.fromSlice deps bytes with
      | some trace => .trace (.ok trace)
      | none => .trace (.error (.json "cannot read the trace"))
  | _, .error e => .text (.error (.io e))
  | _, .ok bytes =>
      match String.fromUTF8? bytes with
      | some text => .text (.ok text)
      | none => .text (.error (.io ⟨.other, "stream did not contain valid UTF-8"⟩))

theorem reading_ne_put (c : StoreCall) (r : Except IoError ByteArray) (x : Except StoreError Unit) :
    c.reading deps r ≠ .put x := by
  cases r with
  | error e => cases c <;> simp [reading]
  | ok bytes =>
    cases ht : Trace.fromSlice deps bytes <;> cases hs : String.fromUTF8? bytes <;>
      cases c <;> simp [reading, ht, hs]

end StoreCall

/-! ### The system of callers -/

abbrev CallerPool : Type := Pool Op Res Nat (StoreCall × StoreAnswer)

/-- Any number of callers of one store; `admits` says who may start what. -/
def callers (C : Setting) (deps : Deps) (store : TraceStore)
    (admits : Nat → StoreCall → World → Prop) :
    System Op Res World Nat (StoreCall × StoreAnswer) :=
  C.system fun i _ p w => ∃ c, admits i c w ∧ p = c.thread deps store

/-- A move of a schedule: a call starts, or a thread takes its next step. -/
inductive Move
  | start (i pid : Nat) (c : StoreCall)
  | turn (i : Nat)

def Move.play (deps : Deps) (store : TraceStore) (check : Op → World → Bool) :
    Move → CallerPool × World → Option (CallerPool × World)
  | start i pid c, (pool, w) =>
      match pool i with
      | none => some (pool.set i ⟨pid, c.thread deps store⟩, w)
      | some _ => none
  | turn i, (pool, w) =>
      match pool i with
      | some ⟨pid, .call o next⟩ =>
          if check o w then
            (World.step i pid .fine o w).map fun y => (pool.set i ⟨pid, next y.1⟩, y.2)
          else none
      | _ => none

/-- The schedule, if every step of it passes `check`. -/
def play (deps : Deps) (store : TraceStore) (check : Op → World → Bool) :
    List Move → CallerPool × World → Option (CallerPool × World)
  | [], x => some x
  | m :: ms, x => (m.play deps store check x).bind (play deps store check ms)

section Play

variable {C : Setting} {deps : Deps} {store : TraceStore} {admits : Nat → StoreCall → World → Prop}
  {check : Op → World → Bool}

theorem Move.play_step (hcheck : ∀ i o w, check o w = true → C.allowed i o w)
    {m : Move} (hadmits : ∀ i pid c w, m = .start i pid c → admits i c w)
    {x y : CallerPool × World} (h : m.play deps store check x = some y) :
    Step (callers C deps store admits) x y := by
  obtain ⟨pool, w⟩ := x
  cases m with
  | start i pid c =>
    simp only [Move.play] at h
    split at h
    case h_1 hi =>
      cases h
      exact Step.spawn i pid _ hi ⟨c, hadmits i pid c w rfl, rfl⟩
    case h_2 => cases h
  | turn i =>
    simp only [Move.play] at h
    split at h
    case h_1 pid o next hi =>
      split at h
      case isTrue hc =>
        obtain ⟨⟨r, w'⟩, hstep, rfl⟩ := Option.map_eq_some_iff.mp h
        have hsem : C.sem i pid o w r w' := ⟨hcheck i o w hc, .fine, fun hf => by (cases hf), hstep⟩
        exact Step.run i pid o next r hi hsem
      case isFalse => cases h
    case h_2 => cases h

/-- What a schedule does is a run. -/
theorem play_steps (hcheck : ∀ i o w, check o w = true → C.allowed i o w)
    {ms : List Move} (hadmits : ∀ i pid c w, .start i pid c ∈ ms → admits i c w)
    {x y : CallerPool × World} (h : play deps store check ms x = some y) :
    Steps (callers C deps store admits) x y := by
  induction ms generalizing x with
  | nil =>
    cases h
    exact Relation.ReflTransGen.refl
  | cons m ms ih =>
    obtain ⟨x', hm, hms⟩ := Option.bind_eq_some_iff.mp h
    have hstep := Move.play_step hcheck
      (fun i pid c w he => hadmits i pid c w (by rw [← he]; exact List.mem_cons_self)) hm
    refine Relation.ReflTransGen.head hstep (ih ?_ hms)
    exact fun i pid c w hmem => hadmits i pid c w (List.mem_cons_of_mem _ hmem)

end Play

/-! ### Keys and contents -/

/-- The get is for the key of the put, and this is its answer if it finds what
was put. -/
inductive Fetches : StoreCall → StoreCall → StoreAnswer → Prop
  | trace (t : Trace) : Fetches (.putTrace t) (.getTrace t.header.traceId) (.trace (.ok t))
  | program (h source : String) :
      Fetches (.putProgram h source) (.getProgram h) (.text (.ok source))
  | description (h text : String) :
      Fetches (.putDescription h text) (.getDescription h) (.text (.ok text))

/-- Two puts for one key with different contents. -/
inductive Rival : StoreCall → StoreCall → Prop
  | trace {t t' : Trace} : t.header.traceId = t'.header.traceId → t ≠ t' →
      Rival (.putTrace t) (.putTrace t')
  | program (h : String) {source source' : String} : source ≠ source' →
      Rival (.putProgram h source) (.putProgram h source')
  | description (h : String) {text text' : String} : text ≠ text' →
      Rival (.putDescription h text) (.putDescription h text')

section Keys

variable {deps : Deps} {store : TraceStore} {put get put' : StoreCall} {a : StoreAnswer}

theorem toUTF8_injective {s t : String} (h : s.toUTF8 = t.toUTF8) : s = t := by
  have hs := Json.fromUTF8_toUTF8 s
  rw [h, Json.fromUTF8_toUTF8] at hs
  exact (Option.some.inj hs).symm

/-- A get reads back what was put. -/
theorem Fetches.reading (store : TraceStore) (codec : RecordCodec deps) (h : Fetches put get a) :
    get.path store = put.path store ∧
      ∃ bytes, put.content deps = some bytes ∧ get.reading deps (.ok bytes) = a := by
  cases h with
  | trace t =>
    refine ⟨rfl, _, rfl, ?_⟩
    simp only [StoreCall.reading, t.fromSlice_toVec codec]
  | program h source =>
    refine ⟨rfl, _, rfl, ?_⟩
    simp only [StoreCall.reading, Json.fromUTF8_toUTF8]
  | description h text =>
    refine ⟨rfl, _, rfl, ?_⟩
    simp only [StoreCall.reading, Json.fromUTF8_toUTF8]

theorem Fetches.get_content (deps : Deps) (h : Fetches put get a) : get.content deps = none := by
  cases h <;> rfl

/-- Rivals write different bytes to one file. -/
theorem Rival.differ (store : TraceStore) (codec : RecordCodec deps) (h : Rival put put') :
    put'.path store = put.path store ∧ ∃ bytes bytes', put.content deps = some bytes ∧
      put'.content deps = some bytes' ∧ bytes ≠ bytes' := by
  cases h with
  | trace hid hne =>
    refine ⟨?_, _, _, rfl, rfl, fun h => hne (Trace.toVec_injective codec h)⟩
    simp only [StoreCall.path, hid]
  | program h hne => exact ⟨rfl, _, _, rfl, rfl, fun h => hne (toUTF8_injective h)⟩
  | description h hne => exact ⟨rfl, _, _, rfl, rfl, fun h => hne (toUTF8_injective h)⟩

theorem not_isTmp_of_path {c : StoreCall} {p : Path} (h : c.path store = .ok p) : ¬ p.IsTmp := by
  cases c <;> exact not_isTmp_of_keyPath h

end Keys

/-! ### What a call promises -/

namespace StoreCall

variable {P : Protocol} {deps : Deps} {store : TraceStore} {i pid : Nat} {w : World}
  {c : StoreCall} {p : Path} {bytes : ByteArray}

/-- A put under any protocol. -/
theorem safe_put (hv : P.Valid w) (hc : c.content deps = some bytes) (hp : c.path store = .ok p)
    (hpub : P.CanPublish i p bytes w.visible) :
    P.Safe i pid (fun a w' => a.1 = c ∧ ∃ r, a.2 = .put r ∧
      P.Put i pid p bytes w.visible c.refusal r w') (c.thread deps store) w := by
  -- the thread is the put, and then its answer wrapped up
  have wrap : ∀ {put : Gateway (Except StoreError Unit)},
      P.Safe i pid (P.Put i pid p bytes w.visible c.refusal) put w →
      P.Safe i pid (fun a w' => a.1 = c ∧ ∃ r, a.2 = .put r ∧
        P.Put i pid p bytes w.visible c.refusal r w')
        ((put >>= fun r => pure (StoreAnswer.put r)) >>= fun a => pure (c, a)) w := by
    intro put hput
    rw [Program.bind_assoc]
    refine Interleave.Safe.bind Protocol.Keeps.refl hv hput ?_
    intro r w₁ _ hr
    apply Protocol.Safe.ret
    intro w₂ _ hk
    refine ⟨rfl, r, rfl, ⟨fun h => ?_, fun h => ?_, hr.failed⟩⟩
    · obtain ⟨V, hi, hb, hrel⟩ := hr.stored h
      exact ⟨V, hi, hb, P.rely_trans i hrel hk.visible⟩
    · obtain ⟨V, b, hi, h₀, hb, hrel⟩ := hr.refused h
      exact ⟨V, b, hi, h₀, hb, P.rely_trans i hrel hk.visible⟩
  cases c with
  | putTrace t =>
    cases hc
    apply wrap
    exact Protocol.safe_putTrace hp hpub
  | putProgram h source =>
    cases hc
    apply wrap
    have hp' : keyPath store.programs h "lua" = .ok p := hp
    simp only [TraceStore.putProgram, hp']
    exact Protocol.safe_putContentAddressed (not_isTmp_of_keyPath hp') hpub
  | putDescription h text =>
    cases hc
    apply wrap
    have hp' : keyPath store.descriptions h "txt" = .ok p := hp
    simp only [TraceStore.putDescription, hp']
    exact Protocol.safe_putContentAddressed (not_isTmp_of_keyPath hp') hpub
  | getTrace id => cases hc
  | getProgram h => cases hc
  | getDescription h => cases hc

/-- A get is a read and what is made of it. -/
theorem thread_get (hc : c.content deps = none) (hp : c.path store = .ok p) :
    c.thread deps store = Fs.read p >>= fun r => pure (c, c.reading deps r) := by
  cases c with
  | putTrace t => cases hc
  | putProgram h source => cases hc
  | putDescription h text => cases hc
  | getTrace id =>
    have hp' : keyPath store.traces id "json" = .ok p := hp
    simp only [thread, run, TraceStore.getTrace, hp', op_bind, call_bind, pure_eq]
    congr 1
    funext r
    cases r with
    | error e => rfl
    | ok bytes => cases hr : Trace.fromSlice deps bytes <;> simp [reading, hr]
  | getProgram h =>
    have hp' : keyPath store.programs h "lua" = .ok p := hp
    simp only [thread, run, TraceStore.getProgram, readToString, hp', op_bind, call_bind, pure_eq]
    congr 1
    funext r
    cases r with
    | error e => rfl
    | ok bytes => cases hr : String.fromUTF8? bytes <;> simp [reading, hr]
  | getDescription h =>
    have hp' : keyPath store.descriptions h "txt" = .ok p := hp
    simp only [thread, run, TraceStore.getDescription, readToString, hp', op_bind, call_bind,
      pure_eq]
    congr 1
    funext r
    cases r with
    | error e => rfl
    | ok bytes => cases hr : String.fromUTF8? bytes <;> simp [reading, hr]

/-- A get under any protocol. -/
theorem safe_get (hv : P.Valid w) (hc : c.content deps = none) (hp : c.path store = .ok p) :
    P.Safe i pid (fun a w' => a.1 = c ∧ ∃ r, a.2 = c.reading deps r ∧ P.Got i p w.visible r w')
      (c.thread deps store) w := by
  rw [thread_get hc hp]
  refine Interleave.Safe.bind Protocol.Keeps.refl hv
    (Protocol.safe_read (not_isTmp_of_path hp)) ?_
  intro r w₁ _ hr
  apply Protocol.Safe.ret
  intro w₂ _ hk
  refine ⟨rfl, r, rfl, ⟨?_⟩⟩
  rcases hr.seen with hf | ⟨V, hi, h₀, h₁, h⟩
  · exact Or.inl hf
  · exact Or.inr ⟨V, hi, h₀, P.rely_trans i h₁ hk.visible, h⟩

/-- A get started while the file holds what was put, and keeps it, returns
what was put unless a fault strikes. -/
theorem safe_fetch (codec : RecordCodec deps) {put get : StoreCall} {b : StoreAnswer}
    (hv : P.Valid w) (hf : Fetches put get b) (hc : put.content deps = some bytes)
    (hp : put.path store = .ok p) (hfile : w.visible p = some bytes)
    (hkeep : ∀ V V', P.rely i V V' → V p = some bytes → V' p = some bytes)
    (hself : P.Safe i pid (fun a _ => a.1 = c) (c.thread deps store) w) :
    P.Safe i pid (fun a _ => ¬ P.faults i → a.1 = get → a.2 = b) (c.thread deps store) w := by
  by_cases hcg : c = get
  · subst hcg
    obtain ⟨hpath, bytes', hc', hread⟩ := hf.reading store codec
    rw [hc] at hc'
    cases hc'
    have hsafe : P.Safe i pid _ (c.thread deps store) w :=
      safe_get hv (hf.get_content deps) (hpath.trans hp)
    refine Interleave.Safe.weaken hsafe ?_
    rintro a v _ ⟨-, r, hr, hgot⟩ hfaults _
    rcases hgot.seen with hfault | ⟨V, -, hV, -, rfl⟩
    · exact absurd hfault hfaults
    · rw [hr, hkeep _ _ hV hfile]
      exact hread
  · refine Interleave.Safe.weaken hself ?_
    intro a v _ hcall _ hget
    exact absurd (hcall.symm.trans hget) hcg

/-- A call with an invalid key returns the error at once. -/
theorem thread_invalid (deps : Deps) {e : StoreError} (hp : c.path store = .error e) :
    ∃ a, c.thread deps store = .ret (c, a) ∧ a.err = some e := by
  cases c with
  | putTrace t =>
    have hp' : keyPath store.traces t.header.traceId "json" = .error e := hp
    refine ⟨.put (.error e), ?_, rfl⟩
    simp [thread, run, TraceStore.putTrace, hp']
  | putProgram h source =>
    have hp' : keyPath store.programs h "lua" = .error e := hp
    refine ⟨.put (.error e), ?_, rfl⟩
    simp [thread, run, TraceStore.putProgram, hp']
  | putDescription h text =>
    have hp' : keyPath store.descriptions h "txt" = .error e := hp
    refine ⟨.put (.error e), ?_, rfl⟩
    simp [thread, run, TraceStore.putDescription, hp']
  | getTrace id =>
    have hp' : keyPath store.traces id "json" = .error e := hp
    refine ⟨.trace (.error e), ?_, rfl⟩
    simp [thread, run, TraceStore.getTrace, hp']
  | getProgram h =>
    have hp' : keyPath store.programs h "lua" = .error e := hp
    refine ⟨.text (.error e), ?_, rfl⟩
    simp [thread, run, TraceStore.getProgram, hp']
  | getDescription h =>
    have hp' : keyPath store.descriptions h "txt" = .error e := hp
    refine ⟨.text (.error e), ?_, rfl⟩
    simp [thread, run, TraceStore.getDescription, hp']

end StoreCall

end ProvenoGateway
