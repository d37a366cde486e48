/-
ProvenoGateway/Receipts.lean

A response is a receipt.

Whoever is answered by an execute holds the id of a trace.  That trace is in
the store by then, says what was asked and what was answered, and stays:
whatever other executes, faults and crashes do from that moment on, it is
read back and its replay agrees with the answer (`responses_kept`).

The one thing taken for granted is that a put of a trace still finds its name
free when it renames (`TraceStands`).  `put_trace` looks first and renames
later, so two executes with one id could both succeed.
-/
import ProvenoGateway.Attribution
import ProvenoGateway.Rerun

namespace ProvenoGateway

open Program Interleave

/-! ### The protocol -/

/-- A rename to a name under `traces` finds it free, or the same content. -/
def TraceStands (store : TraceStore) : Op → World → Prop
  | .rename tmp target, w => target.parent = store.traces →
      w.files target = none ∨ w.files target = w.files tmp
  | _, _ => True

theorem TracesStay.trans {store : TraceStore} {V V' V'' : Files} (h : TracesStay store V V')
    (h' : TracesStay store V' V'') : TracesStay store V V'' :=
  fun p bytes hp hV => h' p bytes hp (h p bytes hp hV)

/-- The stored traces stay, which is all that the threads promise. -/
def keeping (store : TraceStore) : Protocol where
  toSetting := .crashing (fun _ => True) fun _ => TraceStands store
  inv _ := True
  rely _ := TracesStay store
  guar _ := TracesStay store
  rely_refl _ _ := fun _ _ _ h => h
  rely_trans _ := TracesStay.trans
  guar_refl _ _ := fun _ _ _ h => h
  compat _ _ _ _ _ _ := fun h => h

theorem keeping_canPublish (store : TraceStore) (i : Nat) (path : Path) (bytes : ByteArray)
    (V : Files) : (keeping store).CanPublish i path bytes V := by
  intro w tmp _ _ htmp hallowed
  refine ⟨trivial, fun p content hp hcontent => ?_⟩
  by_cases hpp : p = path
  · subst hpp
    have htmp' : ¬ p.IsTmp := by
      intro h
      rw [World.visible_of_tmp h] at hcontent
      cases hcontent
    rw [World.visible_of_not_tmp htmp'] at hcontent
    -- the name is taken, so it holds the same content
    have hsame : w.files p = w.files tmp := by
      rcases hallowed hp with h | h
      · rw [hcontent] at h
        cases h
      · exact h
    rw [Function.update_self, ← htmp, ← hsame, hcontent]
  · rw [Function.update_of_ne hpp]
    exact hcontent

theorem Holds.kept {store : TraceStore} {w w' : World} {name ext : String} {bytes : ByteArray}
    (h : Holds w store.traces name ext bytes) (hstay : TracesStay store w.visible w'.visible) :
    Holds w' store.traces name ext bytes := by
  obtain ⟨p, hp, hfile⟩ := h
  have htmp := not_isTmp_of_keyPath hp
  rw [← World.visible_of_not_tmp htmp] at hfile
  have hfile' := hstay p bytes (parent_of_keyPath hp) hfile
  rw [World.visible_of_not_tmp htmp] at hfile'
  exact ⟨p, hp, hfile'⟩

/-! ### Receipts -/

/-- An execute with its arguments. -/
structure ExecuteCall where
  engine : Engine
  principal : String
  req : ExecuteRequest

section Receipts

variable (deps : Deps)

/-- The execute as a thread: it returns itself and its answer. -/
def ExecuteCall.thread (c : ExecuteCall) :
    Gateway (ExecuteCall × Except ExecuteError ExecuteResponse) := do
  pure (c, ← c.engine.execute deps c.principal c.req)

/-- The result of a response is what the recorded output stands for. -/
inductive ResultOf : Option String → Option Json → Prop
  | none : ResultOf none none
  | some {json : String} {value : Json} : deps.fromStr json = .ok value →
      ResultOf (some json) (some value)

/-- The trace of a call says what was asked and what was answered. -/
structure Receipt (c : ExecuteCall) (response : ExecuteResponse) (t : Trace) : Prop where
  id : t.header.traceId = response.traceId
  principal : t.header.principal = c.principal
  session : t.header.session = c.req.session
  request : t.header.request = c.req.request
  program : ∃ program, compileProgram deps (c.engine.descriptionFor deps c.principal).prelude
    c.req.program = .ok program ∧ t.header.programHash = Hex.encode (deps.programHash program).val
  description : t.header.descriptionHash =
    Hex.encode (c.engine.descriptionFor deps c.principal).hash.val
  policy : t.header.gatewayPolicyHash = Hex.encode (c.engine.policy.policyHash deps).val
  config : t.header.vmConfig = c.engine.vm
  status : t.footer.status = response.status
  result : ResultOf deps t.footer.output response.result
  signed : t.sign deps c.engine.signingKey = t

/-- What an answer promises: a response has its receipt in the store. -/
def Kept (store : TraceStore) (a : ExecuteCall × Except ExecuteError ExecuteResponse)
    (w : World) : Prop :=
  ∀ response, a.2 = .ok response → ∃ t, Receipt deps a.1 response t ∧
    Holds w store.traces response.traceId "json" (t.toVec deps)

variable {deps} {i pid : Nat} {w : World} {engine : Engine}

/-- Answering: the trace is there, and the answer is made of it. -/
theorem keeping_respond {prepared : Engine.Prepared deps} {t : Trace} {status : RunStatus}
    {stored : Except StoreError Unit}
    (hfiled : stored = .ok () → Holds w engine.store.traces prepared.traceId "json" (t.toVec deps)) :
    (keeping engine.store).Safe i pid
      (fun a w' => ∀ response, a = .ok response → response.traceId = prepared.traceId ∧
        response.status = status ∧ ResultOf deps t.footer.output response.result ∧
        Holds w' engine.store.traces prepared.traceId "json" (t.toVec deps))
      (Engine.respond deps prepared t status stored) w := by
  cases stored with
  | error e => exact Protocol.Safe.ret fun _ _ _ _ h => by cases h
  | ok u =>
    cases hout : t.footer.output with
    | none =>
      simp only [Engine.respond, hout]
      apply Protocol.Safe.ret
      rintro w' - hk response ⟨⟩
      exact ⟨rfl, rfl, .none, (hfiled rfl).kept hk.visible⟩
    | some json =>
      cases hjson : deps.fromStr json with
      | ok value =>
        simp only [Engine.respond, hout, hjson]
        apply Protocol.Safe.ret
        rintro w' - hk response ⟨⟩
        exact ⟨rfl, rfl, .some hjson, (hfiled rfl).kept hk.visible⟩
      | error e =>
        -- the output would not be JSON: a panic
        simp only [Engine.respond, hout, hjson]
        exact fun _ r => Empty.elim r

theorem keeping_finish {prepared : Engine.Prepared deps} {run : Engine.RunResult}
    (hv : (keeping engine.store).Valid w) :
    (keeping engine.store).Safe i pid
      (fun a w' => ∀ response, a = .ok response → response.traceId = prepared.traceId ∧
        response.status = run.outcome.status ∧
        ResultOf deps run.outcome.output response.result ∧
        Holds w' engine.store.traces prepared.traceId "json"
          ((engine.signedTrace deps prepared run).toVec deps))
      (engine.finish deps prepared run) w := by
  have hput : (keeping engine.store).Safe i pid
      (fun stored w' => stored = .ok () → Holds w' engine.store.traces prepared.traceId "json"
        ((engine.signedTrace deps prepared run).toVec deps))
      (engine.store.putTrace deps (engine.signedTrace deps prepared run)) w := by
    rcases hp : keyPath engine.store.traces (engine.signedTrace deps prepared run).header.traceId
      "json" with e | p
    · simp only [TraceStore.putTrace, hp]
      exact Protocol.Safe.ret fun _ _ _ h => by cases h
    · refine Interleave.Safe.weaken (Protocol.safe_putTrace hp (keeping_canPublish _ _ _ _ _)) ?_
      intro stored w' _ hput hok
      obtain ⟨V, -, hV, hstay⟩ := hput.stored hok
      have hfile := hstay p _ (parent_of_keyPath hp) hV
      rw [World.visible_of_not_tmp (not_isTmp_of_keyPath hp)] at hfile
      exact ⟨p, hp, hfile⟩
  exact Interleave.Safe.bind Protocol.Keeps.refl hv hput fun _ _ _ hfiled => keeping_respond hfiled

/-- **One execute**: a response that it returns has its receipt. -/
theorem keeping_thread (c : ExecuteCall) (hstore : c.engine.store.Separate)
    (hv : (keeping c.engine.store).Valid w) :
    (keeping c.engine.store).Safe i pid (Kept deps c.engine.store) (c.thread deps) w := by
  have hexecute : (keeping c.engine.store).Safe i pid
      (fun a => Kept deps c.engine.store (c, a))
      (c.engine.execute deps c.principal c.req) w := by
    refine Interleave.Safe.andThen Protocol.Keeps.refl hv (Interleave.Safe.runs
      (Protocol.safe_prepare hstore (fun p bytes V _ => keeping_canPublish _ _ p bytes V)
        c.principal c.req hv)) ?_ fun _ _ _ _ => Protocol.Safe.ret fun _ _ _ _ h => by cases h
    rintro prepared w₁ hv₁ ⟨⟨evs, hprepare⟩, -⟩
    obtain ⟨program, traceId, hcompiled, rfl⟩ := prepare_ok hprepare
    refine Interleave.Safe.bind Protocol.Keeps.refl hv₁ (Protocol.safe_run c.engine _ w₁) ?_
    intro run w₂ hv₂ _
    refine Interleave.Safe.weaken (keeping_finish hv₂) ?_
    intro a w' _ h response ha
    obtain ⟨hid, hstatus, hresult, hfiled⟩ := h response ha
    refine ⟨c.engine.signedTrace deps _ run, ?_, hid ▸ hfiled⟩
    exact {
      id := hid.symm
      principal := rfl
      session := rfl
      request := rfl
      program := ⟨program, hcompiled, rfl⟩
      description := rfl
      policy := rfl
      config := rfl
      status := hstatus.symm
      result := hresult
      signed := Trace.sign_sign _ _ }
  refine Interleave.Safe.bind Protocol.Keeps.refl hv hexecute ?_
  intro a w₁ _ hkept
  apply Protocol.Safe.ret
  intro w₂ _ hk response ha
  obtain ⟨t, ht, hfiled⟩ := hkept response ha
  exact ⟨t, ht, hfiled.kept hk.visible⟩

end Receipts

/-! ### Every interleaving of executes -/

/-- Engines with one key on one store directory, each execute a thread. -/
def answering (deps : Deps) (key : SigningKey) (dir : String) :
    System Op Res World Nat (ExecuteCall × Except ExecuteError ExecuteResponse) :=
  (Setting.crashing (fun _ => True) fun _ => TraceStands (.under dir)).system fun _ _ p _ =>
    ∃ c : ExecuteCall, c.engine.signingKey = key ∧ c.engine.store = .under dir ∧ p = c.thread deps

def keepingRules (deps : Deps) (key : SigningKey) (dir : String) :
    Rules (answering deps key dir) :=
  (keeping (.under dir)).rules _ (fun _ _ => Kept deps (.under dir)) (by
    rintro i pid p w ⟨c, -, hstore, rfl⟩ hv
    rw [← hstore] at hv ⊢
    refine keeping_thread c ?_ hv
    rw [hstore]
    exact TraceStore.under_separate dir)

section Answering

variable {deps : Deps} {key : SigningKey} {dir : String}
variable {x y : Pool Op Res Nat (ExecuteCall × Except ExecuteError ExecuteResponse) × World}

theorem answering_holds (h : Steps (answering deps key dir) (Pool.empty, World.empty) x) :
    (keepingRules deps key dir).Holds x :=
  Rules.Holds.steps (.init ⟨fun _ _ _ => rfl, fun hu => hu.elim, trivial⟩) h

/-- What is stored stays, through every later step. -/
theorem answering_stays (h : Steps (answering deps key dir) (Pool.empty, World.empty) x)
    (hxy : Steps (answering deps key dir) x y) :
    TracesStay (.under dir) x.2.visible y.2.visible := by
  refine Rules.Holds.evolves (fun w w' => TracesStay (.under dir) w.visible w'.visible)
    (fun _ _ _ _ h => h) ?_ ?_ ?_ (answering_holds h) hxy
  · intro a b c hab hbc
    exact hab.trans hbc
  · exact fun _ _ _ _ hdoes => hdoes.visible
  · rintro pid w w' ⟨-, hcrash⟩
    rw [World.visible_crash hcrash]
    exact fun _ _ _ h => h

/-- The same runs keep the store in order. -/
theorem answering_integrity (h : Steps (answering deps key dir) (Pool.empty, World.empty) x) :
    Integrity deps key (.under dir) x.2.visible := by
  let spawn : Nat → Nat → Program Op Res (ExecuteCall × Except ExecuteError ExecuteResponse) →
      World → Prop := fun _ _ p _ => ∃ c : ExecuteCall,
    c.engine.signingKey = key ∧ c.engine.store = .under dir ∧ p = c.thread deps
  let rules : Rules ((integrity deps key (.under dir)).system spawn) :=
    (integrity deps key (.under dir)).rules spawn (fun _ _ _ _ => True) (by
      rintro i pid p w ⟨c, hkey, hstore, rfl⟩ hv
      have hseparate : c.engine.store.Separate := by
        rw [hstore]
        exact TraceStore.under_separate dir
      rw [← hstore] at hv ⊢
      exact Interleave.Safe.bind Protocol.Keeps.refl hv
        (safe_execute hseparate hkey c.principal c.req hv)
        fun _ _ _ _ => Protocol.Safe.ret fun _ _ _ => trivial)
  have hsteps : Steps ((integrity deps key (.under dir)).system spawn)
      (Pool.empty, World.empty) x := by
    apply Steps.mono ?_ ?_ ?_ h
    · exact fun _ _ _ _ _ _ hsem => ⟨trivial, hsem.2⟩
    · exact fun _ _ _ _ hspawn => hspawn
    · exact fun _ _ _ hcrash => hcrash
  have hvalid : (integrity deps key (.under dir)).Valid World.empty :=
    ⟨fun _ _ _ => rfl, fun hu => hu.elim, integrity_empty _⟩
  have hx : rules.Holds x := Rules.Holds.steps (.init hvalid) hsteps
  exact hx.valid.inv

/-- **A response is a receipt.**  Once an execute has returned a response, its
trace is in the store under the id of the response, says what was asked and
what was answered, and is signed; and in every later state, whatever the other
executes, faults and crashes did since, it is read back and its replay
agrees. -/
theorem responses_kept {decode : String → deps.Table}
    {At : deps.Tape → List ToolCallRecord → Prop} (codec : RecordCodec deps) (ed : Ed25519 deps)
    (vm : CoreVm deps decode) (tapes : StrictTape deps decode At) {env : String → Option String}
    {config : GatewayConfig} (hkey : replayKey env config = .ok key)
    (h : Steps (answering deps key config.store.dir) (Pool.empty, World.empty) x)
    {i pid : Nat} {c : ExecuteCall} {response : ExecuteResponse}
    (hi : x.1 i = some ⟨pid, ret (c, .ok response)⟩)
    (hxy : Steps (answering deps key config.store.dir) x y) (j u : Nat) :
    ∃ t, Receipt deps c response t ∧ t.verify deps (deps.verifyingKey key) = .ok () ∧
      World.alone j u ((TraceStore.under config.store.dir).getTrace deps response.traceId) y.2 =
        some (.ok t, y.2) ∧
      ∃ report, World.alone j u (replay deps env config response.traceId) y.2 =
        some (.ok report, y.2) ∧ Agrees t report := by
  have hkept : Kept deps (.under config.store.dir) (c, .ok response) x.2 :=
    (answering_holds h).returned hi
  obtain ⟨t, hreceipt, hfiled⟩ := hkept response rfl
  exact ⟨t, hreceipt, (answering_integrity (h.trans hxy)).replays codec ed vm tapes hkey
    (hfiled.kept (answering_stays h hxy)) j u⟩

end Answering

/-! ### At the instance -/

/-- A new trace is put where every step of the put is allowed as long as its
name is free. -/
theorem exec_putTrace {C : Setting} {i pid : Nat} {w : World} {path : Path} {deps : Deps}
    {store : TraceStore} {t : Trace} (hkey : keyPath store.traces t.header.traceId "json" = .ok path)
    (hnew : w.files path = none) (htmp : ∀ q, q.IsTmp → w.files q = none)
    (hallowed : ∀ o w', w'.files path = none → Storing (· = path) o → C.allowed i o w') :
    ∃ w', Exec (C.sem i pid) (store.putTrace deps t) w (.ok ()) w' := by
  let tmp : Path := ⟨path.parent, tmpName pid (w.counter pid)⟩
  have hne : path ≠ tmp := fun h => not_isTmp_of_keyPath hkey (h ▸ ⟨pid, _, rfl⟩)
  have hstep : ∀ (o : Op) (r : Res o) (u u' : World), Storing (· = path) o →
      u.files path = none → World.step i pid .fine o u = some (r, u') → C.sem i pid o u r u' :=
    fun o r u u' ho hfree h => ⟨hallowed o u hfree ho, .fine, fun hf => by (cases hf), h⟩
  let w₁ := w.draw i pid
  let w₂ := w₁.set tmp (some ByteArray.empty)
  let w₃ := w₂.set tmp (some (t.toVec deps))
  have h₁ : w₁.files path = none := hnew
  have h₂ : w₂.files path = none := (World.set_files_ne _ _ hne).trans h₁
  have h₃ : w₃.files path = none := (World.set_files_ne _ _ hne).trans h₂
  have hfree : w₁.files tmp = none := htmp tmp ⟨pid, _, rfl⟩
  have hempty : w₂.files tmp = some ByteArray.empty := World.set_files_self _ _ _
  have hfull : w₃.files tmp = some (t.toVec deps) := World.set_files_self _ _ _
  refine ⟨(w₃.set tmp none).set path (some (t.toVec deps)), ?_⟩
  simp only [TraceStore.putTrace, hkey]
  have hexists : World.step i pid .fine (.pathExists path) w = some (false, w) := by
    simp [World.step, hnew]
  have hcreate : World.step i pid .fine (.createNew tmp) w₁ = some (Except.ok (), w₂) := by
    simp [World.step, hfree, w₂]
  have hwrite : World.step i pid .fine (.writeAll tmp (t.toVec deps)) w₂ =
      some (Except.ok (), w₃) := by
    simp [World.step, hempty, w₃]
  have hrename : World.step i pid .fine (.rename tmp path) w₃ =
      some (Except.ok (), (w₃.set tmp none).set path (some (t.toVec deps))) := by
    simp [World.step, hfull]
  refine Exec.call (Op.pathExists path) _ (hstep (.pathExists path) _ _ _ trivial hnew hexists) ?_
  refine Exec.call Op.processId _ (hstep .processId pid w w trivial hnew rfl) ?_
  refine Exec.call Op.fetchAdd _ (hstep .fetchAdd (w.counter pid) w w₁ trivial hnew rfl) ?_
  refine Exec.call (Op.createNew tmp) _ (hstep (.createNew tmp) _ _ _ trivial h₁ hcreate) ?_
  refine Exec.call (Op.writeAll tmp _) _ (hstep (.writeAll tmp _) _ _ _ trivial h₂ hwrite) ?_
  refine Exec.call (Op.syncAll tmp) _ (hstep (.syncAll tmp) _ _ _ trivial h₃ rfl) ?_
  refine Exec.call (Op.rename tmp path) _ (hstep (.rename tmp path) _ _ _ rfl h₃ hrename) ?_
  exact Exec.ret _ _

/-- What the store's operations but its renames do is always allowed, and so is
a rename beside the traces. -/
theorem TraceStands.beside {store : TraceStore} {o : Op} (w : World)
    (ho : Storing (fun p => p.parent ≠ store.traces) o) : TraceStands store o w := by
  cases o with
  | rename tmp q => exact fun hq => absurd hq ho
  | _ => trivial

theorem TraceStands.free {store : TraceStore} {path : Path} {o : Op} {w : World}
    (hfree : w.files path = none) (ho : Storing (· = path) o) : TraceStands store o w := by
  cases o with
  | rename tmp q =>
    have hq : q = path := ho
    subst hq
    exact fun _ => Or.inl hfree
  | _ => trivial

/-- An execute that nothing disturbs returns, and the rename of its trace
finds the name free. -/
theorem answered_alone {deps : Deps} {key : SigningKey} {dir : String} (c : ExecuteCall)
    (hkey : c.engine.signingKey = key) (hdir : c.engine.store = .under dir)
    {program : deps.CompiledProgram} (hcompiled : compileProgram deps
      (build deps (c.engine.allowedSchemas c.principal)).prelude c.req.program = .ok program)
    {traceId : String} (hid : validKey traceId = true) {evs : List (Event Op Res)}
    {run : Engine.RunResult} (hrun : Runs (c.engine.runThread deps
      (c.engine.preparedOf deps c.principal c.req program traceId)) evs run)
    (hout : ∀ json, run.outcome.output = some json → ∃ v, deps.fromStr json = .ok v) :
    ∃ x response, Steps (answering deps key dir) (Pool.empty, World.empty) x ∧
      x.1 0 = some ⟨1, ret (c, .ok response)⟩ := by
  have hstore : c.engine.store.Separate := by
    rw [hdir]
    exact TraceStore.under_separate dir
  let C : Setting := .crashing (fun _ => True) fun _ => TraceStands (.under dir)
  obtain ⟨w₁, hprepare, -, -, htmp, hfree⟩ :=
    prepare_alone True 0 1 hstore hcompiled traceId (w := World.empty) fun _ => rfl
  -- before the run the renames are beside the traces
  have hprepare' : Exec (C.sem 0 1) (c.engine.prepare deps c.principal c.req) World.empty
      (.ok (c.engine.preparedOf deps c.principal c.req program traceId)) w₁ := by
    have hbeside : (c.engine.prepare deps c.principal c.req).Uses
        (Storing fun p => p.parent ≠ (TraceStore.under dir).traces) := by
      rw [← hdir]
      apply prepare_storing
      · rintro p hp
        rw [hp]
        exact hstore.traces_programs.symm
      · rintro p hp
        rw [hp]
        exact hstore.traces_descriptions.symm
    exact (hprepare.uses hbeside).mono fun o w r w' h => ⟨TraceStands.beside w h.1, h.2⟩
  have hrun' : Exec (C.sem 0 1) (c.engine.runThread deps
      (c.engine.preparedOf deps c.principal c.req program traceId)) w₁ run w₁ := by
    refine Exec.of_runs ?_ (runThread_uses _ _) hrun
    intro o r ho
    refine ⟨?_, World.sem_running ho r w₁⟩
    cases o with
    | toolsCall client params => trivial
    | panic message => trivial
    | _ => exact ho.elim
  obtain ⟨p, hp⟩ : ∃ p, keyPath c.engine.store.traces traceId "json" = .ok p :=
    ⟨_, keyPath_eq_ok.mpr ⟨hid, rfl⟩⟩
  let prepared := c.engine.preparedOf deps c.principal c.req program traceId
  obtain ⟨w₂, hput⟩ : ∃ w₂, Exec (C.sem 0 1)
      (c.engine.store.putTrace deps (c.engine.signedTrace deps prepared run)) w₁ (.ok ()) w₂ :=
    exec_putTrace hp (hfree p (parent_of_keyPath hp)) htmp fun _ _ => TraceStands.free
  obtain ⟨response, hresponse⟩ : ∃ response, Engine.respond deps prepared
      (c.engine.signedTrace deps prepared run) run.outcome.status (.ok ()) =
        .ret (.ok response) := respond_stored hout
  have hfinish : Exec (C.sem 0 1) (c.engine.finish deps prepared run) w₁ (.ok response) w₂ := by
    refine exec_bind_iff.mpr ⟨.ok (), w₂, hput, ?_⟩
    show Exec (C.sem 0 1) (Engine.respond deps prepared (c.engine.signedTrace deps prepared run)
      run.outcome.status (.ok ())) w₂ (.ok response) w₂
    rw [hresponse]
    exact Exec.ret _ _
  have hthread : Exec ((answering deps key dir).sem 0 1) (c.thread deps) World.empty
      (c, .ok response) w₂ := by
    refine exec_bind_iff.mpr ⟨.ok response, w₂, ?_, Exec.ret _ _⟩
    refine exec_bind_iff.mpr ⟨.ok prepared, w₁, hprepare', ?_⟩
    exact exec_bind_iff.mpr ⟨run, w₁, hrun', hfinish⟩
  have hspawn : Step (answering deps key dir) (Pool.empty, World.empty) _ :=
    Step.spawn 0 1 (c.thread deps) rfl ⟨c, hkey, hdir, rfl⟩
  exact ⟨_, response, Relation.ReflTransGen.head hspawn (Steps.exec hthread Pool.empty),
    Pool.set_self Pool.empty 0 _⟩

open Reference in
theorem responses_kept_reference : ∃ c response t report w,
    Receipt reference c response t ∧
    World.alone 0 1 (replay reference env config response.traceId) w = some (.ok report, w) ∧
    Agrees t report := by
  obtain ⟨x, response, hx, hi⟩ := answered_alone ⟨engine, "alice", ask⟩ rfl rfl ask_compiles
    (show validKey "0a" = true by decide) ask_runs ask_output
  obtain ⟨t, ht, -, -, report, hreplay, hagrees⟩ := responses_kept codec ed25519 coreVm strictTape
    replay_key hx hi .refl 0 1
  exact ⟨_, response, t, report, x.2, ht, hreplay, hagrees⟩

end ProvenoGateway
