/-
ProvenoGateway/Solo.lean

An execute that nothing disturbs.

On an empty store, without faults and without anybody else, an execute whose
program compiles and whose run ends puts the program, the description and the
signed trace, one after the other (`execute_alone`).
-/
import ProvenoGateway.Engine
import ProvenoGateway.Signing

namespace ProvenoGateway

open Program

/-! ### What a run does -/

section Uses

variable {deps : Deps}

theorem call_uses {allowed : Op → Prop} (h : ∀ client params, allowed (.toolsCall client params))
    (ds : Downstreams) (qualified : String) (args : Json) :
    (ds.call deps qualified args).Uses allowed := by
  unfold Downstreams.call
  split
  · trivial
  · dsimp only
    split
    · trivial
    · split
      · trivial
      · exact ⟨h _ _, fun _ => trivial⟩

/-- A call sends requests, if anything. -/
theorem callTool_uses {allowed : Op → Prop}
    (h : ∀ client params, allowed (.toolsCall client params)) (host : GatewayHost) (name : String)
    (args : deps.Table) : (host.callTool deps name args).Uses allowed := by
  unfold GatewayHost.callTool
  dsimp only
  split
  · trivial
  · split
    · trivial
    · split
      · trivial
      · split
        · trivial
        · apply Program.Uses.bind (call_uses h _ _ _)
          intro _
          trivial

/-- The run thread does not touch the store. -/
theorem runThread_uses (engine : Engine) (prepared : Engine.Prepared deps) :
    (engine.runThread deps prepared).Uses World.Running := by
  apply Program.Uses.bind (drive_uses (callTool_uses fun _ _ => trivial) _ _ _)
  rintro ⟨e, host, transcript⟩
  dsimp only
  split
  · trivial
  · exact ⟨trivial, fun r => nomatch r⟩

end Uses

/-! ### An execute from an empty store -/

section Alone

variable {deps : Deps} {i pid : Nat} {faults : Prop}

/-- A run alone is one of the runs. -/
theorem exec_of_alone {α : Type} {p : Gateway α} {a : α} {w w' : World}
    (h : World.alone i pid p w = some (a, w')) : Exec (World.sem faults i pid) p w a w' := by
  induction p generalizing w with
  | ret b =>
    cases h
    exact Exec.ret _ _
  | call o next ih =>
    simp only [World.alone] at h
    split at h
    case h_1 r w₁ hstep => exact Exec.call o next ⟨.fine, fun hf => by (cases hf), hstep⟩ (ih r h)
    case h_2 => cases h

theorem exec_runThread {engine : Engine} {prepared : Engine.Prepared deps}
    {evs : List (Event Op Res)} {run : Engine.RunResult}
    (h : Runs (engine.runThread deps prepared) evs run) (w : World) :
    Exec (World.sem faults i pid) (engine.runThread deps prepared) w run w :=
  Exec.of_runs (fun _ r ho => World.sem_running ho r w) (runThread_uses engine prepared) h

/-- A file under its final name, put where there is none. -/
theorem exec_put (faults : Prop) (i pid : Nat) {dir key ext : String} {p : Path}
    (hp : keyPath dir key ext = .ok p) (kind content : String) {w : World} (hnew : w.files p = none) (htmp : ∀ q, q.IsTmp → w.files q = none) :
    ∃ w', Exec (World.sem faults i pid) (putContentAddressed p kind key content) w (.ok ()) w' ∧
      World.Written pid p content.toUTF8 w w' ∧ ∀ q, q.IsTmp → w'.files q = none := by
  obtain ⟨w', hrun, hw⟩ : ∃ w', World.alone i pid (putContentAddressed p kind key content) w =
      some (.ok (), w') ∧ World.Written pid p content.toUTF8 w w' :=
    alone_putContentAddressed hnew (htmp _ ⟨pid, _, rfl⟩)
  refine ⟨w', exec_of_alone hrun, hw, ?_⟩
  intro q hq
  have hne : q ≠ p := fun h => not_isTmp_of_keyPath hp (h ▸ hq)
  rw [hw.others q hne]
  exact htmp q hq

/-- An output that is JSON is returned. -/
theorem respond_stored {engine : Engine} {prepared : Engine.Prepared deps}
    {run : Engine.RunResult}
    (hout : ∀ json, run.outcome.output = some json → ∃ v, deps.fromStr json = .ok v) :
    ∃ response, Engine.respond deps prepared
      ((engine.traceOf deps prepared run).sign deps engine.signingKey) run.outcome.status (.ok ()) =
        .ret (.ok response) := by
  unfold Engine.respond
  dsimp only
  rw [show ((engine.traceOf deps prepared run).sign deps engine.signingKey).footer.output =
    run.outcome.output from rfl]
  cases ho : run.outcome.output with
  | none => exact ⟨_, rfl⟩
  | some json =>
    obtain ⟨v, hv⟩ := hout json ho
    refine ⟨⟨some v, prepared.traceId, run.outcome.status⟩, ?_⟩
    dsimp only
    rw [hv]
    rfl

/-- Once the trace is put, the execute returns. -/
theorem exec_finish {engine : Engine} {prepared : Engine.Prepared deps} {run : Engine.RunResult}
    {w w' : World} (hput : World.alone i pid (engine.store.putTrace deps
      ((engine.traceOf deps prepared run).sign deps engine.signingKey)) w = some (.ok (), w'))
    (hout : ∀ json, run.outcome.output = some json → ∃ v, deps.fromStr json = .ok v) :
    ∃ response, Exec (World.sem faults i pid) (engine.finish deps prepared run) w
      (.ok response) w' := by
  obtain ⟨response, hresponse⟩ : ∃ response, Engine.respond deps prepared
      ((engine.traceOf deps prepared run).sign deps engine.signingKey) run.outcome.status (.ok ()) =
        .ret (.ok response) := respond_stored hout
  refine ⟨response, exec_bind_iff.mpr ⟨.ok (), w', exec_of_alone hput, ?_⟩⟩
  rw [hresponse]
  exact Exec.ret _ _

/-- There is a file for this key, with this content. -/
def Holds (w : World) (dir key ext : String) (bytes : ByteArray) : Prop :=
  ∃ p, keyPath dir key ext = .ok p ∧ w.files p = some bytes

/-- An undisturbed `prepare` puts the program and the description, and nothing
else. -/
theorem prepare_alone (faults : Prop) (i pid : Nat) {engine : Engine}
    (hstore : engine.store.Separate) {principal : String} {req : ExecuteRequest}
    {program : deps.CompiledProgram}
    (hcompiled : compileProgram deps (build deps (engine.allowedSchemas principal)).prelude
      req.program = .ok program) (traceId : String) {w : World} (hempty : ∀ p, w.files p = none) :
    ∃ w', Exec (World.sem faults i pid) (engine.prepare deps principal req) w
        (.ok (engine.preparedOf deps principal req program traceId)) w' ∧
      Holds w' engine.store.programs (Hex.encode (deps.programHash program).val) "lua"
        ((build deps (engine.allowedSchemas principal)).prelude ++ req.program).toUTF8 ∧
      Holds w' engine.store.descriptions
        (Hex.encode (build deps (engine.allowedSchemas principal)).hash.val) "txt"
        (build deps (engine.allowedSchemas principal)).text.toUTF8 ∧
      (∀ p, p.IsTmp → w'.files p = none) ∧
      ∀ p, p.parent = engine.store.traces → w'.files p = none := by
  obtain ⟨p₁, hp₁⟩ := keyPath_encode engine.store.programs (deps.programHash program) "lua"
  obtain ⟨p₂, hp₂⟩ := keyPath_encode engine.store.descriptions
    (build deps (engine.allowedSchemas principal)).hash "txt"
  have h₂₁ : p₂ ≠ p₁ := by
    rintro rfl
    exact hstore.programs_descriptions ((parent_of_keyPath hp₁).symm.trans (parent_of_keyPath hp₂))
  -- the two puts, one after the other
  obtain ⟨w₁, hput₁, hw₁, htmp₁⟩ := exec_put faults i pid hp₁ "program"
    ((build deps (engine.allowedSchemas principal)).prelude ++ req.program) (hempty p₁)
    fun q _ => hempty q
  have hnew₂ : w₁.files p₂ = none := by
    rw [hw₁.others p₂ h₂₁]
    exact hempty p₂
  obtain ⟨w₂, hput₂, hw₂, htmp₂⟩ := exec_put faults i pid hp₂ "description"
    (build deps (engine.allowedSchemas principal)).text hnew₂ htmp₁
  refine ⟨w₂, ?_, ⟨p₁, hp₁, ?_⟩, ⟨p₂, hp₂, hw₂.file⟩, htmp₂, ?_⟩
  · unfold Engine.prepare
    dsimp only
    rw [hcompiled]
    refine exec_bind_iff.mpr ⟨.ok (), w₁, ?_, ?_⟩
    · simpa only [TraceStore.putProgram, hp₁] using hput₁
    refine exec_bind_iff.mpr ⟨.ok (), w₂, ?_, ?_⟩
    · simpa only [TraceStore.putDescription, hp₂] using hput₂
    exact Exec.call Op.uuidNow _ ⟨.uuid traceId, fun h => by (cases h), rfl⟩ (Exec.ret _ _)
  · rw [hw₂.others p₁ h₂₁.symm]
    exact hw₁.file
  · intro p hp
    have hne₁ : p ≠ p₁ := by
      rintro rfl
      exact hstore.traces_programs (hp.symm.trans (parent_of_keyPath hp₁))
    have hne₂ : p ≠ p₂ := by
      rintro rfl
      exact hstore.traces_descriptions (hp.symm.trans (parent_of_keyPath hp₂))
    rw [hw₂.others p hne₂, hw₁.others p hne₁]
    exact hempty p

/-- The three files of a run. -/
structure Archived (engine : Engine) (prepared : Engine.Prepared deps) (source text : String)
    (t : Trace) (w : World) : Prop where
  program : Holds w engine.store.programs prepared.programHash "lua" source.toUTF8
  description : Holds w engine.store.descriptions prepared.descriptionHash "txt" text.toUTF8
  trace : Holds w engine.store.traces prepared.traceId "json" (t.toVec deps)

/-- **An undisturbed execute stores its trace**, its program and its
description. -/
theorem execute_alone {engine : Engine} (hstore : engine.store.Separate) {principal : String}
    {req : ExecuteRequest} {program : deps.CompiledProgram}
    (hcompiled : compileProgram deps (build deps (engine.allowedSchemas principal)).prelude
      req.program = .ok program) {traceId : String} (hid : validKey traceId = true)
    {prepared : Engine.Prepared deps}
    (hprepared : prepared = engine.preparedOf deps principal req program traceId)
    {run : Engine.RunResult} {evs : List (Event Op Res)}
    (hrun : Runs (engine.runThread deps prepared) evs run)
    (hout : ∀ json, run.outcome.output = some json → ∃ v, deps.fromStr json = .ok v)
    {w : World} (hempty : ∀ p, w.files p = none) :
    ∃ response w', Exec (World.sem faults i pid) (engine.execute deps principal req) w
        (.ok response) w' ∧
      Archived engine prepared
        ((build deps (engine.allowedSchemas principal)).prelude ++ req.program)
        (build deps (engine.allowedSchemas principal)).text
        ((engine.traceOf deps prepared run).sign deps engine.signingKey) w' := by
  subst hprepared
  obtain ⟨w₁, hprepare, ⟨p₁, hp₁, hprogram⟩, ⟨p₂, hp₂, hdescription⟩, htmp, htraces⟩ :=
    prepare_alone faults i pid hstore hcompiled traceId hempty
  obtain ⟨p₃, hp₃⟩ : ∃ p, keyPath engine.store.traces traceId "json" = .ok p :=
    ⟨_, keyPath_eq_ok.mpr ⟨hid, rfl⟩⟩
  have h₁₃ : p₁ ≠ p₃ := by
    rintro rfl
    exact hstore.traces_programs ((parent_of_keyPath hp₃).symm.trans (parent_of_keyPath hp₁))
  have h₂₃ : p₂ ≠ p₃ := by
    rintro rfl
    exact hstore.traces_descriptions ((parent_of_keyPath hp₃).symm.trans (parent_of_keyPath hp₂))
  let prepared := engine.preparedOf deps principal req program traceId
  let t := (engine.traceOf deps prepared run).sign deps engine.signingKey
  obtain ⟨w₂, hput, hw₂⟩ : ∃ w', World.alone i pid (engine.store.putTrace deps t) w₁ =
      some (.ok (), w') ∧ World.Written pid p₃ (t.toVec deps) w₁ w' :=
    alone_putTrace hp₃ (htraces p₃ (parent_of_keyPath hp₃)) (htmp _ ⟨pid, _, rfl⟩)
  obtain ⟨response, hfinish⟩ : ∃ response, Exec (World.sem faults i pid)
      (engine.finish deps prepared run) w₁ (.ok response) w₂ := exec_finish hput hout
  refine ⟨response, w₂, ?_, ⟨p₁, hp₁, ?_⟩, ⟨p₂, hp₂, ?_⟩, ⟨p₃, hp₃, hw₂.file⟩⟩
  · refine exec_bind_iff.mpr ⟨.ok prepared, w₁, hprepare, ?_⟩
    exact exec_bind_iff.mpr ⟨run, w₁, exec_runThread hrun w₁, hfinish⟩
  · rw [hw₂.others p₁ h₁₃]
    exact hprogram
  · rw [hw₂.others p₂ h₂₃]
    exact hdescription

end Alone

end ProvenoGateway
