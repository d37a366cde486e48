/-
ProvenoGateway/Integrity.lean

Referential integrity of the store, under any number of concurrent executes,
I/O faults and crashes.

The invariant (`Integrity`) is about the visible files: every trace is one an
engine signed for a run of its own, under its own id, and its program and
description are there; every program compiles to the hash it is named after;
every description hashes to its name.  An execute keeps it because it puts
the program and the description first, the trace last, and because a file once
there is never taken away (`isSome` is all the threads need of each other).
That a program file may be replaced by another source of the same hash does
no harm: the invariant speaks of what the file compiles to.
-/
import ProvenoGateway.Entries
import ProvenoGateway.Protocol
import ProvenoGateway.Solo

namespace ProvenoGateway

open Program Interleave

section Threads

/-! ### What the store holds -/

variable (deps : Deps) (key : SigningKey) (store : TraceStore)

/-- What `prepare` makes sure of. -/
structure Engine.Ready (engine : Engine) (prepared : Engine.Prepared deps) : Prop where
  programHash : prepared.programHash = Hex.encode (deps.programHash prepared.program).val
  host : ∃ allowed, prepared.host =
    GatewayHost.fresh prepared.principal engine.downstreams allowed engine.policy

/-- The trace that the engine signs for a run of its own. -/
structure SignedRun (engine : Engine) (prepared : Engine.Prepared deps) (run : Engine.RunResult)
    (t : Trace) : Prop where
  own : engine.signingKey = key
  ready : engine.Ready deps prepared
  ran : ∃ evs, Runs (engine.runThread deps prepared) evs run
  signed : t = (engine.traceOf deps prepared run).sign deps key

/-- A trace of some run, signed with the key. -/
def Genuine (t : Trace) : Prop := ∃ engine prepared run, SignedRun deps key engine prepared run t

/-- There is a file for this key. -/
def Present (V : Files) (dir name ext : String) : Prop :=
  ∃ p, keyPath dir name ext = .ok p ∧ (V p).isSome

/-- The invariant of the visible files. -/
structure Integrity (V : Files) : Prop where
  traces : ∀ p bytes, p.parent = store.traces → V p = some bytes → ∃ t, Genuine deps key t ∧
    bytes = t.toVec deps ∧ keyPath store.traces t.header.traceId "json" = .ok p ∧
    Present V store.programs t.header.programHash "lua" ∧
    Present V store.descriptions t.header.descriptionHash "txt"
  programs : ∀ p bytes, p.parent = store.programs → V p = some bytes → ∃ source program,
    bytes = source.toUTF8 ∧ compileText deps source = some program ∧
    keyPath store.programs (Hex.encode (deps.programHash program).val) "lua" = .ok p
  descriptions : ∀ p bytes, p.parent = store.descriptions → V p = some bytes →
    keyPath store.descriptions (Hex.encode (deps.sha256 bytes).val) "txt" = .ok p

/-- Files come and change, but none goes. -/
def Grows (V V' : Files) : Prop := ∀ p, (V p).isSome → (V' p).isSome

/-- The threads keep the invariant and take nothing away; faults and crashes
strike anywhere. -/
def integrity : Protocol where
  toSetting := .crashing (fun _ => True) fun _ _ _ => True
  inv := Integrity deps key store
  rely _ := Grows
  guar _ := Grows
  rely_refl _ _ := fun _ h => h
  rely_trans _ := fun h h' p hp => h' p (h p hp)
  guar_refl _ _ := fun _ h => h
  compat _ _ _ _ _ _ := fun h => h

variable {deps key store}

theorem grows_update (V : Files) (p : Path) (bytes : ByteArray) :
    Grows V (Function.update V p (some bytes)) := by
  intro q hq
  by_cases hqp : q = p
  · rw [hqp, Function.update_self]
    rfl
  · rw [Function.update_of_ne hqp]
    exact hq

theorem Present.grows {V V' : Files} {dir name ext : String} (h : Present V dir name ext)
    (hg : Grows V V') : Present V' dir name ext := by
  obtain ⟨p, hp, hsome⟩ := h
  exact ⟨p, hp, hg p hsome⟩

/-! ### What may be published -/

section Publish

variable {i : Nat} {p : Path} {V : Files} {bytes : ByteArray}

/-- A file of another directory does not harm the traces. -/
theorem Integrity.traces_update (h : Integrity deps key store V) (hp : p.parent ≠ store.traces) :
    ∀ q content, q.parent = store.traces → Function.update V p (some bytes) q = some content →
      ∃ t, Genuine deps key t ∧ content = t.toVec deps ∧
        keyPath store.traces t.header.traceId "json" = .ok q ∧
        Present (Function.update V p (some bytes)) store.programs t.header.programHash "lua" ∧
        Present (Function.update V p (some bytes)) store.descriptions t.header.descriptionHash
          "txt" := by
  intro q content hq hcontent
  have hgrows := grows_update V p bytes
  have hne : q ≠ p := fun h => hp (by rw [← h, hq])
  rw [Function.update_of_ne hne] at hcontent
  obtain ⟨t, ht, hb, hk, hprogram, hdescription⟩ := h.traces q content hq hcontent
  exact ⟨t, ht, hb, hk, hprogram.grows hgrows, hdescription.grows hgrows⟩

theorem Integrity.programs_update (h : Integrity deps key store V)
    (hp : p.parent ≠ store.programs) :
    ∀ q content, q.parent = store.programs → Function.update V p (some bytes) q = some content →
      ∃ source program, content = source.toUTF8 ∧ compileText deps source = some program ∧
        keyPath store.programs (Hex.encode (deps.programHash program).val) "lua" = .ok q := by
  intro q content hq hcontent
  have hne : q ≠ p := fun h => hp (by rw [← h, hq])
  rw [Function.update_of_ne hne] at hcontent
  exact h.programs q content hq hcontent

theorem Integrity.descriptions_update (h : Integrity deps key store V)
    (hp : p.parent ≠ store.descriptions) :
    ∀ q content, q.parent = store.descriptions →
      Function.update V p (some bytes) q = some content →
      keyPath store.descriptions (Hex.encode (deps.sha256 content).val) "txt" = .ok q := by
  intro q content hq hcontent
  have hne : q ≠ p := fun h => hp (by rw [← h, hq])
  rw [Function.update_of_ne hne] at hcontent
  exact h.descriptions q content hq hcontent

variable (hstore : store.Separate)

include hstore

theorem publish_program {source : String} {program : deps.CompiledProgram}
    (hcompile : compileText deps source = some program)
    (hp : keyPath store.programs (Hex.encode (deps.programHash program).val) "lua" = .ok p) :
    (integrity deps key store).CanPublish i p source.toUTF8 V := by
  intro w _ hv _ _ _
  have hparent := parent_of_keyPath hp
  refine ⟨⟨hv.inv.traces_update ?_, ?_, hv.inv.descriptions_update ?_⟩, grows_update _ _ _⟩
  · rw [hparent]
    exact hstore.traces_programs.symm
  · intro q content hq hcontent
    by_cases hqp : q = p
    · subst hqp
      rw [Function.update_self] at hcontent
      exact ⟨source, program, (Option.some.inj hcontent).symm, hcompile, hp⟩
    · rw [Function.update_of_ne hqp] at hcontent
      exact hv.inv.programs q content hq hcontent
  · rw [hparent]
    exact hstore.programs_descriptions

theorem publish_description {text : String}
    (hp : keyPath store.descriptions (Hex.encode (deps.sha256 text.toUTF8).val) "txt" = .ok p) :
    (integrity deps key store).CanPublish i p text.toUTF8 V := by
  intro w _ hv _ _ _
  have hparent := parent_of_keyPath hp
  refine ⟨⟨hv.inv.traces_update ?_, hv.inv.programs_update ?_, ?_⟩, grows_update _ _ _⟩
  · rw [hparent]
    exact hstore.traces_descriptions.symm
  · rw [hparent]
    exact hstore.programs_descriptions.symm
  · intro q content hq hcontent
    by_cases hqp : q = p
    · subst hqp
      rw [Function.update_self] at hcontent
      rw [← Option.some.inj hcontent]
      exact hp
    · rw [Function.update_of_ne hqp] at hcontent
      exact hv.inv.descriptions q content hq hcontent

/-- A trace may be published once its program and description are there. -/
theorem publish_trace {t : Trace} (ht : Genuine deps key t)
    (hp : keyPath store.traces t.header.traceId "json" = .ok p)
    (hprogram : Present V store.programs t.header.programHash "lua")
    (hdescription : Present V store.descriptions t.header.descriptionHash "txt") :
    (integrity deps key store).CanPublish i p (t.toVec deps) V := by
  intro w _ hv hr _ _
  have hgrows := grows_update w.visible p (t.toVec deps)
  have hparent := parent_of_keyPath hp
  refine ⟨⟨?_, hv.inv.programs_update ?_, hv.inv.descriptions_update ?_⟩, hgrows⟩
  · intro q content hq hcontent
    by_cases hqp : q = p
    · subst hqp
      rw [Function.update_self] at hcontent
      exact ⟨t, ht, (Option.some.inj hcontent).symm, hp, (hprogram.grows hr).grows hgrows,
        (hdescription.grows hr).grows hgrows⟩
    · rw [Function.update_of_ne hqp] at hcontent
      obtain ⟨t', ht', hb, hk, hpr, hde⟩ := hv.inv.traces q content hq hcontent
      exact ⟨t', ht', hb, hk, hpr.grows hgrows, hde.grows hgrows⟩
  · rw [hparent]
    exact hstore.traces_programs
  · rw [hparent]
    exact hstore.traces_descriptions

end Publish

/-! ### One execute -/

section Execute

variable {i pid : Nat} {w : World} {engine : Engine} {prepared : Engine.Prepared deps}

/-- The program and the description of a run are in the store. -/
def Engine.Prepared.Filed (store : TraceStore) (prepared : Engine.Prepared deps) (V : Files) :
    Prop :=
  Present V store.programs prepared.programHash "lua" ∧
    Present V store.descriptions prepared.descriptionHash "txt"

/-- A content-addressed put that does not fail leaves a file behind, also when
it meets one with different content. -/
theorem put_present {dir name ext kind content : String} {p : Path} {bytes : ByteArray}
    {V₀ : Files} {r : Except StoreError Unit} (hp : keyPath dir name ext = .ok p)
    (h : (integrity deps key store).Put i pid p bytes V₀ (.conflict kind content) r w)
    (hr : Engine.ignoreConflict r = .ok ()) : Present w.visible dir name ext := by
  refine ⟨p, hp, ?_⟩
  cases r with
  | ok u =>
    obtain ⟨V, -, hV, hgrows⟩ := h.stored rfl
    exact hgrows p (by rw [hV]; rfl)
  | error e =>
    rcases h.failed e rfl with rfl | ⟨-, io, rfl⟩
    · obtain ⟨V, c, -, -, hV, hgrows⟩ := h.refused rfl
      exact hgrows p (by rw [hV]; rfl)
    · cases hr

/-- Whatever runs, no file goes. -/
theorem safe_growing {α : Type} {post : α → World → Prop} {prog : Gateway α}
    (h : (integrity deps key store).Safe i pid post prog w) :
    (integrity deps key store).Safe i pid
      (fun a w' => Grows w.visible w'.visible ∧ post a w') prog w :=
  Interleave.Safe.remember (fun h h' p hp => h' p (h p hp)) (fun _ _ _ h => h.visible)
    (fun _ _ _ h => h.visible) (fun _ hp => hp) h

theorem safe_putProgram (hstore : store.Separate) {source : String} {program : deps.CompiledProgram}
    (hcompile : compileText deps source = some program) :
    (integrity deps key store).Safe i pid
      (fun r w' => Engine.ignoreConflict r = .ok () →
        Present w'.visible store.programs (Hex.encode (deps.programHash program).val) "lua")
      (store.putProgram (Hex.encode (deps.programHash program).val) source) w := by
  obtain ⟨p, hp⟩ := keyPath_encode store.programs (deps.programHash program) "lua"
  simp only [TraceStore.putProgram, hp]
  refine Interleave.Safe.weaken (Protocol.safe_putContentAddressed (not_isTmp_of_keyPath hp)
    (publish_program hstore hcompile hp)) ?_
  intro r w' _ hput
  exact put_present hp hput

theorem safe_putDescription (hstore : store.Separate) (text : String) :
    (integrity deps key store).Safe i pid
      (fun r w' => r = .ok () →
        Present w'.visible store.descriptions (Hex.encode (deps.sha256 text.toUTF8).val) "txt")
      (store.putDescription (Hex.encode (deps.sha256 text.toUTF8).val) text) w := by
  obtain ⟨p, hp⟩ := keyPath_encode store.descriptions (deps.sha256 text.toUTF8) "txt"
  simp only [TraceStore.putDescription, hp]
  refine Interleave.Safe.weaken (Protocol.safe_putContentAddressed (not_isTmp_of_keyPath hp)
    (publish_description hstore hp)) ?_
  rintro r w' _ hput rfl
  exact put_present hp hput rfl

/-- Before the run: on success the program and the description are there. -/
theorem safe_prepare (hstore : engine.store.Separate) (principal : String) (req : ExecuteRequest)
    (hv : (integrity deps key engine.store).Valid w) :
    (integrity deps key engine.store).Safe i pid
      (fun a w' => ∀ prepared, a = .ok prepared →
        engine.Ready deps prepared ∧ prepared.Filed engine.store w'.visible)
      (engine.prepare deps principal req) w := by
  unfold Engine.prepare
  dsimp only
  split
  case h_1 => exact fun _ r => nomatch r
  case h_2 => exact Protocol.Safe.ret fun _ _ _ _ h => by cases h
  case h_3 program hcompiled =>
    -- the text stored is the text compiled
    have hcompile : compileText deps
        ((build deps (engine.allowedSchemas principal)).prelude ++ req.program) = some program := by
      have h := compileProgram_eq_ok.mp hcompiled
      rwa [show terminated (build deps (engine.allowedSchemas principal)).prelude =
        (build deps (engine.allowedSchemas principal)).prelude from terminated_prelude _] at h
    refine Interleave.Safe.bind Protocol.Keeps.refl hv (safe_putProgram hstore hcompile) ?_
    intro r w₁ hv₁ hr
    cases hi : Engine.ignoreConflict r with
    | error e => exact Protocol.Safe.ret fun _ _ _ _ h => by cases h
    | ok u =>
      have hprogram := hr hi
      refine Interleave.Safe.bind Protocol.Keeps.refl hv₁
        (safe_growing (safe_putDescription hstore _)) ?_
      rintro (e | u) w₂ hv₂ ⟨hgrows, hr₂⟩
      · exact Protocol.Safe.ret fun _ _ _ _ h => by cases h
      · have hdescription := hr₂ rfl
        refine Protocol.Safe.quiet trivial ?_
        intro w₃ id hv₃ hk₃ _ _
        apply Protocol.Safe.ret
        intro w₄ _ hk₄ prepared hprepared
        cases hprepared
        refine ⟨⟨rfl, _, rfl⟩, ?_, ?_⟩
        · exact ((hprogram.grows hgrows).grows hk₃.visible).grows hk₄.visible
        · exact (hdescription.grows hk₃.visible).grows hk₄.visible

/-- The run itself changes nothing. -/
theorem safe_runThread (engine : Engine) (prepared : Engine.Prepared deps) (w : World) :
    (integrity deps key store).Safe i pid
      (fun run w' => Grows w.visible w'.visible ∧
        ∃ evs, Runs (engine.runThread deps prepared) evs run)
      (engine.runThread deps prepared) w := by
  apply safe_growing
  refine Interleave.Safe.of_uses ?_ Protocol.Does.refl (runThread_uses engine prepared) w
  rintro o s r s' ho ⟨-, hs⟩
  exact World.sem_quiet ho.quiet hs

/-- After the run: the trace is signed and put. -/
theorem safe_respond {trace : Trace} {status : RunStatus} (result : Except StoreError Unit) :
    (integrity deps key engine.store).Safe i pid (fun _ _ => True)
      (Engine.respond deps prepared trace status result) w := by
  cases result with
  | error e => exact Protocol.Safe.ret fun _ _ _ => trivial
  | ok u =>
    cases hout : trace.footer.output with
    | none =>
      simp only [Engine.respond, hout]
      exact Protocol.Safe.ret fun _ _ _ => trivial
    | some json =>
      cases hjson : deps.fromStr json with
      | ok value =>
        simp only [Engine.respond, hout, hjson]
        exact Protocol.Safe.ret fun _ _ _ => trivial
      | error e =>
        simp only [Engine.respond, hout, hjson]
        exact fun _ r => nomatch r

theorem safe_finish (hstore : engine.store.Separate) (hkey : engine.signingKey = key)
    {run : Engine.RunResult} (hready : engine.Ready deps prepared)
    (hran : ∃ evs, Runs (engine.runThread deps prepared) evs run)
    (hfiled : prepared.Filed engine.store w.visible)
    (hv : (integrity deps key engine.store).Valid w) :
    (integrity deps key engine.store).Safe i pid (fun _ _ => True)
      (engine.finish deps prepared run) w := by
  have hgenuine : Genuine deps key ((engine.traceOf deps prepared run).sign deps engine.signingKey) :=
    ⟨engine, prepared, run, hkey, hready, hran, by rw [hkey]⟩
  unfold Engine.finish
  dsimp only
  have hput : (integrity deps key engine.store).Safe i pid (fun _ _ => True)
      (engine.store.putTrace deps ((engine.traceOf deps prepared run).sign deps engine.signingKey))
      w := by
    cases hp : keyPath engine.store.traces prepared.traceId "json" with
    | error e =>
      simp only [TraceStore.putTrace, show ((engine.traceOf deps prepared run).sign deps
        engine.signingKey).header.traceId = prepared.traceId from rfl, hp]
      exact Protocol.Safe.ret fun _ _ _ => trivial
    | ok p =>
      exact Interleave.Safe.weaken (Protocol.safe_putTrace hp
        (publish_trace hstore hgenuine hp hfiled.1 hfiled.2)) fun _ _ _ _ => trivial
  refine Interleave.Safe.bind Protocol.Keeps.refl hv hput ?_
  exact fun result _ _ _ => safe_respond result

theorem safe_execute (hstore : engine.store.Separate) (hkey : engine.signingKey = key)
    (principal : String) (req : ExecuteRequest)
    (hv : (integrity deps key engine.store).Valid w) :
    (integrity deps key engine.store).Safe i pid (fun _ _ => True)
      (engine.execute deps principal req) w := by
  refine Interleave.Safe.andThen Protocol.Keeps.refl hv (safe_prepare hstore principal req hv) ?_ ?_
  · intro prepared w₁ hv₁ h₁
    obtain ⟨hready, hfiled⟩ := h₁ prepared rfl
    refine Interleave.Safe.bind Protocol.Keeps.refl hv₁ (safe_runThread engine prepared w₁) ?_
    rintro run w₂ hv₂ ⟨hgrows, hran⟩
    exact safe_finish hstore hkey hready hran ⟨hfiled.1.grows hgrows, hfiled.2.grows hgrows⟩ hv₂
  · exact fun _ _ _ _ => Protocol.Safe.ret fun _ _ _ => trivial

end Execute

end Threads

/-! ### Every interleaving of executes -/

/-- Engines with one key on one store directory. -/
def executes (deps : Deps) (key : SigningKey) (dir : String) :
    System Op Res World Nat (Except ExecuteError ExecuteResponse) :=
  (Setting.crashing (fun _ => True) fun _ _ _ => True).system fun _ _ p _ =>
    ∃ (engine : Engine) (principal : String) (req : ExecuteRequest),
      engine.signingKey = key ∧ engine.store = .under dir ∧ p = engine.execute deps principal req

def executeRules (deps : Deps) (key : SigningKey) (dir : String) :
    Rules (executes deps key dir) :=
  (integrity deps key (.under dir)).rules _ (fun _ _ _ _ => True) (by
    rintro i pid p w ⟨engine, principal, req, hkey, hstore, rfl⟩ hv
    have hseparate : engine.store.Separate := by
      rw [hstore]
      exact TraceStore.under_separate dir
    rw [← hstore] at hv ⊢
    exact safe_execute hseparate hkey principal req hv)

section Executes

variable {deps : Deps} {key : SigningKey} {dir : String}

theorem integrity_empty (store : TraceStore) : Integrity deps key store World.empty.visible := by
  rw [World.visible_empty]
  refine ⟨?_, ?_, ?_⟩ <;>
  · intro p bytes _ h
    cases h

theorem executes_integrity {x : Pool Op Res Nat (Except ExecuteError ExecuteResponse) × World}
    (h : Steps (executes deps key dir) (Pool.empty, World.empty) x) :
    Integrity deps key (.under dir) x.2.visible := by
  have hvalid : (integrity deps key (.under dir)).Valid World.empty :=
    ⟨fun _ _ _ => rfl, fun hu => hu.elim, integrity_empty _⟩
  have hx : (executeRules deps key dir).Holds x := Rules.Holds.steps (.init hvalid) h
  exact hx.valid.inv

/-- A trace file, opened: whose it is, and the program and the description it
names. -/
theorem Integrity.opened {store : TraceStore} {w : World}
    (hinv : Integrity deps key store w.visible) (codec : RecordCodec deps) {p : Path}
    {bytes : ByteArray} (hp : p.parent = store.traces) (hname : ¬ p.IsTmp)
    (hfile : w.files p = some bytes) :
    ∃ t, Genuine deps key t ∧ Trace.fromSlice deps bytes = some t ∧
      keyPath store.traces t.header.traceId "json" = .ok p ∧
      (∃ source program, Holds w store.programs t.header.programHash "lua" source.toUTF8 ∧
        compileText deps source = some program ∧
        Hex.encode (deps.programHash program).val = t.header.programHash) ∧
      (∃ text, Holds w store.descriptions t.header.descriptionHash "txt" text ∧
        Hex.encode (deps.sha256 text).val = t.header.descriptionHash) := by
  rw [← World.visible_of_not_tmp hname] at hfile
  obtain ⟨t, hgenuine, rfl, hk, hprogram, hdescription⟩ := hinv.traces p bytes hp hfile
  refine ⟨t, hgenuine, t.fromSlice_toVec codec, hk, ?_, ?_⟩
  · obtain ⟨q, hq, hsome⟩ := hprogram
    obtain ⟨content, hcontent⟩ := Option.isSome_iff_exists.mp hsome
    obtain ⟨source, program, rfl, hcompile, hq'⟩ :=
      hinv.programs q content (parent_of_keyPath hq) hcontent
    rw [World.visible_of_not_tmp (not_isTmp_of_keyPath hq)] at hcontent
    exact ⟨source, program, ⟨q, hq, hcontent⟩, hcompile, keyPath_inj hq' hq⟩
  · obtain ⟨q, hq, hsome⟩ := hdescription
    obtain ⟨content, hcontent⟩ := Option.isSome_iff_exists.mp hsome
    have hq' := hinv.descriptions q content (parent_of_keyPath hq) hcontent
    rw [World.visible_of_not_tmp (not_isTmp_of_keyPath hq)] at hcontent
    exact ⟨content, ⟨q, hq, hcontent⟩, keyPath_inj hq' hq⟩

theorem Genuine.verifies (ed : Ed25519 deps) {t : Trace} (h : Genuine deps key t) :
    t.verify deps (deps.verifyingKey key) = .ok () := by
  obtain ⟨engine, prepared, run, hrun⟩ := h
  rw [hrun.signed]
  exact Trace.verify_sign ed key _

/-- In every state that executes of engines with one key can reach from an
empty store, through faults and crashes: a file under `traces` is a trace of
its name that verifies, its program compiles to its hash, and its description
hashes to its hash. -/
theorem referential_integrity (codec : RecordCodec deps) (ed : Ed25519 deps)
    {x : Pool Op Res Nat (Except ExecuteError ExecuteResponse) × World}
    (h : Steps (executes deps key dir) (Pool.empty, World.empty) x) {p : Path} {bytes : ByteArray}
    (hp : p.parent = (TraceStore.under dir).traces) (hname : ¬ p.IsTmp)
    (hfile : x.2.files p = some bytes) :
    ∃ t, Trace.fromSlice deps bytes = some t ∧
      keyPath (TraceStore.under dir).traces t.header.traceId "json" = .ok p ∧
      t.verify deps (deps.verifyingKey key) = .ok () ∧
      (∃ source program,
        Holds x.2 (TraceStore.under dir).programs t.header.programHash "lua" source.toUTF8 ∧
        compileProgram deps "" source = .ok program ∧
        Hex.encode (deps.programHash program).val = t.header.programHash) ∧
      (∃ text, Holds x.2 (TraceStore.under dir).descriptions t.header.descriptionHash "txt" text ∧
        Hex.encode (deps.sha256 text).val = t.header.descriptionHash) := by
  obtain ⟨t, hgenuine, hread, hk, ⟨source, program, hsource, hcompile, hhash⟩, hdescription⟩ :=
    (executes_integrity h).opened codec hp hname hfile
  refine ⟨t, hread, hk, hgenuine.verifies ed, ⟨source, program, hsource, ?_, hhash⟩, hdescription⟩
  exact compileProgram_empty.mpr hcompile

end Executes

/-! ### At the instance -/

namespace Reference

def engine : Engine where
  vm := vmDefault
  policy := policy
  downstreams := downstreams objectSchema
  store := .under config.store.dir
  signingKey := key

def ask : ExecuteRequest := ⟨"return s.t{}", none, some "ask"⟩

def askPrepared : Engine.Prepared reference := engine.preparedOf reference "alice" ask .ask "0a"

theorem ask_compiles : compileProgram reference
    (build reference (engine.allowedSchemas "alice")).prelude ask.program = .ok .ask := rfl

/-- The run of `ask`: one call, answered as `noted`. -/
def askRun : Engine.RunResult where
  entries := Engine.zipEntries
    [record "s.t" (.fields []) (.ok (.fields [("v", .nat 1)])) (asked (.ok noted)).blob]
    (asked (.ok noted)).next.log
  outcome := ⟨some (Table.fields [("v", .nat 1)]).text, .ok, 2, 2⟩

/-- The trace of `ask`, whose id is `0a`. -/
def askTrace : Trace := (engine.traceOf reference askPrepared askRun).sign reference key

theorem ask_runs : Runs (engine.runThread reference askPrepared)
    [⟨Op.toolsCall client ⟨"t", some []⟩, .ok noted⟩] askRun := by
  refine runs_bind_iff.mpr ⟨_, _, [], rfl, asking_runs, ?_⟩
  exact Runs.ret _

theorem ask_output (json : String) (h : askRun.outcome.output = some json) :
    ∃ v, reference.fromStr json = .ok v := by
  cases h
  exact ⟨_, fromStr_text rfl⟩

/-- A store with one trace. -/
theorem ask_executes : ∃ x, Steps (executes reference key config.store.dir) (Pool.empty, World.empty) x ∧
    Archived engine askPrepared
      ((build reference (engine.allowedSchemas "alice")).prelude ++ ask.program)
      (build reference (engine.allowedSchemas "alice")).text
      ((engine.traceOf reference askPrepared askRun).sign reference key) x.2 := by
  have hstore : engine.store.Separate := TraceStore.under_separate config.store.dir
  have hid : validKey "0a" = true := by decide
  obtain ⟨response, w, hexec, hfiled⟩ : ∃ response w,
      Exec (World.sem True 0 1) (engine.execute reference "alice" ask) World.empty (.ok response) w ∧
        Archived engine askPrepared
          ((build reference (engine.allowedSchemas "alice")).prelude ++ ask.program)
          (build reference (engine.allowedSchemas "alice")).text
          ((engine.traceOf reference askPrepared askRun).sign reference key) w :=
    execute_alone hstore ask_compiles hid rfl ask_runs ask_output fun _ => rfl
  have hrun : Exec ((executes reference key config.store.dir).sem 0 1) (engine.execute reference "alice" ask)
      World.empty (.ok response) w := hexec.mono fun _ _ _ _ h => ⟨trivial, h⟩
  have hspawn : Step (executes reference key config.store.dir) (Pool.empty, World.empty) _ :=
    Step.spawn 0 1 (engine.execute reference "alice" ask) rfl ⟨engine, "alice", ask, rfl, rfl, rfl⟩
  exact ⟨_, Relation.ReflTransGen.head hspawn (Steps.exec hrun Pool.empty), hfiled⟩

end Reference

open Reference in
theorem referential_integrity_reference :
    ∃ x, Steps (executes reference key config.store.dir) (Pool.empty, World.empty) x ∧
      ∃ p bytes t, x.2.files p = some bytes ∧ Trace.fromSlice reference bytes = some t ∧
        keyPath (TraceStore.under config.store.dir).traces t.header.traceId "json" = .ok p ∧
        (∃ source program,
          Holds x.2 (TraceStore.under config.store.dir).programs t.header.programHash "lua" source.toUTF8 ∧
          compileProgram reference "" source = .ok program ∧
          Hex.encode (reference.programHash program).val = t.header.programHash) := by
  obtain ⟨x, hx, hfiled⟩ := ask_executes
  obtain ⟨p, hp, hfile⟩ := hfiled.trace
  obtain ⟨t, ht, hk, -, hprogram, -⟩ := referential_integrity codec ed25519 hx
    (parent_of_keyPath hp) (not_isTmp_of_keyPath hp) hfile
  exact ⟨x, hx, p, _, t, hfile, ht, hk, hprogram⟩

end ProvenoGateway
