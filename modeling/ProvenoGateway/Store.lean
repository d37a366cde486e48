/-
ProvenoGateway/Store.lean

The append-only trace store (`store.rs`): `traces/<trace_id>.json`,
`programs/<program_hash>.lua`, `descriptions/<description_hash>.txt`.
-/
import ProvenoGateway.Effects
import ProvenoGateway.Trace

namespace ProvenoGateway

open Program

structure TraceStore where
  traces : String
  programs : String
  descriptions : String
  deriving DecidableEq

inductive StoreError
  | io (e : IoError)
  | invalidKey (key : String)
  | traceExists (traceId : String)
  | conflict (kind key : String)
  | json (text : String)
  deriving DecidableEq

/-! ### Keys -/

/-- The bytes a key may consist of. -/
def isKeyChar (c : Char) : Bool := c.isDigit || ('a' ≤ c && c ≤ 'f') || c = '-'

/-- Only `[0-9a-f-]+` is accepted. -/
def validKey (key : String) : Bool := !key.toList.isEmpty && key.toList.all isKeyChar

def keyPath (dir key ext : String) : Except StoreError Path :=
  if validKey key then .ok ⟨dir, s!"{key}.{ext}"⟩ else .error (.invalidKey key)

theorem keyPath_eq_ok {dir key ext : String} {p : Path} :
    keyPath dir key ext = .ok p ↔ validKey key = true ∧ p = ⟨dir, s!"{key}.{ext}"⟩ := by
  unfold keyPath
  by_cases h : validKey key = true
  · simp [h, eq_comm]
  · simp [h]

theorem parent_of_keyPath {dir name ext : String} {p : Path} (h : keyPath dir name ext = .ok p) :
    p.parent = dir := by
  obtain ⟨-, rfl⟩ := keyPath_eq_ok.mp h
  rfl

/-- The file name determines the key. -/
theorem keyPath_inj {dir key other ext : String} {p : Path} (h : keyPath dir key ext = .ok p)
    (h' : keyPath dir other ext = .ok p) : key = other := by
  obtain ⟨-, rfl⟩ := keyPath_eq_ok.mp h
  obtain ⟨-, hp⟩ := keyPath_eq_ok.mp h'
  have hname : s!"{key}.{ext}" = s!"{other}.{ext}" := congrArg Path.name hp
  simpa [toString] using hname

/-- A digest in hexadecimal is a key. -/
theorem validKey_encode (d : Digest) : validKey (Hex.encode d.val) = true := by
  have hdigit : ∀ n, n < 16 → isKeyChar (Hex.digit n) = true := by decide
  have hall : ∀ bs : List UInt8, (Hex.encodeChars bs).all isKeyChar = true := by
    intro bs
    induction bs with
    | nil => rfl
    | cons b bs ih =>
      have hb := b.toNat_lt
      simp only [Hex.encodeChars, List.all_cons, hdigit (b.toNat / 16) (by omega),
        hdigit (b.toNat % 16) (by omega), ih, Bool.and_self]
  obtain ⟨bs, hlength⟩ := d
  cases bs with
  | nil => cases hlength
  | cons b bs =>
    have hchars : (Hex.encode (b :: bs)).toList = Hex.encodeChars (b :: bs) :=
      String.toList_ofList
    rw [validKey, hchars, hall, Bool.and_true]
    rfl

/-- The file of a digest. -/
theorem keyPath_encode (dir : String) (d : Digest) (ext : String) :
    ∃ p, keyPath dir (Hex.encode d.val) ext = .ok p :=
  ⟨_, keyPath_eq_ok.mpr ⟨validKey_encode d, rfl⟩⟩

/-- A file under its final name. -/
theorem not_isTmp_of_keyPath {dir key ext : String} {p : Path} (h : keyPath dir key ext = .ok p) :
    ¬ p.IsTmp := by
  unfold keyPath at h
  split at h
  case isFalse => cases h
  case isTrue hk =>
    cases h
    rintro ⟨pid, n, hn⟩
    have hl := congrArg String.toList hn
    rw [tmpName_toList] at hl
    -- a key does not start with a dot
    simp only [validKey, Bool.and_eq_true, List.all_eq_true] at hk
    cases hkl : key.toList with
    | nil => simp [hkl] at hk
    | cons c cs =>
      have hc := hk.2 c (by rw [hkl]; exact List.mem_cons_self)
      simp [String.toList_append, toString, hkl] at hl
      obtain ⟨rfl, -⟩ := hl
      revert hc
      decide

/-! ### Writing a file -/

/-- Create the temp file, fill it and rename it over the target. -/
def writeSteps (tmp path : Path) (bytes : ByteArray) : Gateway (Except IoError Unit) :=
  andThen (Fs.createNew tmp) fun _ =>
  andThen (Fs.writeAll tmp bytes) fun _ =>
  andThen (Fs.syncAll tmp) fun _ =>
  Fs.rename tmp path

/-- Write to a temp file in the target's directory, then rename over the
target. -/
def writeAtomic (path : Path) (bytes : ByteArray) : Gateway (Except StoreError Unit) := do
  let pid ← processId
  let n ← fetchAdd
  let tmp : Path := ⟨path.parent, tmpName pid n⟩
  let result ← writeSteps tmp path bytes
  match result with
  | .ok () => pure (.ok ())
  | .error e => do
      let _ ← Fs.removeFile tmp
      pure (.error (.io e))

/-- Same content under the same key is a no-op; different content is an
error. -/
def putContentAddressed (path : Path) (kind key content : String) :
    Gateway (Except StoreError Unit) := do
  match ← Fs.read path with
  | .ok existing =>
      if existing = content.toUTF8 then pure (.ok ()) else pure (.error (.conflict kind key))
  | .error e =>
      if e.kind = .notFound then writeAtomic path content.toUTF8 else pure (.error (.io e))

/-- `fs::read_to_string`. -/
def readToString (path : Path) : Gateway (Except StoreError String) := do
  match ← Fs.read path with
  | .error e => pure (.error (.io e))
  | .ok bytes =>
      match String.fromUTF8? bytes with
      | some text => pure (.ok text)
      | none => pure (.error (.io ⟨.other, "stream did not contain valid UTF-8"⟩))

/-! ### The store -/

namespace TraceStore

/-- The directories under `dir`. -/
def under (dir : String) : TraceStore :=
  ⟨joinPath dir "traces", joinPath dir "programs", joinPath dir "descriptions"⟩

/-- The three directories are different ones. -/
structure Separate (store : TraceStore) : Prop where
  traces_programs : store.traces ≠ store.programs
  traces_descriptions : store.traces ≠ store.descriptions
  programs_descriptions : store.programs ≠ store.descriptions

theorem joinPath_relative (base : String) : ∃ start, ∀ path : String,
    path.toList.head? ≠ some '/' → joinPath base path = start ++ path := by
  refine ⟨if base = "" then "" else if Text.endsWith '/' base then base else base ++ "/", ?_⟩
  intro path hpath
  unfold joinPath
  rw [if_neg hpath]
  split
  · rw [String.empty_append]
  · split <;> rfl

theorem under_separate (dir : String) : (under dir).Separate := by
  obtain ⟨start, hjoin⟩ := joinPath_relative dir
  have ht : (under dir).traces = start ++ "traces" := hjoin "traces" (by decide)
  have hp : (under dir).programs = start ++ "programs" := hjoin "programs" (by decide)
  have hd : (under dir).descriptions = start ++ "descriptions" := hjoin "descriptions" (by decide)
  refine ⟨?_, ?_, ?_⟩
  · rw [ht, hp, Ne, String.append_right_inj]
    decide
  · rw [ht, hd, Ne, String.append_right_inj]
    decide
  · rw [hp, hd, Ne, String.append_right_inj]
    decide

/-- `TraceStore::open`. -/
def openDir (dir : String) : Gateway (Except StoreError TraceStore) := do
  let store := under dir
  match ← Fs.createDirAll store.traces with
  | .error e => pure (.error (.io e))
  | .ok () =>
      match ← Fs.createDirAll store.programs with
      | .error e => pure (.error (.io e))
      | .ok () =>
          match ← Fs.createDirAll store.descriptions with
          | .error e => pure (.error (.io e))
          | .ok () => pure (.ok store)

/-- Traces are append-only: writing an existing `trace_id` is an error. -/
def putTrace (store : TraceStore) (deps : Deps) (trace : Trace) :
    Gateway (Except StoreError Unit) :=
  match keyPath store.traces trace.header.traceId "json" with
  | .error e => pure (.error e)
  | .ok path => do
      if ← Fs.pathExists path then pure (.error (.traceExists trace.header.traceId))
      else writeAtomic path (trace.toVec deps)

def getTrace (store : TraceStore) (deps : Deps) (traceId : String) :
    Gateway (Except StoreError Trace) :=
  match keyPath store.traces traceId "json" with
  | .error e => pure (.error e)
  | .ok path => do
      match ← Fs.read path with
      | .error e => pure (.error (.io e))
      | .ok bytes =>
          match Trace.fromSlice deps bytes with
          | some trace => pure (.ok trace)
          | none => pure (.error (.json "cannot read the trace"))

def putProgram (store : TraceStore) (programHash source : String) :
    Gateway (Except StoreError Unit) :=
  match keyPath store.programs programHash "lua" with
  | .error e => pure (.error e)
  | .ok path => putContentAddressed path "program" programHash source

def getProgram (store : TraceStore) (programHash : String) :
    Gateway (Except StoreError String) :=
  match keyPath store.programs programHash "lua" with
  | .error e => pure (.error e)
  | .ok path => readToString path

def putDescription (store : TraceStore) (descriptionHash text : String) :
    Gateway (Except StoreError Unit) :=
  match keyPath store.descriptions descriptionHash "txt" with
  | .error e => pure (.error e)
  | .ok path => putContentAddressed path "description" descriptionHash text

def getDescription (store : TraceStore) (descriptionHash : String) :
    Gateway (Except StoreError String) :=
  match keyPath store.descriptions descriptionHash "txt" with
  | .error e => pure (.error e)
  | .ok path => readToString path

end TraceStore

/-! ### An undisturbed write -/

/-- `w'` is `w` with the file `path` written and one number of `pid` drawn. -/
structure World.Written (pid : Nat) (path : Path) (bytes : ByteArray) (w w' : World) : Prop where
  file : w'.files path = some bytes
  others : ∀ q, q ≠ path → w'.files q = w.files q
  counter : w'.counter pid = w.counter pid + 1

section Alone

variable {i pid : Nat} {w : World} {path : Path} {bytes : ByteArray}

/-- Undisturbed, with its temp name free, a write succeeds. -/
theorem alone_writeAtomic (htmp : w.files ⟨path.parent, tmpName pid (w.counter pid)⟩ = none) :
    ∃ w', World.alone i pid (writeAtomic path bytes) w = some (.ok (), w') ∧
      World.Written pid path bytes w w' := by
  have hfiles : (w.draw i pid).files = w.files := rfl
  let tmp : Path := ⟨path.parent, tmpName pid (w.counter pid)⟩
  let filled := ((w.draw i pid).set tmp (some ByteArray.empty)).set tmp (some bytes)
  have hrun : World.alone i pid (writeAtomic path bytes) w =
      some (.ok (), (filled.set tmp none).set path (some bytes)) := by
    simp [writeAtomic, writeSteps, andThen, World.alone, World.step, hfiles, htmp, filled, tmp]
  refine ⟨_, hrun, World.set_files_self _ _ _, ?_, ?_⟩
  · intro q hq
    rw [World.set_files_ne _ _ hq]
    by_cases hqt : q = tmp
    · rw [hqt, World.set_files_self]
      exact htmp.symm
    · rw [World.set_files_ne _ _ hqt, World.set_files_ne _ _ hqt, World.set_files_ne _ _ hqt, hfiles]
  · exact if_pos rfl

/-- A new file is put. -/
theorem alone_putContentAddressed {kind key content : String} (hnew : w.files path = none)
    (htmp : w.files ⟨path.parent, tmpName pid (w.counter pid)⟩ = none) :
    ∃ w', World.alone i pid (putContentAddressed path kind key content) w = some (.ok (), w') ∧
      World.Written pid path content.toUTF8 w w' := by
  obtain ⟨w', hrun, hw⟩ : ∃ w', World.alone i pid (writeAtomic path content.toUTF8) w =
      some (.ok (), w') ∧ World.Written pid path content.toUTF8 w w' := alone_writeAtomic htmp
  refine ⟨w', ?_, hw⟩
  simpa [putContentAddressed, World.alone, World.step, hnew, World.notFound] using hrun

/-- A new trace is put. -/
theorem alone_putTrace {deps : Deps} {store : TraceStore} {t : Trace}
    (hkey : keyPath store.traces t.header.traceId "json" = .ok path)
    (hnew : w.files path = none)
    (htmp : w.files ⟨path.parent, tmpName pid (w.counter pid)⟩ = none) :
    ∃ w', World.alone i pid (store.putTrace deps t) w = some (.ok (), w') ∧
      World.Written pid path (t.toVec deps) w w' := by
  obtain ⟨w', hrun, hw⟩ : ∃ w', World.alone i pid (writeAtomic path (t.toVec deps)) w =
      some (.ok (), w') ∧ World.Written pid path (t.toVec deps) w w' := alone_writeAtomic htmp
  refine ⟨w', ?_, hw⟩
  simpa [TraceStore.putTrace, hkey, World.alone, World.step, hnew] using hrun

end Alone

end ProvenoGateway
