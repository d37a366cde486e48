/-
ProvenoGateway/Signing.lean

What a signature binds.

The digest is taken over a fresh serialisation of the trace with an empty
signature, not over the stored bytes.  So two facts of the format carry the
argument: what is stored reads back as it was (`Trace.fromSlice_toVec`), which
makes a stored trace verify, and the serialisation determines the trace
(`Trace.toVec_injective`), which makes a signature stand for one trace only.

Of SHA-256 it is only asked that the two texts at hand do not collide; of
Ed25519, that a signature verifies and does so for one digest.
-/
import ProvenoGateway.Reference
import ProvenoGateway.Store

namespace ProvenoGateway

open Program

/-- Ed25519 as the gateway relies on it.  That signing is deterministic is its
type. -/
structure Ed25519 (deps : Deps) : Prop where
  verify_sign : ∀ k d, deps.verifyStrict (deps.verifyingKey k) d (deps.sign k d) = true
  digest_unique : ∀ vk d d' s, deps.verifyStrict vk d s = true →
    deps.verifyStrict vk d' s = true → d = d'

variable {deps : Deps}

namespace Trace

/-! ### Signing -/

@[simp] theorem unsigned_sign (k : SigningKey) (t : Trace) :
    (t.sign deps k).unsigned = t.unsigned := rfl

/-- The signature does not depend on the one the trace had. -/
@[simp] theorem sign_sign (k : SigningKey) (t : Trace) :
    (t.sign deps k).sign deps k = t.sign deps k := rfl

theorem verify_eq_ok {vk : deps.VerifyingKey} {t : Trace} :
    t.verify deps vk = .ok () ↔ ∃ s, Hex.decodeToSlice 64 t.footer.signature = some s ∧
      deps.verifyStrict vk (t.unsigned.digest deps) s = true := by
  unfold verify
  cases Hex.decodeToSlice 64 t.footer.signature with
  | none => simp
  | some s => by_cases h : deps.verifyStrict vk (t.unsigned.digest deps) s = true <;> simp [h]

theorem verify_sign (ed : Ed25519 deps) (k : SigningKey) (t : Trace) :
    (t.sign deps k).verify deps (deps.verifyingKey k) = .ok () := by
  rw [verify_eq_ok]
  exact ⟨_, Hex.decodeToSlice_encode _, ed.verify_sign _ _⟩

/-- The texts of two traces do not collide under SHA-256. -/
def NoCollision (deps : Deps) (t t' : Trace) : Prop :=
  Set.InjOn deps.sha256 {t.unsigned.toVec deps, t'.unsigned.toVec deps}

/-- A trace is its unsigned part and its signature. -/
theorem eq_of_unsigned {t t' : Trace} (h : t.unsigned = t'.unsigned)
    (hs : t.footer.signature = t'.footer.signature) : t = t' := by
  obtain ⟨header, entries, output, status, gas, memory, signature⟩ := t
  obtain ⟨header', entries', output', status', gas', memory', signature'⟩ := t'
  simp only [unsigned, Trace.mk.injEq, TraceFooter.mk.injEq] at h hs ⊢
  tauto

/-- **A signature stands for one trace.** -/
theorem eq_of_verify (codec : RecordCodec deps) (ed : Ed25519 deps) {vk : deps.VerifyingKey}
    {t t' : Trace} (hsig : t.footer.signature = t'.footer.signature)
    (h : t.verify deps vk = .ok ()) (h' : t'.verify deps vk = .ok ())
    (hcoll : NoCollision deps t t') : t = t' := by
  obtain ⟨s, hs, hv⟩ := verify_eq_ok.mp h
  obtain ⟨s', hs', hv'⟩ := verify_eq_ok.mp h'
  rw [hsig, hs'] at hs
  cases hs
  have hdigest := ed.digest_unique vk _ _ _ hv hv'
  have hbytes := hcoll (by simp) (by simp) hdigest
  exact eq_of_unsigned (toVec_injective codec hbytes) hsig

end Trace

/-! ### Through the store -/

section Alone

variable {i pid : Nat} {w : World} {path : Path}

/-- A trace put under a fresh id is read back as it was. -/
theorem alone_putTrace_getTrace (codec : RecordCodec deps) {store : TraceStore} {t : Trace}
    (hkey : keyPath store.traces t.header.traceId "json" = .ok path)
    (hfresh : w.files path = none)
    (htmp : w.files ⟨path.parent, tmpName pid (w.counter pid)⟩ = none) :
    ∃ w', World.alone i pid (store.putTrace deps t) w = some (.ok (), w') ∧
      World.alone i pid (store.getTrace deps t.header.traceId) w' = some (.ok t, w') := by
  obtain ⟨w', hput, hw⟩ : ∃ w', World.alone i pid (store.putTrace deps t) w = some (.ok (), w') ∧
      World.Written pid path (t.toVec deps) w w' := alone_putTrace hkey hfresh htmp
  refine ⟨w', hput, ?_⟩
  simp [TraceStore.getTrace, hkey, World.alone, World.step, hw.file, t.fromSlice_toVec codec]

end Alone

/-- A signed trace verifies, is signed once and for all, and comes back from
text and from the store as it was; and a signature belongs to one trace. -/
theorem signature_binds_trace (codec : RecordCodec deps) (ed : Ed25519 deps) :
    (∀ (t : Trace) (k : SigningKey),
      (t.sign deps k).verify deps (deps.verifyingKey k) = .ok () ∧
      (t.sign deps k).sign deps k = t.sign deps k ∧
      Trace.fromSlice deps ((t.sign deps k).toVec deps) = some (t.sign deps k) ∧
      ∀ (store : TraceStore) (path : Path) (i pid : Nat) (w : World),
        keyPath store.traces t.header.traceId "json" = .ok path → w.files path = none →
        w.files ⟨path.parent, tmpName pid (w.counter pid)⟩ = none →
        ∃ w', World.alone i pid (store.putTrace deps (t.sign deps k)) w = some (.ok (), w') ∧
          World.alone i pid (store.getTrace deps t.header.traceId) w' =
            some (.ok (t.sign deps k), w')) ∧
    (∀ (t t' : Trace) (vk : deps.VerifyingKey), t.footer.signature = t'.footer.signature →
      t.verify deps vk = .ok () → t'.verify deps vk = .ok () → Trace.NoCollision deps t t' →
      t = t') := by
  refine ⟨fun t k => ⟨t.verify_sign ed k, t.sign_sign k, Trace.fromSlice_toVec codec _, ?_⟩, ?_⟩
  · intro store path i pid w hkey hfresh htmp
    exact alone_putTrace_getTrace codec (t := t.sign deps k) hkey hfresh htmp
  · intro t t' vk hsig h h' hcoll
    exact Trace.eq_of_verify codec ed hsig h h' hcoll

/-! ### At the instance -/

namespace Reference

theorem ed25519 : Ed25519 reference where
  verify_sign k d := by simp [reference, sign]
  digest_unique vk d d' s h h' := by
    simp only [reference, decide_eq_true_eq] at h h'
    exact Subtype.ext (List.append_cancel_right (h.symm.trans h'))

/-- A run that was refused one call. -/
def trace : Trace where
  header := ⟨"0a-1", none, "alice", "00", "01", "02", "proveno-core v0.4.0", vmDefault, some "pay"⟩
  entries := [⟨record "s.t" (.fields []) (.error "policy: no") ByteArray.empty,
    .deniedByPolicy "no", .unsigned⟩]
  footer := ⟨none, .error "ToolError" "policy: no", 3, 4, ""⟩

def key : SigningKey := ⟨List.replicate 32 7, rfl⟩

end Reference

open Reference in
theorem signature_binds_trace_reference :
    (trace.sign reference key).verify reference key = .ok () ∧
    Trace.fromSlice reference ((trace.sign reference key).toVec reference) =
      some (trace.sign reference key) ∧
    ∃ w, World.alone 0 1 ((TraceStore.under "store").putTrace reference (trace.sign reference key))
        World.empty = some (.ok (), w) ∧
      World.alone 0 1 ((TraceStore.under "store").getTrace reference "0a-1") w =
        some (.ok (trace.sign reference key), w) := by
  obtain ⟨hverify, -, hread, hstore⟩ := (signature_binds_trace codec ed25519).1 trace key
  exact ⟨hverify, hread, hstore (TraceStore.under "store") ⟨"store/traces", "0a-1.json"⟩ 0 1
    World.empty (by decide) rfl rfl⟩

end ProvenoGateway
