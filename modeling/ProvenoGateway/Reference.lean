/-
ProvenoGateway/Reference.lean

A small instance of the dependencies, on which the theorems are tried out.

It keeps the documented behaviour of the real ones where a result relies on
it: the canonical encoding writes a table with the keys 1..n as an array and
an empty one as `{}`, and reads back; the strict tape answers the calls it
has recorded, in order; comments do not reach the bytecode; a signature
verifies for the digest it was made for and for no other.  Values are scalars
and tables of scalars, and there are two programs: one that returns nil, and
one that calls `s.t` and returns the answer.
-/
import ProvenoGateway.Trace

namespace ProvenoGateway

namespace Reference

/-! ### Values -/

inductive Scalar
  | nil
  | boolean (b : Bool)
  | nat (n : UInt64)
  | neg (i : NegInt64)
  | string (s : String)

/-- A table with the keys 1..n, or with string keys. -/
inductive Table
  | list (first : Scalar) (rest : List Scalar)
  | fields (members : List (String × Scalar))

inductive Value
  | scalar (s : Scalar)
  | table (t : Table)

namespace Scalar

def toJson : Scalar → Json
  | nil => .null
  | boolean b => .bool b
  | nat n => .num (.posInt n)
  | neg i => .num (.negInt i)
  | string s => .str s

def ofJson : Json → Option Scalar
  | .null => some nil
  | .bool b => some (boolean b)
  | .num (.posInt n) => some (nat n)
  | .num (.negInt i) => some (neg i)
  | .str s => some (string s)
  | _ => none

@[simp] theorem ofJson_toJson (s : Scalar) : ofJson s.toJson = some s := by
  cases s <;> rfl

@[simp] theorem exact (s : Scalar) : s.toJson.Exact := by
  cases s <;> simp [toJson, Json.Exact]

@[simp] theorem depth_toJson (s : Scalar) : s.toJson.depth = 0 := by
  cases s <;> simp [toJson, Json.depth]

end Scalar

namespace Table

def member (m : String × Scalar) : String × Json := (m.1, m.2.toJson)

def ofMember (m : String × Json) : Option (String × Scalar) :=
  (Scalar.ofJson m.2).map fun s => (m.1, s)

def toJson : Table → Json
  | list first rest => .arr (first.toJson :: rest.map Scalar.toJson)
  | fields members => .obj (members.map member)

def ofJson : Json → Option Table
  | .arr (first :: rest) => do some (list (← Scalar.ofJson first) (← rest.mapM Scalar.ofJson))
  | .obj members => (members.mapM ofMember).map fields
  | _ => none

/-- The canonical encoding. -/
def text (t : Table) : String := t.toJson.print

def ofBytes (bytes : ByteArray) : Option Table := do ofJson (← Json.readSlice bytes)

def rawset : Table → LuaKey → Value → Except String Table
  | fields members, .string key, .scalar v =>
      .ok (fields (members.filter (·.1 ≠ key) ++ [(key, v)]))
  | fields [], .integer 1, .scalar v => .ok (list v [])
  | list first rest, .integer i, .scalar v =>
      if i = rest.length + 2 then .ok (list first (rest ++ [v])) else .error "sparse table"
  | _, _, .table _ => .error "nested table"
  | _, _, _ => .error "mixed keys"

theorem mapM_ofJson (l : List Scalar) :
    l.mapM (Scalar.ofJson ∘ Scalar.toJson) = some l := by
  induction l with
  | nil => rfl
  | cons s l ih => simp [ih]

theorem mapM_ofMember (ms : List (String × Scalar)) : ms.mapM (ofMember ∘ member) = some ms := by
  induction ms with
  | nil => rfl
  | cons m ms ih => simp [ih, member, ofMember]

@[simp] theorem ofJson_toJson (t : Table) : ofJson t.toJson = some t := by
  cases t with
  | list first rest => simp [toJson, ofJson, mapM_ofJson]
  | fields members => simp [toJson, ofJson, mapM_ofMember]

theorem exact (t : Table) : t.toJson.Exact := by
  cases t with
  | list first rest =>
    simp only [toJson, Json.Exact, Json.ExactItems, Scalar.exact, true_and]
    rw [Json.exactItems_iff]
    intro v hv
    obtain ⟨s, -, rfl⟩ := List.mem_map.mp hv
    exact s.exact
  | fields members =>
    simp only [toJson, Json.Exact]
    induction members with
    | nil => simp [Json.ExactMembers]
    | cons m ms ih => simpa [member, Json.ExactMembers] using ih

theorem depth_toJson (t : Table) : t.toJson.depth = 1 := by
  cases t with
  | list first rest =>
    have hd : Json.depthItems (rest.map Scalar.toJson) ≤ 0 := by
      rw [Json.depthItems_le]
      intro v hv
      obtain ⟨s, -, rfl⟩ := List.mem_map.mp hv
      simp
    simp only [toJson, Json.depth, Json.depthItems, Scalar.depth_toJson]
    omega
  | fields members =>
    have hd : Json.depthMembers (members.map member) = 0 := by
      induction members with
      | nil => rfl
      | cons m ms ih => simp [member, Json.depthMembers, ih]
    simp [toJson, Json.depth, hd]

/-- The canonical encoding reads back. -/
theorem ofBytes_text (t : Table) : ofBytes t.text.toUTF8 = some t := by
  have hr : Json.readSlice t.toJson.toVec = some t.toJson :=
    Json.readSlice_toVec t.exact (by rw [t.depth_toJson]; simp [Json.recursionLimit])
  have ht : t.text.toUTF8 = t.toJson.toVec := rfl
  rw [ofBytes, ht, hr]
  exact t.ofJson_toJson

end Table

def Value.toJson : Value → Json
  | scalar s => s.toJson
  | table t => t.toJson

/-- An integer that is not of 64 bits is out of the question. -/
def ofInt (i : Int) : Value :=
  if h : -2 ^ 63 ≤ i ∧ i < 0 then .scalar (.neg ⟨i, h.1, h.2⟩)
  else .scalar (.nat (UInt64.ofNat i.toNat))

/-! ### Call records -/

def bytesToJson (bytes : ByteArray) : Json :=
  .arr (bytes.data.toList.map fun b => Serde.num (UInt64.ofNat b.toNat))

def byteOfJson (v : Json) : Option UInt8 := v.asU64.map fun n => UInt8.ofNat n.toNat

def bytesOfJson (v : Json) : Option ByteArray :=
  (Serde.seq byteOfJson v).map fun bytes => ⟨bytes.toArray⟩

def statusToJson : ToolCallStatus → Json
  | .ok => .str "ok"
  | .error => .str "error"

def statusOfJson : Json → Option ToolCallStatus
  | .str "ok" => some .ok
  | .str "error" => some .error
  | _ => none

def recordToJson (r : ToolCallRecord) : Json :=
  .obj [
    ("seq", Serde.num r.seq),
    ("tool_name", .str r.toolName),
    ("args_canonical", bytesToJson r.argsCanonical),
    ("args_bytes", Serde.num r.argsBytes),
    ("response_hash", .str r.responseHash),
    ("response_bytes", Serde.num r.responseBytes),
    ("response_canonical", bytesToJson r.responseCanonical),
    ("error_message", .str r.errorMessage),
    ("attestation", bytesToJson r.attestation),
    ("gas_charged", Serde.num r.gasCharged),
    ("status", statusToJson r.status)]

open Serde in
def recordFromJson (v : Json) : Option ToolCallRecord := do
  match ← struct ["seq", "tool_name", "args_canonical", "args_bytes", "response_hash",
      "response_bytes", "response_canonical", "error_message", "attestation", "gas_charged",
      "status"] v with
  | [seq, name, args, argsBytes, hash, responseBytes, response, message, attestation, gas,
      status] =>
      some {
        seq := ← required Json.asU64 seq
        toolName := ← required Json.asStr name
        argsCanonical := ← required bytesOfJson args
        argsBytes := ← required Json.asU64 argsBytes
        responseHash := ← required Json.asStr hash
        responseBytes := ← required Json.asU64 responseBytes
        responseCanonical := ← required bytesOfJson response
        errorMessage := ← required Json.asStr message
        attestation := ← required bytesOfJson attestation
        gasCharged := ← required Json.asU64 gas
        status := ← required statusOfJson status }
  | _ => none

@[simp] theorem byteOfJson_num (b : UInt8) :
    byteOfJson (Serde.num (UInt64.ofNat b.toNat)) = some b := by
  simp [byteOfJson]

@[simp] theorem bytesOfJson_bytesToJson (bytes : ByteArray) :
    bytesOfJson (bytesToJson bytes) = some bytes := by
  have hs : Serde.seq byteOfJson (bytesToJson bytes) = some bytes.data.toList :=
    Serde.seq_map fun b _ => byteOfJson_num b
  simp [bytesOfJson, hs]

@[simp] theorem statusOfJson_statusToJson (s : ToolCallStatus) :
    statusOfJson (statusToJson s) = some s := by
  cases s <;> simp [statusOfJson, statusToJson]

@[simp] theorem exact_bytesToJson (bytes : ByteArray) : (bytesToJson bytes).Exact := by
  simp only [bytesToJson, Json.Exact, Json.exactItems_iff]
  intro v hv
  obtain ⟨b, -, rfl⟩ := List.mem_map.mp hv
  exact Serde.exact_num _

@[simp] theorem exact_statusToJson (s : ToolCallStatus) : (statusToJson s).Exact := by
  cases s <;> exact Serde.exact_str _

theorem depth_bytesToJson (bytes : ByteArray) : (bytesToJson bytes).depth ≤ 1 := by
  have hd : Json.depthItems (bytes.data.toList.map fun b => Serde.num (UInt64.ofNat b.toNat)) ≤ 0 := by
    rw [Json.depthItems_le]
    intro v hv
    obtain ⟨b, -, rfl⟩ := List.mem_map.mp hv
    simp
  simp only [bytesToJson, Json.depth]
  omega

@[simp] theorem depth_statusToJson (s : ToolCallStatus) : (statusToJson s).depth = 0 := by
  cases s <;> exact Serde.depth_str _

/-- The record of a call. -/
def record (name : String) (args : Table) (answer : Except String Table) (blob : ByteArray) :
    ToolCallRecord where
  seq := 0
  toolName := name
  argsCanonical := args.text.toUTF8
  argsBytes := UInt64.ofNat args.text.utf8ByteSize
  responseHash := ""
  responseBytes := match answer with
    | .ok t => UInt64.ofNat t.text.utf8ByteSize
    | .error _ => 0
  responseCanonical := match answer with
    | .ok t => t.text.toUTF8
    | .error _ => ByteArray.empty
  errorMessage := match answer with
    | .ok _ => ""
    | .error e => e
  attestation := blob
  gasCharged := 1
  status := match answer with
    | .ok _ => .ok
    | .error _ => .error

/-! ### The VM -/

inductive Prog
  | idle
  | ask

/-- What the last line of a source says. -/
def Prog.ofSource (source : String) : Except CompileError Prog :=
  if "return nil".toList.isSuffixOf source.toList then .ok .idle
  else if "return s.t{}".toList.isSuffixOf source.toList then .ok .ask
  else .error ⟨.other, 1, "line 1: unknown program"⟩

def Prog.hash : Prog → Digest
  | idle => ⟨List.replicate 32 0, rfl⟩
  | ask => ⟨List.replicate 32 1, rfl⟩

/-- One call of `s.t` without arguments. -/
def asking : VmRun Value Table :=
  .call "s.t" (.fields []) (record "s.t" (.fields [])) fun
    | .ok t => .done ⟨.ok (.table t), 2, 2⟩
    | .error e => .done ⟨.error (.toolError e), 2, 2⟩

def Prog.run : Prog → VmRun Value Table
  | idle => .done ⟨.ok (.scalar .nil), 1, 1⟩
  | ask => asking

/-! ### The tape -/

structure Tape where
  left : List ToolCallRecord
  attestation : Option ByteArray
  divergence : Option Divergence

def Tape.strict (records : List ToolCallRecord) : Tape := ⟨records, none, none⟩

/-- The answer a record stands for. -/
def answerOf (r : ToolCallRecord) : Except String Table :=
  match r.status with
  | .error => .error r.errorMessage
  | .ok =>
      match Table.ofBytes r.responseCanonical with
      | some t => .ok t
      | none => .error "unreadable response"

def Tape.call (tape : Tape) (name : String) (args : Table) : Except String Table × Tape :=
  let actual : TapeCall := ⟨name, args.text.toUTF8⟩
  match tape.left with
  | r :: rest =>
      if r.toolName = name ∧ r.argsCanonical = args.text.toUTF8 then
        (answerOf r, ⟨rest, some r.attestation, tape.divergence⟩)
      else
        (.error "divergence",
          { tape with divergence := some ⟨r.seq, some ⟨r.toolName, r.argsCanonical⟩, actual⟩ })
  | [] => (.error "divergence", { tape with divergence := some ⟨0, none, actual⟩ })

def Tape.takeAttestation (tape : Tape) : Option ByteArray × Tape :=
  (tape.attestation, { tape with attestation := none })

/-! ### Hashing, signing, schemas -/

/-- The little-endian bytes of a number. -/
def bytesOfNat : Nat → Nat → List UInt8
  | 0, _ => []
  | k + 1, n => UInt8.ofNat (n % 256) :: bytesOfNat k (n / 256)

theorem length_bytesOfNat (k n : Nat) : (bytesOfNat k n).length = k := by
  induction k generalizing n with
  | zero => rfl
  | succ k ih => simp [bytesOfNat, ih]

def hash (bytes : ByteArray) : Digest :=
  ⟨bytesOfNat 32 (bytes.data.toList.foldl (fun acc b => acc * 257 + b.toNat + 1) 0),
    length_bytesOfNat 32 _⟩

/-- The digest and the key. -/
def sign (key : SigningKey) (d : Digest) : Signature :=
  ⟨d.val ++ key.val, by rw [List.length_append, d.property, key.property]⟩

/-- Nothing but `"type": "object"` is understood. -/
def validator (schema : Json) : Except String (Json → Option (String × String)) :=
  .ok fun args =>
    if (schema.get "type").bind Json.asStr = some "object" ∧ args.isObject = false then
      some ("", args.print ++ " is not of type \"object\"")
    else none

def vmDefault : VmSettings := ⟨1000, 1000, 10, 10, 1000, 1000, 1000⟩

end Reference

open Reference in
/-- The instance. -/
def reference : Deps where
  Value := Value
  Table := Table
  nil := .scalar .nil
  boolean b := .scalar (.boolean b)
  integer := ofInt
  string s := .scalar (.string s)
  table := .table
  asString
    | .scalar (.string s) => some s.toUTF8
    | _ => none
  valueDebug v := v.toJson.print
  newTable := .fields []
  rawset := Table.rawset
  CanonError := Empty
  canonicalSerialize v := .ok v.toJson.print
  canonicalSerializeTable t := .ok t.text
  canonErrorDebug := Empty.elim
  canonErrorToVm := Empty.elim
  Block := String
  CompiledProgram := Prog
  parse := .ok
  compile := Prog.ofSource
  verify _ := .ok ()
  programHash := Prog.hash
  vmDefault := vmDefault
  execute p _ := p.run
  argsCanonical t := t.text.toUTF8
  recordToJson := recordToJson
  recordFromJson := recordFromJson
  Tape := Tape
  tapeStrict := Tape.strict
  tapeCall := Tape.call
  tapeTakeAttestation := Tape.takeAttestation
  tapeDivergence := Tape.divergence
  tapeRemaining tape := tape.left.length
  schemaValidator := validator
  sha256 := hash
  VerifyingKey := SigningKey
  verifyingKey := id
  sign := sign
  verifyStrict key d s := s.val = d.val ++ key.val
  double := some
  jsonErrorText _ := "expected value"
  provenanceErrorText _ := "unknown variant"

namespace Reference

/-- The fields of a record are found by their names. -/
theorem recordFromJson_toJson (r : ToolCallRecord) :
    recordFromJson (recordToJson r) = some r := by
  have hread : recordFromJson (recordToJson r) =
      (bytesOfJson (bytesToJson r.argsCanonical)).bind fun args =>
        (bytesOfJson (bytesToJson r.responseCanonical)).bind fun response =>
          (bytesOfJson (bytesToJson r.attestation)).bind fun attestation =>
            (statusOfJson (statusToJson r.status)).bind fun status =>
              some ⟨r.seq, r.toolName, args, r.argsBytes, r.responseHash, r.responseBytes, response,
                r.errorMessage, attestation, r.gasCharged, status⟩ := rfl
  simp [hread]

/-- Records are written and read back. -/
theorem codec : RecordCodec reference where
  exact r := by
    simp [reference, recordToJson, Json.exact_obj, Json.exactMembers_cons, Json.exactMembers_nil]
  shallow r := by
    have h₁ := depth_bytesToJson r.argsCanonical
    have h₂ := depth_bytesToJson r.responseCanonical
    have h₃ := depth_bytesToJson r.attestation
    simp [reference, recordToJson, Json.depth_obj, Json.depthMembers_cons, Json.depthMembers_nil]
    omega
  fromJson_toJson := recordFromJson_toJson

end Reference

end ProvenoGateway
