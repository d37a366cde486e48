/-
ProvenoGateway/Wallet.lean

The wallet server of the demo (`demo/wallet/src/main.rs`): a downstream of the
gateway that signs transactions with its credential.

It is a program over the JSON-RPC requests it makes of a chain.  Each call
submits one transaction at most, of exactly the amount it was asked for
(`transfer_exact`), and what it reports of the chain is what the chain told it,
in the form the gateway accepts (`answers_believed`).

Address texts and the provider are third-party.  An amount in wei is a
natural number; the `u128` it is computed in does not overflow (`wei_eq`).
-/
import ProvenoGateway.Footprint
import ProvenoGateway.Handler
import ProvenoGateway.Provenance

namespace ProvenoGateway

open Program

namespace Wallet

/-! ### The chain -/

/-- Addresses, and how they are read and shown. -/
structure Alloy where
  Address : Type
  parse : String → Except String Address
  display : Address → String

structure BlockHeader where
  number : UInt64
  hash : Digest

structure TransactionRequest (Address : Type) where
  from_ : Address
  to_ : Address
  value : Nat

structure Receipt where
  transactionHash : Digest
  blockNumber : Option UInt64

/-- A request to the provider. -/
inductive Rpc (Address : Type)
  | getChainId
  /-- The latest block. -/
  | getBlockByNumber
  | getBalance (address : Address) (block : Digest)
  | sendTransaction (tx : TransactionRequest Address)
  | getReceipt (pending : Digest)

@[reducible] def Rpc.Answer {Address : Type} : Rpc Address → Type
  | .getChainId => Except String UInt64
  | .getBlockByNumber => Except String (Option BlockHeader)
  | .getBalance _ _ => Except String Nat
  | .sendTransaction _ => Except String Digest
  | .getReceipt _ => Except String Receipt

/-- A handler of the wallet. -/
abbrev Handler (Address α : Type) : Type := Program (Rpc Address) Rpc.Answer α

namespace Provider

variable {Address : Type}

abbrev getChainId : Handler Address (Except String UInt64) := op Rpc.getChainId

abbrev getBlockByNumber : Handler Address (Except String (Option BlockHeader)) :=
  op Rpc.getBlockByNumber

abbrev getBalance (address : Address) (block : Digest) : Handler Address (Except String Nat) :=
  op (Rpc.getBalance address block)

abbrev sendTransaction (tx : TransactionRequest Address) :
    Handler Address (Except String Digest) := op (Rpc.sendTransaction tx)

abbrev getReceipt (pending : Digest) : Handler Address (Except String Receipt) :=
  op (Rpc.getReceipt pending)

end Provider

/-- A 256-bit hash as text. -/
def displayHash (hash : Digest) : String := "0x" ++ Hex.encode hash.val

/-! ### The server -/

/-- One milli-ETH in wei. -/
def milliEthWei : Nat := 1000000000000000

section Server

variable (alloy : Alloy)

def objectSchema (properties : List (String × Json)) (required : List String) :
    List (String × Json) := [
  ("properties", .obj properties),
  ("required", .arr (required.map Json.str)),
  ("type", .str "object")]

/-- A property with a type and, if there is one, a description. -/
def property (type : String) (description : Option String) : Json :=
  .obj ((description.map fun d => ("description", Json.str d)).toList ++ [("type", .str type)])

def tools (from_ : alloy.Address) : List Tool :=
  let from_ := alloy.display from_
  [{ name := "get_balance"
     description := some "Balance of an address, in whole milli-ETH, rounded down."
     inputSchema := objectSchema [("address", property "string" (some "0x-prefixed address."))]
       ["address"]
     outputSchema := some (objectSchema
       [("address", property "string" none), ("eth_milli", property "integer" none)]
       ["address", "eth_milli"]) },
   { name := "transfer"
     description := some (s!"Send milli-ETH from {from_} to an address, as a signed transaction. " ++
       s!"{from_} is the only account this server can send from, set by the " ++
       "credential, so funds cannot be moved towards it with this tool. " ++
       "It also pays the gas fee, so its balance falls by slightly more " ++
       "than `amount` and an exact target balance is not reachable.")
     inputSchema := objectSchema
       [("amount", property "integer" (some "Milli-ETH to send.")),
         ("to", property "string" (some "0x-prefixed recipient."))]
       ["to", "amount"]
     outputSchema := some (objectSchema
       [("amount", property "integer" none), ("tx_hash", property "string" none)]
       ["tx_hash", "amount"]) }]

def arg (request : CallToolRequestParams) (name : String) : Option Json :=
  request.arguments.bind fun a => Json.lookup a name

def address (request : CallToolRequestParams) (name : String) : Except String alloy.Address :=
  match (arg request name).bind Json.asStr with
  | none => .error s!"`{name}` must be a 0x-prefixed address"
  | some text => (alloy.parse text).mapError fun e => s!"`{name}`: {e}"

def failed (message : String) : CallToolResult := .error [.text message]

/-- The report of a result: the chain, the block and a reference. -/
def onchain (chainId block : UInt64) (reference : Digest) : List (String × Json) := [
  ("block", Serde.num block),
  ("chain", .str s!"eip155:{chainId}"),
  ("reference", .str (displayHash reference)),
  ("type", .str "onchain")]

def attested (value : Json) (chainId block : UInt64) (reference : Digest) : CallToolResult :=
  { CallToolResult.structured value with
    meta_ := some [("proveno/provenance", .obj (onchain chainId block reference))] }

variable {alloy}

/-- The balance, in milli-ETH, as far as it fits a signed 64-bit integer. -/
def balanceValue (address : alloy.Address) (wei : Nat) : Json :=
  .obj [("address", .str (alloy.display address)),
    ("eth_milli", Serde.num (UInt64.ofNat (min (wei / milliEthWei) (2 ^ 63 - 1))))]

def transferValue (amount : Int) (transactionHash : Digest) : Json :=
  .obj [("amount", Serde.num (UInt64.ofNat amount.toNat)),
    ("tx_hash", .str (displayHash transactionHash))]

/-- The read is pinned to one block. -/
def getBalance (request : CallToolRequestParams) : Handler alloy.Address CallToolResult :=
  match address alloy request "address" with
  | .error e => pure (failed e)
  | .ok address => do
      match ← Provider.getChainId with
      | .error e => pure (failed s!"get_balance: chain id: {e}")
      | .ok chainId => do
          match ← Provider.getBlockByNumber with
          | .error e => pure (failed s!"get_balance: latest block: {e}")
          | .ok none => pure (failed "get_balance: no latest block")
          | .ok (some block) => do
              match ← Provider.getBalance address block.hash with
              | .ok wei => pure (attested (balanceValue address wei) chainId block.number block.hash)
              | .error e => pure (failed s!"get_balance: {e}")

/-- `amount as u128 * MILLI_ETH_WEI`. -/
def wei (amount : Int) : Nat := amount.toNat * milliEthWei % 2 ^ 128

/-- The amount of a transfer. -/
def amount (request : CallToolRequestParams) : Option Int :=
  ((arg request "amount").bind Json.asI64).filter fun a => 0 < a

/-- After the transaction is sent. -/
def confirm (chainId : UInt64) (amount : Int) (pending : Digest) :
    Handler alloy.Address CallToolResult := do
  match ← Provider.getReceipt pending with
  | .ok receipt =>
      match receipt.blockNumber with
      | none => pure (failed "transfer: receipt has no block number")
      | some block =>
          pure (attested (transferValue amount receipt.transactionHash) chainId block
            receipt.transactionHash)
  | .error e => pure (failed s!"transfer: {e}")

def transfer (from_ : alloy.Address) (request : CallToolRequestParams) :
    Handler alloy.Address CallToolResult :=
  match address alloy request "to" with
  | .error e => pure (failed e)
  | .ok to_ =>
      match amount request with
      | none => pure (failed "`amount` must be a positive whole number of milli-ETH")
      | some amount => do
          match ← Provider.getChainId with
          | .error e => pure (failed s!"transfer: chain id: {e}")
          | .ok chainId => do
              match ← Provider.sendTransaction ⟨from_, to_, wei amount⟩ with
              | .error e => pure (failed s!"transfer: {e}")
              | .ok pending => confirm chainId amount pending

def callTool (from_ : alloy.Address) (request : CallToolRequestParams) :
    Handler alloy.Address (Except ErrorData CallToolResult) :=
  if request.name = "get_balance" then do
    let result ← getBalance request
    pure (.ok result)
  else if request.name = "transfer" then do
    let result ← transfer from_ request
    pure (.ok result)
  else pure (.error (.invalidParams s!"unknown tool `{request.name}`"))

end Server

/-! ### Amounts -/

section Amounts

variable {request : CallToolRequestParams} {n : Int}

theorem amount_eq_some : amount request = some n ↔
    (∃ v, arg request "amount" = some v ∧ v.asI64 = some n) ∧ 0 < n := by
  simp [amount, Option.filter_eq_some_iff, Option.bind_eq_some_iff]

/-- An integer that fits 64 bits is below `2 ^ 63`. -/
theorem asI64_lt {v : Json} (h : v.asI64 = some n) : n < 2 ^ 63 := by
  cases v with
  | num k =>
    cases k with
    | posInt u =>
      simp only [Json.asI64, JsonNumber.asI64] at h
      split at h
      case isTrue hu =>
        cases h
        exact_mod_cast hu
      case isFalse => cases h
    | negInt i =>
      cases h
      have hneg := i.neg
      omega
    | float f => cases h
  | _ => cases h

/-- The amount in wei does not overflow. -/
theorem wei_eq (h : amount request = some n) : wei n = n.toNat * milliEthWei := by
  obtain ⟨⟨v, -, hv⟩, hpos⟩ := amount_eq_some.mp h
  have hlt := asI64_lt hv
  refine Nat.mod_eq_of_lt ?_
  unfold milliEthWei
  omega

end Amounts

/-! ### What is sent to the chain -/

section Sent

variable {alloy : Alloy} {from_ : alloy.Address} {request : CallToolRequestParams}

/-- The transactions handed to the provider. -/
def sent {Address : Type} (evs : List (Event (Rpc Address) Rpc.Answer)) :
    List (TransactionRequest Address) :=
  evs.filterMap fun
    | ⟨.sendTransaction tx, _⟩ => some tx
    | _ => none

/-- No other transaction than `tx`, if that, and not a second one. -/
def Submits {Address : Type} (tx : Option (TransactionRequest Address))
    (past : List (Event (Rpc Address) Rpc.Answer)) (o : Rpc Address) : Prop :=
  ∀ tx', o = .sendTransaction tx' → sent past = [] ∧ some tx' = tx

theorem sent_append {Address : Type} (evs evs' : List (Event (Rpc Address) Rpc.Answer)) :
    sent (evs ++ evs') = sent evs ++ sent evs' := List.filterMap_append

theorem sent_of_ne {Address : Type} {o : Rpc Address} (h : ∀ tx, o ≠ .sendTransaction tx)
    (r : o.Answer) : sent [⟨o, r⟩] = [] := by
  cases o with
  | sendTransaction tx => exact absurd rfl (h tx)
  | _ => rfl

/-- However far a program has come. -/
theorem sent_of_submits {Address α : Type} {tx : Option (TransactionRequest Address)}
    {p rest : Handler Address α} {evs : List (Event (Rpc Address) Rpc.Answer)}
    (hp : p.UsesAfter (Submits tx) []) (h : Leads p evs rest) :
    sent evs = [] ∨ ∃ t, tx = some t ∧ sent evs = [t] := by
  induction h with
  | refl => exact Or.inl rfl
  | @step evs o next r hleads ih =>
    have hnow : Submits tx evs o := hp.next hleads
    rw [sent_append]
    by_cases hsend : ∃ t, o = .sendTransaction t
    · obtain ⟨t, rfl⟩ := hsend
      obtain ⟨hnone, htx⟩ := hnow t rfl
      rw [hnone]
      exact Or.inr ⟨t, htx.symm, rfl⟩
    · rw [sent_of_ne (fun t ht => hsend ⟨t, ht⟩), List.append_nil]
      exact ih

theorem getBalance_quiet :
    (@getBalance alloy request).Uses fun o => ∀ tx, o ≠ .sendTransaction tx := by
  unfold getBalance
  split
  · trivial
  · refine ⟨by simp, ?_⟩
    rintro (e | chainId)
    · trivial
    · refine ⟨by simp, ?_⟩
      rintro (e | (- | block))
      · trivial
      · trivial
      · refine ⟨by simp, ?_⟩
        rintro (e | wei) <;> trivial

/-- The transfer a call asks for: of whole milli-ETH, more than none. -/
structure Asks (alloy : Alloy) (from_ : alloy.Address) (request : CallToolRequestParams) (n : Int)
    (tx : TransactionRequest alloy.Address) : Prop where
  name : request.name = "transfer"
  amount : ∃ v, arg request "amount" = some v ∧ v.asI64 = some n
  positive : 0 < n
  recipient : address alloy request "to" = .ok tx.to_
  sender : tx.from_ = from_
  value : tx.value = n.toNat * milliEthWei

/-- A call submits what it asks for, if anything. -/
theorem callTool_submits (from_ : alloy.Address) (request : CallToolRequestParams) :
    ∃ tx, (∀ t, tx = some t → ∃ n, Asks alloy from_ request n t) ∧
      (callTool from_ request).UsesAfter (Submits tx) [] := by
  have hquiet : (callTool from_ request).Uses (fun o => ∀ tx, o ≠ .sendTransaction tx) →
      ∃ tx, (∀ t, tx = some t → ∃ n, Asks alloy from_ request n t) ∧
        (callTool from_ request).UsesAfter (Submits tx) [] := by
    intro h
    refine ⟨none, ?_, h.after ?_⟩
    · rintro t ⟨⟩
    · exact fun _ o ho tx hsend => absurd hsend (ho tx)
  by_cases hbalance : request.name = "get_balance"
  · apply hquiet
    rw [callTool, if_pos hbalance]
    exact Uses.bind getBalance_quiet fun _ => trivial
  by_cases hname : request.name = "transfer"
  · rcases hto : address alloy request "to" with e | to_
    · apply hquiet
      simp only [callTool, if_neg hbalance, if_pos hname, transfer, hto]
      trivial
    rcases hamount : amount request with - | n
    · apply hquiet
      simp only [callTool, if_neg hbalance, if_pos hname, transfer, hto, hamount]
      trivial
    obtain ⟨hn, hpos⟩ := amount_eq_some.mp hamount
    refine ⟨some ⟨from_, to_, wei n⟩, ?_, ?_⟩
    · rintro _ ⟨⟩
      exact ⟨n, hname, hn, hpos, hto, rfl, wei_eq hamount⟩
    · simp only [callTool, if_neg hbalance, if_pos hname, transfer, hto, hamount]
      refine ⟨fun _ h => (by cases h), ?_⟩
      rintro (e | chainId)
      · trivial
      · -- the one transaction
        refine ⟨fun tx h => ⟨rfl, by cases h; rfl⟩, ?_⟩
        rintro (e | pending)
        · trivial
        · refine ⟨fun _ h => (by cases h), ?_⟩
          rintro (e | ⟨hash, (- | block)⟩) <;> trivial
  · apply hquiet
    rw [callTool, if_neg hbalance, if_neg hname]
    trivial

/-- **Transfers are exact.**  However far a call has come, it has submitted
nothing, or the one transaction that it asks for. -/
theorem transfer_exact {evs : List (Event (Rpc alloy.Address) Rpc.Answer)}
    {rest : Handler alloy.Address (Except ErrorData CallToolResult)}
    (h : Leads (callTool from_ request) evs rest) :
    sent evs = [] ∨ ∃ n tx, Asks alloy from_ request n tx ∧ sent evs = [tx] := by
  obtain ⟨tx, hasks, hsubmits⟩ := callTool_submits from_ request
  rcases sent_of_submits hsubmits h with hnone | ⟨t, rfl, hsent⟩
  · exact Or.inl hnone
  · obtain ⟨n, hn⟩ := hasks t rfl
    exact Or.inr ⟨n, t, hn, hsent⟩

end Sent

/-! ### What is reported of the chain -/

section Reports

variable {alloy : Alloy} {from_ : alloy.Address} {request : CallToolRequestParams}

/-- The value of a result, and the chain, the block and the reference it comes
with, as the provider has answered. -/
inductive Seen (alloy : Alloy) : List (Event (Rpc alloy.Address) Rpc.Answer) → Json → UInt64 →
    UInt64 → Digest → Prop
  | balance (address : alloy.Address) (chainId : UInt64) (block : BlockHeader) (wei : Nat) :
      Seen alloy [⟨.getChainId, .ok chainId⟩, ⟨.getBlockByNumber, .ok (some block)⟩,
          ⟨.getBalance address block.hash, .ok wei⟩]
        (balanceValue address wei) chainId block.number block.hash
  | transfer (tx : TransactionRequest alloy.Address) (n : Int) (chainId block : UInt64)
      (pending hash : Digest) : tx.value = n.toNat * milliEthWei →
      Seen alloy [⟨.getChainId, .ok chainId⟩, ⟨.sendTransaction tx, .ok pending⟩,
          ⟨.getReceipt pending, .ok ⟨hash, some block⟩⟩]
        (transferValue n hash) chainId block hash

/-- A result is an error or has been seen on the chain. -/
def Grounded (alloy : Alloy) (evs : List (Event (Rpc alloy.Address) Rpc.Answer))
    (result : CallToolResult) : Prop :=
  (∃ message, result = failed message) ∨ ∃ value chainId block reference,
    Seen alloy evs value chainId block reference ∧
      result = attested value chainId block reference

theorem getBalance_grounded {evs : List (Event (Rpc alloy.Address) Rpc.Answer)}
    {result : CallToolResult} (h : Runs (@getBalance alloy request) evs result) :
    Grounded alloy evs result := by
  unfold getBalance at h
  split at h
  case h_1 => exact Or.inl ⟨_, (runs_ret_iff.mp h).2⟩
  case h_2 address _ =>
    obtain ⟨chainId, evs₁, rfl, h₁⟩ := runs_call_iff.mp h
    rcases chainId with e | chainId
    · exact Or.inl ⟨_, (runs_ret_iff.mp h₁).2⟩
    obtain ⟨block, evs₂, rfl, h₂⟩ := runs_call_iff.mp h₁
    rcases block with e | (- | block)
    · exact Or.inl ⟨_, (runs_ret_iff.mp h₂).2⟩
    · exact Or.inl ⟨_, (runs_ret_iff.mp h₂).2⟩
    obtain ⟨wei, evs₃, rfl, h₃⟩ := runs_call_iff.mp h₂
    rcases wei with e | wei
    · exact Or.inl ⟨_, (runs_ret_iff.mp h₃).2⟩
    · obtain ⟨rfl, rfl⟩ := runs_ret_iff.mp h₃
      exact Or.inr ⟨_, _, _, _, .balance address chainId block wei, rfl⟩

theorem transfer_grounded {evs : List (Event (Rpc alloy.Address) Rpc.Answer)}
    {result : CallToolResult} (h : Runs (transfer from_ request) evs result) :
    Grounded alloy evs result := by
  unfold transfer at h
  split at h
  case h_1 => exact Or.inl ⟨_, (runs_ret_iff.mp h).2⟩
  case h_2 to_ _ =>
    split at h
    case h_1 => exact Or.inl ⟨_, (runs_ret_iff.mp h).2⟩
    case h_2 n hamount =>
      obtain ⟨chainId, evs₁, rfl, h₁⟩ := runs_call_iff.mp h
      rcases chainId with e | chainId
      · exact Or.inl ⟨_, (runs_ret_iff.mp h₁).2⟩
      obtain ⟨pending, evs₂, rfl, h₂⟩ := runs_call_iff.mp h₁
      rcases pending with e | pending
      · exact Or.inl ⟨_, (runs_ret_iff.mp h₂).2⟩
      obtain ⟨receipt, evs₃, rfl, h₃⟩ := runs_call_iff.mp h₂
      rcases receipt with e | ⟨hash, (- | block)⟩
      · exact Or.inl ⟨_, (runs_ret_iff.mp h₃).2⟩
      · exact Or.inl ⟨_, (runs_ret_iff.mp h₃).2⟩
      · obtain ⟨rfl, rfl⟩ := runs_ret_iff.mp h₃
        exact Or.inr ⟨_, _, _, _, .transfer _ n chainId block pending hash (wei_eq hamount), rfl⟩

theorem callTool_grounded {evs : List (Event (Rpc alloy.Address) Rpc.Answer)}
    {result : CallToolResult} (h : Runs (callTool from_ request) evs (.ok result)) :
    Grounded alloy evs result := by
  unfold callTool at h
  split at h
  case isTrue =>
    obtain ⟨result', evs₁, evs₂, rfl, h₁, h₂⟩ := runs_bind_iff.mp h
    obtain ⟨rfl, hresult⟩ := runs_ret_iff.mp h₂
    cases hresult
    rw [List.append_nil]
    exact getBalance_grounded h₁
  case isFalse =>
    split at h
    case isTrue =>
      obtain ⟨result', evs₁, evs₂, rfl, h₁, h₂⟩ := runs_bind_iff.mp h
      obtain ⟨rfl, hresult⟩ := runs_ret_iff.mp h₂
      cases hresult
      rw [List.append_nil]
      exact transfer_grounded h₁
    case isFalse => cases (runs_ret_iff.mp h).2

/-- What the gateway makes of a report. -/
def provenanceOf (chainId block : UInt64) (reference : Digest) : Provenance :=
  .onchain s!"eip155:{chainId}" block (displayHash reference)

theorem onchain_perm (chainId block : UInt64) (reference : Digest) :
    (onchain chainId block reference).Perm (provenanceOf chainId block reference).members := by
  show List.Perm ([_, _, _] ++ [_]) [_, _, _, _]
  apply (List.perm_append_singleton _ _).trans
  apply List.Perm.cons
  apply List.Perm.swap

theorem provenanceOf_filled (chainId block : UInt64) (reference : Digest) :
    (provenanceOf chainId block reference).Filled := by
  constructor
  · intro h
    have hl := congrArg String.toList h
    simp [toString] at hl
  · intro h
    have hl := congrArg String.toList h
    simp [displayHash] at hl

/-- A result is read by its value and its report. -/
theorem readResult_ok {deps : Deps} (qualified server : String) {result : CallToolResult}
    {value : Json} {p : Provenance} {blob : ByteArray}
    (hmap : mapResult deps { result with meta_ := none } = .ok value)
    (hread : readProvenance deps result.meta_ = .ok (p, blob)) :
    readResult deps qualified server (.ok result) = .ok ⟨value, p, blob⟩ := by
  simp only [readResult, hmap, hread]
  rfl

/-- How the gateway reads an attested result. -/
theorem readResult_attested (deps : Deps) (qualified server : String)
    (members : List (String × Json)) (chainId block : UInt64) (reference : Digest) :
    readResult deps qualified server (.ok (attested (.obj members) chainId block reference)) =
      .ok ⟨.obj members, provenanceOf chainId block reference,
        (provenanceOf chainId block reference).blob⟩ := by
  have hmap : mapResult deps { attested (.obj members) chainId block reference with meta_ := none } =
      .ok (.obj members) := rfl
  have hread : readProvenance deps (attested (.obj members) chainId block reference).meta_ =
      .ok (_, _) :=
    readProvenance_report (reportOf_single _) (onchain_perm chainId block reference)
      (provenanceOf_filled chainId block reference)
  exact readResult_ok qualified server hmap hread

/-- **The gateway believes what the wallet says, and the wallet what the chain
says.**  The result of any call, with the chain answering in any way, is read
by the gateway as a tool error, or as the value with `Onchain` provenance; and
then value, chain, block and reference are what the provider has answered in
that call. -/
theorem answers_believed (deps : Deps) (qualified server : String)
    {evs : List (Event (Rpc alloy.Address) Rpc.Answer)} {result : CallToolResult}
    (h : Runs (callTool from_ request) evs (.ok result)) :
    (∃ message, readResult deps qualified server (.ok result) = .error message) ∨
    ∃ value chainId block reference, Seen alloy evs value chainId block reference ∧
      readResult deps qualified server (.ok result) =
        .ok ⟨value, provenanceOf chainId block reference,
          (provenanceOf chainId block reference).blob⟩ := by
  rcases callTool_grounded h with ⟨message, rfl⟩ | ⟨value, chainId, block, reference, hseen, rfl⟩
  · exact Or.inl ⟨_, rfl⟩
  · refine Or.inr ⟨value, chainId, block, reference, hseen, ?_⟩
    cases hseen with
    | balance address chainId block wei => exact readResult_attested deps _ _ _ _ _ _
    | transfer tx n chainId block pending hash _ => exact readResult_attested deps _ _ _ _ _ _

end Reports

/-! ### A local chain -/

namespace Anvil

/-- Any text is an address. -/
def alloy : Alloy := ⟨String, .ok, id⟩

def transferParams : CallToolRequestParams :=
  ⟨"transfer", some [("amount", Serde.num 5), ("to", .str "0x01")]⟩

def zeros : Digest := Reference.Prog.hash .idle

/-- The transaction of 5 milli-ETH is sent and mined. -/
def transferEvents : List (Event (Rpc alloy.Address) Rpc.Answer) := [
  ⟨.getChainId, .ok 31337⟩,
  ⟨.sendTransaction ⟨"0x00", "0x01", 5000000000000000⟩, .ok zeros⟩,
  ⟨.getReceipt zeros, .ok ⟨zeros, some 7⟩⟩]

theorem transfer_runs : Runs (@callTool alloy "0x00" transferParams) transferEvents
    (.ok (attested (transferValue 5 zeros) 31337 7 zeros)) := by
  apply Runs.call
  apply Runs.call
  apply Runs.call
  exact Runs.ret _

end Anvil

open Anvil in
theorem transfer_exact_anvil :
    sent transferEvents = [⟨"0x00", "0x01", 5000000000000000⟩] ∧
    ∃ n tx, Asks alloy "0x00" transferParams n tx ∧ sent transferEvents = [tx] := by
  rcases transfer_exact transfer_runs.leads with hnone | hasks
  · cases hnone
  · exact ⟨rfl, hasks⟩

open Anvil in
theorem answers_believed_anvil : ∃ value chainId block hash,
    Seen alloy transferEvents value chainId block hash ∧
    readResult reference "wallet.transfer" "wallet"
      (.ok (attested (transferValue 5 zeros) 31337 7 zeros)) =
        .ok ⟨value, provenanceOf chainId block hash, (provenanceOf chainId block hash).blob⟩ := by
  rcases answers_believed reference "wallet.transfer" "wallet" transfer_runs with
    ⟨message, herror⟩ | hseen
  · have hread := readResult_attested reference "wallet.transfer" "wallet"
      [("amount", Serde.num 5), ("tx_hash", .str (displayHash zeros))] 31337 7 zeros
    have hsame : transferValue 5 zeros =
        .obj [("amount", Serde.num 5), ("tx_hash", .str (displayHash zeros))] := rfl
    rw [hsame, hread] at herror
    cases herror
  · exact hseen

end Wallet

end ProvenoGateway
