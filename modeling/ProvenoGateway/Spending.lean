/-
ProvenoGateway/Spending.lean

What a request can spend.

A wallet is one of the downstreams.  Each `tools/call` request to it is a call
of its handler, which may end anywhere: the connection may go, or the wallet
may crash after it has submitted a transaction.  Whatever happens, the bound
that the rules put on the `amount` of its transfers holds of every transaction
on the chain, and a request to the gateway submits no more transactions than
its program makes tool calls (`spending_bounded`).
-/
import Mathlib.Algebra.Order.BigOperators.Group.List
import ProvenoGateway.Authority
import ProvenoGateway.PolicyMeaning
import ProvenoGateway.Wallet

namespace ProvenoGateway

open Program

/-! ### From requests to transactions -/

section Spends

variable (alloy : Wallet.Alloy) (from_ : alloy.Address) (server : String)

/-- The transactions that requests to downstreams lead to, the wallet being
the one of this name. -/
inductive Spends : List Request → List (Wallet.TransactionRequest alloy.Address) → Prop
  | nil : Spends [] []
  | other (r : Request) {rest : List Request} {txs : List (Wallet.TransactionRequest alloy.Address)} :
      r.1.server ≠ server → Spends rest txs → Spends (r :: rest) txs
  | call (r : Request) {rest : List Request} {txs : List (Wallet.TransactionRequest alloy.Address)}
      {evs : List (Event (Wallet.Rpc alloy.Address) Wallet.Rpc.Answer)}
      {left : Wallet.Handler alloy.Address (Except ErrorData CallToolResult)} :
      r.1.server = server → Leads (Wallet.callTool from_ r.2) evs left → Spends rest txs →
      Spends (r :: rest) (Wallet.sent evs ++ txs)

variable {alloy from_ server}

/-- One transaction a request at most, and each one is asked for. -/
theorem Spends.asked {sent : List Request} {txs : List (Wallet.TransactionRequest alloy.Address)}
    (h : Spends alloy from_ server sent txs) : txs.length ≤ sent.length ∧
      ∀ tx ∈ txs, ∃ r ∈ sent, r.1.server = server ∧ ∃ n, Wallet.Asks alloy from_ r.2 n tx := by
  induction h with
  | nil => simp
  | other r _ _ ih =>
    refine ⟨Nat.le_succ_of_le ih.1, fun tx htx => ?_⟩
    obtain ⟨r', hr', hasks⟩ := ih.2 tx htx
    exact ⟨r', List.mem_cons_of_mem _ hr', hasks⟩
  | @call r rest txs evs left hserver hleads _ ih =>
    have hlater : ∀ tx ∈ txs, ∃ r' ∈ r :: rest, r'.1.server = server ∧
        ∃ n, Wallet.Asks alloy from_ r'.2 n tx := by
      intro tx htx
      obtain ⟨r', hr', hasks⟩ := ih.2 tx htx
      exact ⟨r', List.mem_cons_of_mem _ hr', hasks⟩
    obtain ⟨tx, hasks, hsubmits⟩ := Wallet.callTool_submits from_ r.2
    rcases Wallet.sent_of_submits hsubmits hleads with hnone | ⟨tx, rfl, hsent⟩
    · rw [hnone, List.nil_append]
      exact ⟨Nat.le_succ_of_le ih.1, hlater⟩
    · obtain ⟨n, hasks⟩ := hasks tx rfl
      rw [hsent, List.singleton_append]
      refine ⟨Nat.succ_le_succ ih.1, List.forall_mem_cons.mpr ⟨?_, hlater⟩⟩
      exact ⟨r, List.mem_cons_self, hserver, n, hasks⟩

end Spends

/-! ### The bound of the rules -/

section Bound

variable {deps : Deps} {net : Network} {engine : Engine} {p server : String} {cap : Int64}
variable {alloy : Wallet.Alloy} {from_ : alloy.Address}

theorem asI64_isInteger {v : Json} {n k : Int} (hn : v.asI64 = some n) (hk : IsInteger v k) :
    k = n := by
  rcases integer_cases v with ⟨m, hm, hiff⟩ | ⟨u, hnone, -⟩ | ⟨hnone, -⟩
  · rw [hn, Option.some_inj] at hm
    rw [(hiff k).mp hk, hm]
  · rw [hn] at hnone
    cases hnone
  · rw [hn] at hnone
    cases hnone

/-- A transfer that the rules admit is within their bound. -/
theorem Warranted.within {r : Request} (h : Warranted deps net engine p r)
    (hserver : r.1.server = server)
    (hbound : engine.policy.bound (server ++ ".transfer") "amount" = some cap) {n : Int}
    {tx : Wallet.TransactionRequest alloy.Address} (hasks : Wallet.Asks alloy from_ r.2 n tx) :
    n ≤ cap.toInt := by
  obtain ⟨tool, v, arguments, -, -, hname, -, -, hallow, harguments, hparams⟩ := h.covered
  have htool : tool.qualifiedName = server ++ ".transfer" := by
    have htransfer : tool.name = "transfer" := by
      rw [← hasks.name, hparams]
    rw [ToolSchema.qualifiedName, htransfer, ← hname, hserver]
    rfl
  rw [htool] at hallow
  obtain ⟨members, w, k, rfl, hlookup, hk, hle⟩ := (check_eq_allow.mp hallow).2 "amount" cap hbound
  cases harguments
  obtain ⟨w', harg, hn⟩ := hasks.amount
  -- what the rules looked at is what the wallet looks at
  rw [hparams] at harg
  have hsame : w = w' := Option.some.inj (hlookup.symm.trans harg)
  rw [← hsame] at hn
  rw [← asI64_isInteger hn hk]
  exact hle

end Bound

/-! ### The limit on tool calls -/

/-- The run makes `n` calls at most. -/
def VmRun.AtMost {Value Table : Type} : Nat → VmRun Value Table → Prop
  | _, .done _ => True
  | 0, .call _ _ _ _ => False
  | n + 1, .call _ _ _ next => ∀ answer, (next answer).AtMost n

section Limit

variable {deps : Deps}

/-- A run sends no more requests than it makes calls. -/
theorem Recording.requests_le {run : VmRun deps.Value deps.Table} {host last : GatewayHost}
    {calls : List (Recorded deps)} {e : VmEnd deps.Value}
    (h : Recording deps run host calls e last) {n : Nat} (hn : run.AtMost n) :
    (requests (calls.map fun c => c.step.events).flatten).length ≤ n := by
  induction h generalizing n with
  | done e host => exact Nat.zero_le n
  | @call c record next rest e last hok _ ih =>
    cases n with
    | zero => exact hn.elim
    | succ n =>
      have hrest := ih (hn c.answer)
      rw [List.map_cons, List.flatten_cons, requests_append, List.length_append]
      obtain ⟨entry, -, hnone | ⟨client, params, answer, hone, -⟩⟩ := hok.sends
      · rw [hnone]
        show 0 + _ ≤ n + 1
        omega
      · rw [hone]
        show 1 + _ ≤ n + 1
        omega

theorem execute_requests_le {engine : Engine} {principal : String} {req : ExecuteRequest}
    {evs : List (Event Op Res)} {outcome : Except ExecuteError ExecuteResponse} {n : Nat}
    (hn : ∀ program, (deps.execute program (VmConfig.ofSettings engine.vm)).AtMost n)
    (h : Runs (engine.execute deps principal req) evs outcome) : (requests evs).length ≤ n := by
  rcases runs_andThen h with ⟨e, hprepare, -⟩ | ⟨prepared, evs₁, evs₂, rfl, hprepare, h₂⟩
  · rw [requests_of_sendless (hprepare.allowed prepare_sendless)]
    exact Nat.zero_le n
  · obtain ⟨run, evs₃, evs₄, rfl, hrun, hfinish⟩ := runs_bind_iff.mp h₂
    obtain ⟨calls, e, last, htranscribed⟩ := runThread_runs hrun
    rw [requests_append, requests_append,
      requests_of_sendless (hprepare.allowed prepare_sendless),
      requests_of_sendless (hfinish.allowed finish_sendless), List.nil_append, List.append_nil,
      htranscribed.events]
    exact htranscribed.recording.requests_le (hn _)

end Limit

/-! ### What requests spend -/

section Bounded

variable {deps : Deps} {alloy : Wallet.Alloy} {from_ : alloy.Address} {server : String}

/-- What the rules admit is within their bound, each time. -/
theorem Spends.bounded {net : Network} {engine : Engine} {cap : Int64} {sent : List Request}
    {txs : List (Wallet.TransactionRequest alloy.Address)}
    (h : Spends alloy from_ server sent txs)
    (hwarranted : ∀ r ∈ sent, ∃ p, Warranted deps net engine p r)
    (hbound : engine.policy.bound (server ++ ".transfer") "amount" = some cap) :
    (∀ tx ∈ txs, tx.from_ = from_ ∧ 0 < tx.value ∧
      tx.value ≤ cap.toInt.toNat * Wallet.milliEthWei) ∧
    ∀ n, sent.length ≤ n →
      (txs.map fun tx => tx.value).sum ≤ n * (cap.toInt.toNat * Wallet.milliEthWei) := by
  obtain ⟨hlength, hasked⟩ := h.asked
  have heach : ∀ tx ∈ txs, tx.from_ = from_ ∧ 0 < tx.value ∧
      tx.value ≤ cap.toInt.toNat * Wallet.milliEthWei := by
    intro tx htx
    obtain ⟨r, hr, hserver, n, hasks⟩ := hasked tx htx
    obtain ⟨p, hp⟩ := hwarranted r hr
    have hle := hp.within hserver hbound hasks
    have hpos := hasks.positive
    refine ⟨hasks.sender, ?_, ?_⟩
    · rw [hasks.value]
      exact Nat.mul_pos (by omega) (by decide)
    · rw [hasks.value]
      exact Nat.mul_le_mul_right _ (by omega)
  refine ⟨heach, fun n hn => ?_⟩
  calc (txs.map fun tx => tx.value).sum
      ≤ (txs.map fun tx => tx.value).length * (cap.toInt.toNat * Wallet.milliEthWei) := by
        refine List.sum_le_card_nsmul _ _ fun x hx => ?_
        obtain ⟨tx, htx, rfl⟩ := List.mem_map.mp hx
        exact (heach tx htx).2.2
    _ ≤ n * (cap.toInt.toNat * Wallet.milliEthWei) := by
        rw [List.length_map]
        exact Nat.mul_le_mul_right _ (hlength.trans hn)

end Bounded

section Serve

variable {deps : Deps} {HeaderValue : Type} {alloy : Wallet.Alloy} {from_ : alloy.Address}

/-- **Spending is bounded.**  Where the rules bound the amount of the wallet's
transfers, everything a request makes it submit is a transfer from the
wallet's own account of more than nothing and no more than the bound; and if
core keeps to a limit of tool calls, the request moves no more than the bound
as often as that. -/
theorem spending_bounded (d : Deployment deps) (errorText : String → Json → String)
    (toStr : HeaderValue → Option String) (decode : ByteArray → Option McpRequest)
    (reply : Option (Except ErrorData McpResult) → HttpResponse)
    {request : HttpRequest HeaderValue} {server : String} {cap : Int64}
    (hbound : d.engine.policy.bound (server ++ ".transfer") "amount" = some cap)
    {evs : List (Event Op Res)} {response : HttpResponse}
    (h : Runs (Server.serve errorText toStr decode reply deps d.tokens d.engine request) evs
      response)
    {txs : List (Wallet.TransactionRequest alloy.Address)}
    (hspends : Spends alloy from_ server (requests evs) txs) :
    (∀ tx ∈ txs, tx.from_ = from_ ∧ 0 < tx.value ∧
      tx.value ≤ cap.toInt.toNat * Wallet.milliEthWei) ∧
    ∀ n, (∀ program, (deps.execute program (VmConfig.ofSettings d.engine.vm)).AtMost n) →
      (txs.map fun tx => tx.value).sum ≤ n * (cap.toInt.toNat * Wallet.milliEthWei) := by
  have hwarranted : ∀ r ∈ requests evs, ∃ p, Warranted deps d.net d.engine p r := by
    rcases serve_runs h with hnone | ⟨p, a, outcome, -, -, hexecute⟩
    · simp [hnone]
    · exact fun r hr => ⟨p, execute_warranted d.ready.2.2 hexecute r hr⟩
  obtain ⟨heach, hsum⟩ := hspends.bounded hwarranted hbound
  refine ⟨heach, fun n hn => hsum n ?_⟩
  rcases serve_runs h with hnone | ⟨p, a, outcome, -, -, hexecute⟩
  · rw [hnone]
    exact Nat.zero_le n
  · exact execute_requests_le hn hexecute

end Serve

/-! ### At the instance -/

namespace Reference

def payTable : Table := .fields [("amount", .nat 5), ("to", .string "0x01")]

/-- One transfer. -/
def paying : VmRun Value Table :=
  .call "s.transfer" payTable (record "s.transfer" payTable) fun
    | .ok t => .done ⟨.ok (.table t), 2, 2⟩
    | .error e => .done ⟨.error (.toolError e), 2, 2⟩

/-- Every program is `paying`. -/
def payDeps : Deps := { reference with execute := fun _ _ => paying }

def payNetwork : Network where
  start _ := .ok ()
  listAllTools _ := .ok [⟨"transfer", none, objectSchema, none⟩]

def payTool : ToolSchema := ⟨"s", "transfer", "", .obj objectSchema, none⟩

/-- `alice` may send up to 50. -/
def payRules (_ : String) : Except String PolicyFile :=
  .ok ⟨OrdMap.empty.insert "alice" ⟨["s.transfer"]⟩,
    OrdMap.empty.insert "s.transfer" (OrdMap.empty.insert "amount_max" 50)⟩

def payPolicy : Policy :=
  ⟨OrdMap.empty.insert "alice" (OrdSet.ofList ["s.transfer"]),
    OrdMap.empty.insert "s.transfer" (OrdMap.empty.insert "amount" 50)⟩

def payDownstreams : Downstreams := ⟨OrdMap.empty.insert "s" client, [payTool]⟩

def payEngine : Engine := ⟨vmDefault, payPolicy, payDownstreams, .under "/store", key⟩

theorem pay_connect :
    Downstreams.connect aliceEnv payNetwork aliceConfig.downstream = .ok payDownstreams := rfl

theorem pay_parse : Policy.parse payRules "rules" = .ok payPolicy := rfl

def payDeployment : Deployment payDeps where
  env := aliceEnv
  net := payNetwork
  config := aliceConfig
  tokens := aliceDigests
  engine := payEngine
  parsed := deployment.parsed
  started := ⟨payRules, startEvents,
    starts rfl rfl alice_resolve pay_parse pay_connect (key_read rfl) rfl rfl⟩

/-- What is sent for the transfer. -/
def payRequest : Request := (client, Wallet.Anvil.transferParams)

theorem pay_atMost : paying.AtMost 1 := by
  rintro (e | t) <;> trivial

theorem pay_compiles : compileProgram payDeps
    (build payDeps (payEngine.allowedSchemas "alice")).prelude ask.program = .ok .ask := rfl

def payPrepared : Engine.Prepared payDeps := payEngine.preparedOf payDeps "alice" ask .ask "0a"

/-- Tables do not depend on what is run. -/
theorem pay_tableToJson (t : Table) : tableToJson payDeps t = tableToJson reference t := rfl

theorem pay_callTool : payPrepared.host.callTool payDeps "s.transfer" payTable =
    toolsCall client Wallet.Anvil.transferParams >>= fun answer =>
      pure (GatewayHost.conclude payDeps payPrepared.host "s.transfer"
        (readResult payDeps "s.transfer" "s" answer)) := by
  have hargs : tableToJson payDeps payTable =
      .ok (.obj [("amount", Serde.num 5), ("to", .str "0x01")]) := by
    rw [pay_tableToJson]
    exact tableToJson_eq rfl
  unfold GatewayHost.callTool
  dsimp only
  rw [hargs]
  rfl

/-- A call that fails, and is the last one. -/
theorem drive_failed {deps : Deps} {host last : GatewayHost} {name : String} {args : deps.Table}
    {record : Except String deps.Table → ByteArray → ToolCallRecord}
    {next : Except String deps.Table → VmRun deps.Value deps.Table} {evs : List (Event Op Res)}
    {message : String} {e : VmEnd deps.Value}
    (hcall : Runs (host.callTool deps name args) evs (.error message, last))
    (hnext : next (.error message) = .done e) :
    Runs (drive deps (GatewayHost.interface deps) (.call name args record next) host []) evs
      (e, last, [record (.error message) ByteArray.empty]) := by
  rw [drive_call]
  refine runs_bind_iff.mpr ⟨_, evs, [], (List.append_nil _).symm, hcall, ?_⟩
  show Runs (drive deps (GatewayHost.interface deps) (next (.error message)) last _) [] _
  rw [hnext]
  exact Runs.ret _

/-- The connection goes while the transfer is on its way. -/
theorem pay_lost : ∃ message last, Runs (payPrepared.host.callTool payDeps "s.transfer" payTable)
    [⟨Op.toolsCall client Wallet.Anvil.transferParams, .error "gone"⟩] (.error message, last) ∧
      last.log.length = 1 := by
  rw [pay_callTool]
  refine ⟨_, _, runs_call_iff.mpr ⟨_, [], rfl, Runs.ret _⟩, rfl⟩

theorem pay_runs : ∃ run, Runs (payEngine.runThread payDeps payPrepared)
    [⟨Op.toolsCall client Wallet.Anvil.transferParams, .error "gone"⟩] run ∧
      run.outcome.output = none := by
  obtain ⟨message, last, hcall, hlog⟩ := pay_lost
  have hdrive : Runs (drive payDeps (GatewayHost.interface payDeps) paying payPrepared.host []) _ _ :=
    drive_failed hcall rfl
  refine ⟨⟨Engine.zipEntries [record "s.transfer" payTable (.error message) ByteArray.empty] last.log,
    outcome payDeps ⟨.error (.toolError message), 2, 2⟩ payEngine.vm.maxOutputBytes
      payPrepared.preludeLines⟩, ?_, rfl⟩
  refine runs_bind_iff.mpr ⟨_, _, [], (List.append_nil _).symm, hdrive, ?_⟩
  simp only [hlog]
  exact Runs.ret _

theorem pay_sends : ∃ evs response, Runs (payEngine.execute payDeps "alice" ask) evs (.ok response) ∧
    requests evs = [payRequest] := by
  obtain ⟨run, hrun, hout⟩ := pay_runs
  have hnone : ∀ json, run.outcome.output = some json → ∃ v, payDeps.fromStr json = .ok v := by
    intro json hjson
    rw [hout] at hjson
    cases hjson
  exact execute_sends (TraceStore.under_separate "/store") pay_compiles
    (show validKey "0a" = true by decide) hrun hnone

/-- The transfer was submitted before. -/
theorem pay_spends : Spends Wallet.Anvil.alloy "0x00" "s" [payRequest]
    [⟨"0x00", "0x01", 5000000000000000⟩] :=
  .call payRequest rfl Wallet.Anvil.transfer_runs.leads .nil

end Reference

open Reference in
/-- The connection goes during a transfer, which is within the bound. -/
theorem spending_bounded_reference : ∃ evs response,
    Runs (Server.serve (fun _ _ => "") headerText askBody statusOnly payDeps aliceDigests payEngine
      agentRequest) evs response ∧
    Spends Wallet.Anvil.alloy "0x00" "s" (requests evs) [⟨"0x00", "0x01", 5000000000000000⟩] ∧
    5000000000000000 ≤ 1 * (50 * Wallet.milliEthWei) := by
  obtain ⟨evs, outcome, hexecute, hsent⟩ := pay_sends
  have hauth : authenticated payDeps headerText aliceDigests agentRequest = some "alice" :=
    alice_passes
  obtain ⟨response, hserve⟩ : ∃ response, Runs (Server.serve (fun _ _ => "") headerText askBody
      statusOnly payDeps aliceDigests payEngine agentRequest) evs response :=
    serve_answers hauth (ask_asks _) hexecute
  have hspends : Spends Wallet.Anvil.alloy "0x00" "s" (requests evs)
      [⟨"0x00", "0x01", 5000000000000000⟩] := by
    rw [hsent]
    exact pay_spends
  have hbound : payEngine.policy.bound ("s" ++ ".transfer") "amount" = some 50 := rfl
  obtain ⟨-, hlimit⟩ := spending_bounded payDeployment (fun _ _ => "") headerText askBody statusOnly
    hbound hserve hspends
  exact ⟨evs, response, hserve, hspends, hlimit 1 fun _ => pay_atMost⟩

end ProvenoGateway
