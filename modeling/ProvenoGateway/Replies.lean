/-
ProvenoGateway/Replies.lean

How many programs a reply of the model can have run.

The guard tells the calls of a reply apart by their ids.  Where no later
`execute` of a reply has the id of its first, the first is the only one that
is sent; where one has, it passes for the first.

Each call of a reply is due once (`Scheduled`), and the ids are looked up in
the reply the call is from, because that is the last one when the call is
scheduled.
-/
import Mathlib.Data.List.Perm.Subperm
import ProvenoGateway.StopRules

namespace ProvenoGateway

namespace DemoAgent

open Transitions

/-! ### Ids -/

def ToolCall.isExecute (call : ToolCall) : Bool := call.name = "execute"

/-- No later `execute` has the id of the first. -/
def firstIdAlone (calls : List ToolCall) : Bool :=
  match calls.filter ToolCall.isExecute with
  | [] => true
  | first :: rest => rest.all fun c => c.id ≠ first.id

/-- The place of the first `execute`. -/
def firstExecute (calls : List ToolCall) : Option Nat := calls.findIdx? ToolCall.isExecute

/-- The ids of a call are looked up in its own reply. -/
theorem firstExecuteOfItsReply_concat {prior : List (List ToolCall)} {calls : List ToolCall}
    {call : ToolCall} (h : call ∈ calls) :
    firstExecuteOfItsReply (prior ++ [calls]) call.id =
      (calls.find? ToolCall.isExecute).map fun c => decide (c.id = call.id) := by
  have hany : (calls.any fun c => decide (c.id = call.id)) = true :=
    List.any_eq_true.mpr ⟨call, h, by simp⟩
  have hfind : (prior ++ [calls]).reverse.find? (fun calls => calls.any fun c => c.id = call.id) =
      some calls := by
    rw [List.reverse_append, List.reverse_singleton, List.singleton_append, List.find?_cons, hany]
  unfold firstExecuteOfItsReply
  rw [hfind]
  rfl

/-- With the first id alone, the call that passes is the first. -/
theorem position_of_first {calls : List ToolCall} (halone : firstIdAlone calls = true)
    {position : Nat} {call : ToolCall} (hcall : calls[position]? = some call)
    (hname : call.name = "execute")
    (hfirst : (calls.find? ToolCall.isExecute).map (fun c => decide (c.id = call.id)) = some true) :
    firstExecute calls = some position := by
  have hexecute : call.isExecute = true := by
    unfold ToolCall.isExecute
    rw [hname]
    rfl
  obtain ⟨first, hfind, hid⟩ := Option.map_eq_some_iff.mp hfirst
  rw [decide_eq_true_eq] at hid
  obtain ⟨hfound, before, after, rfl, hbefore⟩ := List.find?_eq_some_iff_append.mp hfind
  have hnone : ∀ c ∈ before, c.isExecute = false := fun c hc => by simpa using hbefore c hc
  have hlater : ∀ c ∈ after, c.isExecute = true → c.id ≠ first.id := by
    have hfilter : (before ++ first :: after).filter ToolCall.isExecute =
        first :: after.filter ToolCall.isExecute := by
      rw [List.filter_append, List.filter_eq_nil_iff.mpr (by simpa using hnone),
        List.filter_cons_of_pos hfound, List.nil_append]
    unfold firstIdAlone at halone
    rw [hfilter] at halone
    intro c hc hexecute
    simpa using List.all_eq_true.mp halone c (List.mem_filter.mpr ⟨hc, hexecute⟩)
  have hindex : firstExecute (before ++ first :: after) = some before.length := by
    unfold firstExecute
    rw [List.findIdx?_append, List.findIdx?_eq_none_iff.mpr hnone, List.findIdx?_cons, if_pos hfound]
    simp
  rw [hindex]
  rcases Nat.lt_trichotomy position before.length with hlt | rfl | hgt
  · rw [List.getElem?_append_left hlt] at hcall
    have hmem := hnone call (List.mem_of_getElem? hcall)
    rw [hexecute] at hmem
    cases hmem
  · rfl
  · rw [List.getElem?_append_right hgt.le] at hcall
    obtain ⟨k, hk⟩ := Nat.exists_eq_add_of_lt hgt
    have hsub : position - before.length = k + 1 := by omega
    rw [hsub, List.getElem?_cons_succ] at hcall
    exact absurd hid.symm (hlater call (List.mem_of_getElem? hcall) hexecute)

/-! ### What is due -/

/-- The number and the place of a call. -/
def Task.key (task : Task) : Nat × Nat := (task.reply, task.position)

/-- The replies so far. -/
def asked (evs : List Event) : List (List ToolCall) :=
  evs.filterMap fun
    | .asked calls => some calls
    | _ => none

/-- The tasks whose call has been sent. -/
def sentTasks (evs : List Event) : List Task :=
  evs.filterMap fun
    | .sent task _ => some task
    | _ => none

/-- The task is a call of one of the replies, and was scheduled when that
reply was the last. -/
structure Due (replies : List (List ToolCall)) (task : Task) : Prop where
  reply : ∃ calls, replies[task.reply]? = some calls ∧ calls[task.position]? = some task.call ∧
    ∃ prior, task.replies = prior ++ [calls]

/-- Every call is due once. -/
structure Scheduled (evs : List Event) (s : AgentState) : Prop where
  replies : s.replies = asked evs
  due : ∀ task ∈ sentTasks evs ++ s.tasks, Due s.replies task
  passed : ∀ task ∈ sentTasks evs, task.call.name = "execute" ∧
    firstExecuteOfItsReply task.replies task.call.id = some true
  nodup : ((sentTasks evs ++ s.tasks).map Task.key).Nodup

theorem Due.lt {replies : List (List ToolCall)} {task : Task} (h : Due replies task) :
    task.reply < replies.length := by
  obtain ⟨calls, hcalls, -⟩ := h.reply
  exact (List.getElem?_eq_some_iff.mp hcalls).1

theorem Due.concat {replies : List (List ToolCall)} {task : Task} (h : Due replies task)
    (calls : List ToolCall) : Due (replies ++ [calls]) task := by
  obtain ⟨calls', hcalls, hcall, hprior⟩ := h.reply
  refine ⟨calls', ?_, hcall, hprior⟩
  rw [List.getElem?_append_left h.lt]
  exact hcalls

theorem due_tasksOf (replies : List (List ToolCall)) (calls : List ToolCall) :
    ∀ task ∈ tasksOf replies calls, Due (replies ++ [calls]) task := by
  intro task htask
  obtain ⟨⟨call, i⟩, hmem, rfl⟩ := List.mem_map.mp htask
  refine ⟨calls, ?_, List.mem_zipIdx_iff_getElem?.mp hmem, replies, rfl⟩
  exact List.getElem?_concat_length

theorem reply_tasksOf {replies : List (List ToolCall)} {calls : List ToolCall} :
    ∀ task ∈ tasksOf replies calls, task.reply = replies.length := by
  intro task htask
  obtain ⟨c, -, rfl⟩ := List.mem_map.mp htask
  rfl

theorem nodup_tasksOf (replies : List (List ToolCall)) (calls : List ToolCall) :
    ((tasksOf replies calls).map Task.key).Nodup := by
  have hkeys : (tasksOf replies calls).map Task.key =
      (List.range' 0 calls.length).map fun i => (replies.length, i) := by
    rw [tasksOf, List.map_map, ← List.zipIdx_map_snd, List.map_map]
    rfl
  rw [hkeys]
  exact List.Nodup.map (fun _ _ h => (Prod.mk.inj h).2) List.nodup_range'

theorem sentTasks_concat (evs : List Event) (e : Event) :
    sentTasks (evs ++ [e]) = sentTasks evs ++ sentTasks [e] := by
  rw [sentTasks, sentTasks, sentTasks, List.filterMap_append]

theorem asked_concat (evs : List Event) (e : Event) : asked (evs ++ [e]) = asked evs ++ asked [e] := by
  rw [asked, asked, asked, List.filterMap_append]

/-- A step that schedules nothing leaves no more due than before. -/
theorem Scheduled.shrink {evs : List Event} {s s' : AgentState} {e : Event} (hs : Scheduled evs s)
    (hasked : asked [e] = []) (hreplies : s'.replies = s.replies)
    (hsub : (sentTasks (evs ++ [e]) ++ s'.tasks).Subperm (sentTasks evs ++ s.tasks))
    (hpassed : ∀ task ∈ sentTasks [e], task.call.name = "execute" ∧
      firstExecuteOfItsReply task.replies task.call.id = some true) :
    Scheduled (evs ++ [e]) s' := by
  constructor
  · rw [hreplies, asked_concat, hasked, List.append_nil]
    exact hs.replies
  · rw [hreplies]
    exact fun task htask => hs.due task (hsub.subset htask)
  · intro task htask
    rw [sentTasks_concat] at htask
    rcases List.mem_append.mp htask with htask | htask
    · exact hs.passed task htask
    · exact hpassed task htask
  · obtain ⟨l, hperm, hsublist⟩ := hsub
    rw [← (hperm.map Task.key).nodup_iff]
    exact (hsublist.map Task.key).nodup hs.nodup

/-- A call that is neither due any more nor sent. -/
theorem Scheduled.drop {evs : List Event} {s s' : AgentState} {e : Event}
    {before after : List Task} {task : Task} (hs : Scheduled evs s) (hasked : asked [e] = [])
    (hsent : sentTasks [e] = []) (htasks : s.tasks = before ++ task :: after)
    (hreplies : s'.replies = s.replies) (htasks' : s'.tasks = before ++ after) :
    Scheduled (evs ++ [e]) s' := by
  refine hs.shrink hasked hreplies ?_ (by rw [hsent]; exact nofun)
  rw [sentTasks_concat, hsent, List.append_nil, htasks, htasks']
  have hsub : (before ++ after).Sublist (before ++ task :: after) :=
    (List.sublist_cons_self task after).append_left before
  exact (hsub.append_left _).subperm

/-- A step that leaves what is due as it is. -/
theorem Scheduled.same {evs : List Event} {s s' : AgentState} {e : Event} (hs : Scheduled evs s)
    (hasked : asked [e] = []) (hsent : sentTasks [e] = []) (hreplies : s'.replies = s.replies)
    (htasks : s'.tasks = s.tasks) : Scheduled (evs ++ [e]) s' := by
  refine hs.shrink hasked hreplies ?_ (by rw [hsent]; exact nofun)
  rw [sentTasks_concat, hsent, List.append_nil, htasks]

theorem Scheduled.step {evs : List Event} {s s' : AgentState} {e : Event} (hs : Scheduled evs s)
    (h : Step s e s') : Scheduled (evs ++ [e]) s' := by
  cases h with
  | ask calls guard _ _ =>
    have hsent : sentTasks (evs ++ [.asked calls]) = sentTasks evs := by
      rw [sentTasks_concat]
      exact List.append_nil _
    constructor
    · rw [asked_concat]
      show s.replies ++ [calls] = _
      rw [hs.replies]
      rfl
    · rw [hsent, ← List.append_assoc]
      intro task htask
      rcases List.mem_append.mp htask with htask | htask
      · exact (hs.due task htask).concat calls
      · exact due_tasksOf s.replies calls task htask
    · rw [hsent]
      exact hs.passed
    · rw [hsent, ← List.append_assoc, List.map_append]
      refine hs.nodup.append (nodup_tasksOf s.replies calls) ?_
      -- the new calls are of a reply of their own
      intro key hold hnew
      obtain ⟨task, htask, rfl⟩ := List.mem_map.mp hold
      obtain ⟨task', htask', hkey⟩ := List.mem_map.mp hnew
      have hreply : task'.reply = task.reply := congrArg Prod.fst hkey
      have hlt := (hs.due task htask).lt
      have hlast := reply_tasksOf task' htask'
      omega
  | jump guard _ _ => exact hs.same rfl rfl rfl rfl
  | refuse before after task guard message htasks _ _ _ => exact hs.drop rfl rfl htasks rfl rfl
  | raise before after task guard htasks _ _ _ => exact hs.drop rfl rfl htasks rfl rfl
  | send before after task guard call htasks hname _ henter =>
    obtain ⟨-, -, -, hfirst⟩ := ExecuteGuard.enter_sent henter
    refine hs.shrink rfl rfl ?_ ?_
    · rw [sentTasks_concat, htasks, List.append_assoc]
      have hperm : (task :: (before ++ after)).Perm (before ++ task :: after) :=
        List.perm_middle.symm
      exact (hperm.append_left (sentTasks evs)).subperm
    · intro task' htask'
      obtain rfl := List.mem_singleton.mp htask'
      exact ⟨hname, hfirst⟩
  | keep flight result _ => exact hs.same rfl rfl rfl rfl
  | return_ flight result _ _ _ => exact hs.same rfl rfl rfl rfl
  | fail flight e _ => exact hs.same rfl rfl rfl rfl
  | other before after task result htasks _ => exact hs.drop rfl rfl htasks rfl rfl
  | end_ _ _ _ _ => exact hs.same rfl rfl rfl rfl

theorem walk_scheduled {settings : Settings} {session : String} {evs : List Event} {s : AgentState}
    (h : Walk Step (.initial settings session) evs s) : Scheduled evs s := by
  have hstart : Scheduled [] (.initial settings session) := ⟨rfl, nofun, nofun, List.nodup_nil⟩
  exact h.keeps (fun _ _ _ _ hs hstep => hs.step hstep) hstart

/-! ### One `execute` for each reply -/

/-- What is sent of the replies. -/
structure OneEach (evs : List Event) : Prop where
  /-- It is the first `execute` its reply lists. -/
  first : ∀ task ∈ sentTasks evs, ∃ calls, (asked evs)[task.reply]? = some calls ∧
    calls[task.position]? = some task.call ∧ firstExecute calls = some task.position
  /-- No two are of one reply. -/
  once : ((sentTasks evs).map Task.reply).Nodup

/-- In every run whose replies do not repeat the id of their first `execute`,
that call is the only one sent of its reply. -/
theorem one_execute_each {settings : Settings} {session : String} {evs : List Event}
    {s : AgentState} (h : Walk Step (.initial settings session) evs s)
    (halone : ∀ calls ∈ asked evs, firstIdAlone calls = true) : OneEach evs := by
  have hscheduled := walk_scheduled h
  have hfirst : ∀ task ∈ sentTasks evs, ∃ calls, (asked evs)[task.reply]? = some calls ∧
      calls[task.position]? = some task.call ∧ firstExecute calls = some task.position := by
    intro task htask
    obtain ⟨hname, hpassed⟩ := hscheduled.passed task htask
    have hdue := hscheduled.due task (List.mem_append_left _ htask)
    obtain ⟨calls, hcalls, hcall, prior, hprior⟩ := hdue.reply
    rw [hscheduled.replies] at hcalls
    rw [hprior, firstExecuteOfItsReply_concat (List.mem_of_getElem? hcall)] at hpassed
    exact ⟨calls, hcalls, hcall, position_of_first (halone calls (List.mem_of_getElem? hcalls))
      hcall hname hpassed⟩
  refine ⟨hfirst, ?_⟩
  have hkeys : ((sentTasks evs).map Task.key).Nodup := by
    have hnodup := hscheduled.nodup
    rw [List.map_append] at hnodup
    exact hnodup.of_append_left
  refine (List.Nodup.of_map Task.key hkeys).map_on ?_
  intro task htask task' htask' hreply
  obtain ⟨calls, hcalls, -, hposition⟩ := hfirst task htask
  obtain ⟨calls', hcalls', -, hposition'⟩ := hfirst task' htask'
  rw [← hreply, hcalls] at hcalls'
  cases hcalls'
  rw [hposition] at hposition'
  have hkey : task.key = task'.key := Prod.ext hreply (Option.some.inj hposition')
  exact List.inj_on_of_nodup_map hkeys htask htask' hkey

end DemoAgent

/-! ### At a run -/

namespace Reference

open DemoAgent Transitions

theorem oops_alone : ∀ calls ∈ DemoAgent.asked oopsEvents, firstIdAlone calls = true := by
  intro calls hcalls
  obtain rfl := List.mem_singleton.mp hcalls
  rfl

/-- The limits of the source. -/
def agentSettings : Settings := ⟨"task", 3, 5, 12⟩

/-- A reply with two programs under one id. -/
def twins : List ToolCall := [oopsCall, oopsCall]

def twin (position : Nat) : Task := ⟨0, position, oopsCall, [twins]⟩

/-- The answer to a program that ran. -/
def ranResult : CallToolResult := .structured (ExecuteResponse.toValue ⟨none, "0a", .ok⟩)

def twinEvents : List Event :=
  [.asked twins, .sent (twin 0) oopsSent, .kept ranResult, .returned ranResult,
    .sent (twin 1) oopsSent]

theorem twin_walk : ∃ s, Walk Step (.initial agentSettings "s") twinEvents s :=
  ⟨_, .cons _ (.ask _ twins _ rfl rfl) <|
    .cons _ (.send _ [] [twin 1] (twin 0) _ oopsSent rfl rfl rfl rfl) <|
    .cons _ (.keep _ _ ranResult rfl) <|
    .cons _ (.return_ _ _ ranResult rfl rfl rfl) <|
    .cons _ (.send _ [] [] (twin 1) _ oopsSent rfl rfl rfl rfl) <| .nil _⟩

end Reference

open Reference in
theorem one_execute_each_oops : DemoAgent.OneEach oopsEvents := by
  obtain ⟨s, hwalk⟩ := oops_walk
  exact DemoAgent.one_execute_each hwalk oops_alone

open Reference in
/-- Two programs of one reply are sent where they share an id. -/
theorem two_programs_under_one_id : ¬ ∀ (settings : DemoAgent.Settings) (session : String)
    (evs : List DemoAgent.Event) (s : DemoAgent.AgentState),
    Transitions.Walk DemoAgent.Step (.initial settings session) evs s → DemoAgent.OneEach evs := by
  intro hall
  obtain ⟨s, hwalk⟩ := twin_walk
  have honce := (hall agentSettings "s" twinEvents s hwalk).once
  have htwice : ¬ [0, 0].Nodup := by decide
  exact htwice honce

end ProvenoGateway
