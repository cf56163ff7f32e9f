import MyCursor.Interruptions

/-!
# Rounds that are skipped for an injection

A tool round is not started while an injected message is pending. Where every
delivery that has ended was applied by the run, the message that keeps a round
from being started is still on its way, and the round is not settled: the run
will be interrupted in it.
-/
namespace MyCursor.Injections
open Message Compaction Run Engine RunSteps
open Store hiding step
open Delivery EventOrder ConversationOutput ClientSession Interruptions
open Transitions Hoare

/-- A round that was interrupted before it is executed has a message pending. -/
structure RoundsMarked (o : Output) (p : Progress) : Prop where
  interrupted : ∀ round_id ∈ o.interrupted_rounds, round_id ∈ p.announced
  active : ∀ round_id, o.active_round = some round_id → round_id ∈ p.announced
  waiting : ∀ round_id, p.waiting = some round_id → round_id ∈ p.announced
  pending : ∀ round_id, p.waiting = some round_id → round_id ∈ o.interrupted_rounds → o.pending_injections ≠ []

section Steps
variable {o o' : Output} {p : Progress}

theorem RoundsMarked.skips (marked : RoundsMarked o p) {round_id : ToolRoundId} {calls : List ToolCall}
    (allowed : Allowed p (.ExecuteToolRound round_id calls)) (done : execute_tool_round o round_id calls = (o',none)) :
    o.pending_injections ≠ [] := by
  rcases (execute_skipped done).1 with isInterrupted | isPending
  · exact marked.pending round_id allowed.1 isInterrupted
  · exact isPending

theorem RoundsMarked.execute (marked : RoundsMarked o p) {round_id : ToolRoundId} {calls : List ToolCall}
    (allowed : Allowed p (.ExecuteToolRound round_id calls)) {batch : Option (List ToolCall)}
    (done : execute_tool_round o round_id calls = (o',batch)) :
    RoundsMarked o' (progress p (.ExecuteToolRound round_id calls)) := by
  have announced := marked.waiting round_id allowed.1
  cases batch with
  | none =>
    obtain ⟨_,completed,rfl⟩ := execute_skipped done
    refine ⟨?_,?_,by simp [progress],by simp [progress]⟩
    · intro other member
      rcases List.mem_cons.mp member with rfl | old
      · exact announced
      · exact marked.interrupted other old
    · exact fun other isActive => Option.some.inj isActive ▸ announced
  | some batch =>
    obtain ⟨completed,_,rfl⟩ := execute_dispatched done
    exact ⟨marked.interrupted,fun other isActive => Option.some.inj isActive ▸ announced,by simp [progress],
      by simp [progress]⟩

theorem RoundsMarked.commit (marked : RoundsMarked o p) {barrier : CommitBarrier} {cause : CommitCause}
    (committed : Committed o cause o') (allowed : CommitAllowed p barrier cause) :
    RoundsMarked o' (commitProgress p cause) := by
  have grows : p.announced ⊆ (commitProgress p cause).announced := by
    cases cause with
    | ToolRoundStarted started => exact fun _ => List.mem_cons_of_mem _
    | _ => exact fun _ => id
  refine ⟨fun round_id member => grows (marked.interrupted round_id (committed.rounds member)),?_,?_,?_⟩
  · intro round_id isActive
    rcases committed.active_round round_id isActive with old | rfl
    · exact grows (marked.active round_id old)
    · exact List.mem_cons_self
  · intro round_id isWaiting
    cases cause with
    | ToolRoundStarted started => exact Option.some.inj isWaiting ▸ List.mem_cons_self
    | _ => exact grows (marked.waiting round_id isWaiting)
  · intro round_id isWaiting member
    have member := committed.rounds member
    cases cause with
    | ToolRoundStarted started =>
      cases Option.some.inj isWaiting
      exact absurd (marked.interrupted _ member) allowed.2
    | RuntimeEvent event_id =>
      -- Nothing is applied while a round waits.
      rw [commitProgress,allowed.1] at isWaiting
      cases isWaiting
    | _ =>
      rw [committed.pending (by simp)]
      exact marked.pending round_id isWaiting member

theorem RoundsMarked.queue (marked : RoundsMarked o p) (injection_id : String) : RoundsMarked (queue_injection o injection_id) p := by
  refine ⟨?_,marked.active,marked.waiting,by simp [queue_injection]⟩
  intro round_id member
  rcases List.mem_append.mp member with new | old
  · exact marked.active round_id (Option.mem_toList.mp new)
  · exact marked.interrupted round_id old

end Steps

/-! ## The round that is executed next -/

variable {entry : Entry}

/-- Only the end of the run comes after an event that it waits for. -/
def BarrierLast (channel : List RunEvent) : Prop :=
  ∀ before event after, channel = before ++ event :: after → requiresBarrier event = true →
    ∀ later ∈ after, ∃ outcome, later = .Ended outcome

theorem BarrierLast.tail {event : RunEvent} {rest : List RunEvent} (last : BarrierLast (event :: rest)) : BarrierLast rest :=
  fun before barrier after split => last (event :: before) barrier after (by rw [split]; rfl)

variable {channel : List RunEvent}

theorem BarrierLast.append (last : BarrierLast channel) (free : outsideWait entry = true ∨ channel.any requiresBarrier = false) :
    BarrierLast (channel ++ (emittedEvent entry).toList) := by
  cases isEvent : emittedEvent entry with
  | none => simpa using last
  | some new =>
    intro before event after split required later member
    rcases split_snoc split with ⟨rfl,_,_⟩ | ⟨earlier,rfl,shorter⟩
    · cases member
    · rcases List.mem_append.mp member with old | isNew
      · exact last before event earlier shorter required later old
      rw [List.mem_singleton.mp isNew]
      rcases free with outside | free
      · cases entry with
        | Emitted emitted =>
          cases emitted with
          | Ended outcome => exact ⟨outcome,(Option.some.inj isEvent).symm⟩
          | _ => cases outside
        | _ => cases isEvent
      · rw [shorter] at free
        simp [required] at free

theorem results_only {events : List RunEvent} (last : BarrierLast events) {p : Progress}
    (ordered : Meets progress Allowed p events) (unsettled : p.uncommitted ≠ []) (state : MessagesCommitted)
    (member : .MessagesCommitted state ∈ events) : ∃ call_id interrupted, state.cause = .ToolResult call_id interrupted := by
  induction events generalizing p with
  | nil => cases member
  | cons event rest ih =>
    obtain ⟨allowed,ordered⟩ := ordered
    by_cases isResult : ∃ one call_id interrupted, event = .MessagesCommitted one ∧ one.cause = .ToolResult call_id interrupted
    · obtain ⟨one,call_id,interrupted,rfl,isCause⟩ := isResult
      rcases List.mem_cons.mp member with same | later
      · cases same
        exact ⟨call_id,interrupted,isCause⟩
      simp only [Allowed,isCause,CommitAllowed] at allowed
      by_cases settled : p.uncommitted.filter (· ≠ call_id) = []
      · obtain ⟨outcome,isEnded⟩ := last [] _ rest rfl (allowed settled) _ later
        cases isEnded
      · refine ih last.tail ordered ?_ later
        simpa only [progress,isCause,commitProgress] using settled
    · -- Anything else that is told of a round waits until it is settled.
      have same : progress p event = p ∧ event ≠ .MessagesCommitted state := by
        cases event with
        | MessagesCommitted one =>
          simp only [Allowed] at allowed
          cases isCause : one.cause with
          | ToolResult call_id interrupted => exact absurd ⟨one,call_id,interrupted,rfl,isCause⟩ isResult
          | ToolRoundStarted round_id =>
            rw [isCause] at allowed
            exact absurd allowed.1.2 unsettled
          | _ =>
            rw [isCause] at allowed
            exact absurd allowed.2 unsettled
        | ExecuteToolRound round_id calls => exact absurd allowed.2.1 unsettled
        | _ => exact ⟨rfl,by simp⟩
      rw [same.1] at ordered
      rcases List.mem_cons.mp member with isEvent | later
      · exact absurd isEvent.symm same.2
      · exact ih last.tail ordered unsettled later

variable {stage : Stage}

/-- The run took the batch and has not answered; a commit under the id of the
    batch is not handled yet unless the task is told. -/
def Taken (past : List Entry) (channel : List RunEvent) (task : Task) (ticket : Nat) : Prop :=
  ∃ before after, past = before ++ .Accepted (task.batch ticket) :: after ∧ (∀ result, .Answered ticket result ∉ after) ∧
    (task.told = false → ∀ state, .Emitted (.MessagesCommitted state) ∈ after →
      state.cause = .RuntimeEvent task.compiled.event_id → .MessagesCommitted state ∈ channel)

structure TasksSound (s : Session) : Prop where
  pending : ∀ key ∈ s.output.pending_injections,
    ∃ task ∈ s.tasks, task.key = key ∧ task.told = false ∧ task.stage ≠ .Returned .Applied
  identified : ∀ task ∈ s.tasks, task.compiled.message.runtime_event_id = some task.compiled.event_id
  taken : ∀ task ∈ s.tasks, ∀ ticket, task.stage = .Submitted ticket → Taken s.past s.channel task ticket

variable {task : Task}

variable {past : List Entry} {ticket : Nat}

theorem Taken.append (taken : Taken past channel task ticket) (other : ∀ result, entry ≠ .Answered ticket result) :
    Taken (past ++ [entry]) (channel ++ (emittedEvent entry).toList) task ticket := by
  obtain ⟨before,after,rfl,unanswered,committed⟩ := taken
  refine ⟨before,after ++ [entry],by simp,?_,?_⟩
  · intro result member
    rcases List.mem_append.mp member with old | new
    · exact unanswered result old
    · exact other result (List.mem_singleton.mp new).symm
  · intro untold state member isCause
    rcases List.mem_append.mp member with old | new
    · exact List.mem_append_left _ (committed untold state old isCause)
    · rw [← List.mem_singleton.mp new]
      simp [emittedEvent]

variable {log : List Entry}

variable {rest : List Entry}

theorem Taken.applied (announced : AppliedAnnounced log) (distinct : ((accepted log).map (·.ticket)).Nodup)
    (split : log = past ++ .Answered ticket .Applied :: rest) (taken : Taken past channel task ticket)
    (identified : task.compiled.message.runtime_event_id = some task.compiled.event_id)
    (free : channel.any requiresBarrier = false) : task.told = true := by
  obtain ⟨before,after,isPast,_,committed⟩ := taken
  obtain ⟨batch,isTicket,first,checkpoint,event_id,later,isFirst,isAccepted,m,isMessage,isEvent⟩ :=
    announced past ticket rest split
  obtain ⟨earlier,between,rfl⟩ := List.append_of_mem isAccepted
  have split' : past = earlier ++ .Accepted batch :: (between ++
      .Emitted (.MessagesCommitted ⟨checkpoint,0,.RuntimeEvent event_id,.BeforeContinue⟩) :: later) := by
    rw [isFirst]
    simp
  have distinct : ((accepted past).map (·.ticket)).Nodup := by
    refine distinct.sublist (List.Sublist.map _ ?_)
    rw [split]
    exact (List.sublist_append_left _ _).filterMap _
  obtain ⟨rfl,_,isAfter⟩ := accepted_once distinct isPast split' isTicket
  rw [List.mem_singleton.mp isMessage,identified,Option.some.injEq] at isEvent
  by_contra untold
  have member := committed (by simpa using untold) ⟨checkpoint,0,.RuntimeEvent event_id,.BeforeContinue⟩
    (by rw [← isAfter]; simp) (by rw [isEvent])
  have required : channel.any requiresBarrier = true := List.any_eq_true.mpr ⟨_,member,rfl⟩
  rw [free] at required
  cases required

variable {index : Nat}

theorem mem_modify {tasks : List Task} (member : task ∈ tasks.modify index fun task => { task with stage }) :
    task ∈ tasks ∨ ∃ old, tasks[index]? = some old ∧ task = { old with stage } := by
  obtain ⟨at_,isTask⟩ := List.mem_iff_getElem?.mp member
  rw [List.getElem?_modify] at isTask
  obtain ⟨old,isOld,same⟩ := Option.map_eq_some_iff.mp isTask
  split_ifs at same with here
  · exact .inr ⟨old,here ▸ isOld,same.symm⟩
  · exact .inl (List.mem_iff_getElem?.mpr ⟨at_,same ▸ isOld⟩)
theorem modify_mem {tasks : List Task} (stage : Stage) (member : task ∈ tasks) :
    task ∈ (tasks.modify index fun task => { task with stage }) ∨
      ({ task with stage } ∈ (tasks.modify index fun task => { task with stage }) ∧ tasks[index]? = some task) := by
  obtain ⟨at_,isTask⟩ := List.mem_iff_getElem?.mp member
  by_cases here : index = at_
  · refine .inr ⟨List.mem_iff_getElem?.mpr ⟨at_,?_⟩,here ▸ isTask⟩
    simp [isTask,here]
  · refine .inl (List.mem_iff_getElem?.mpr ⟨at_,?_⟩)
    simp [isTask,here]

theorem Task.answered_same (task : Task) (entry : Entry) :
    (task.answered entry).compiled = task.compiled ∧ (task.answered entry).told = task.told := by
  unfold ClientSession.Task.answered
  split
  · split_ifs
    · exact ⟨rfl,rfl⟩
    · exact ⟨rfl,rfl⟩
  · exact ⟨rfl,rfl⟩

variable {s : Session}

/-- The run goes on: a task that waits is answered, and only one that was told
    learns that its batch was applied. -/
theorem TasksSound.take (announced : AppliedAnnounced log)
    (distinct : ((accepted log).map (·.ticket)).Nodup) (follows : Follows log s) (sound : TasksSound s) (next : s.coming = entry :: rest)
    (free : outsideWait entry = true ∨ s.channel.any requiresBarrier = false) : TasksSound (takeEntry s entry rest) := by
  refine ⟨?_,?_,?_⟩
  · intro key isPending
    obtain ⟨task,member,isKey,untold,unapplied⟩ := sound.pending key isPending
    obtain ⟨compiled,told⟩ := Task.answered_same task entry
    refine ⟨task.answered entry,List.mem_map_of_mem member,?_,told.trans untold,?_⟩
    · rw [Task.key,compiled]
      exact isKey
    intro applied
    unfold ClientSession.Task.answered at applied
    split at applied
    · next ticket result =>
      split_ifs at applied with waits
      · cases applied
        have isTold := (sound.taken task member ticket waits).applied announced distinct
          (by rw [← follows.log,next]) (sound.identified task member) (free.resolve_left (by simp [outsideWait]))
        rw [untold] at isTold
        cases isTold
      · exact unapplied applied
    · exact unapplied applied
  · intro task member
    obtain ⟨old,isOld,rfl⟩ := List.mem_map.mp member
    rw [(Task.answered_same old entry).1]
    exact sound.identified old isOld
  · intro task member ticket waits
    obtain ⟨old,isOld,rfl⟩ := List.mem_map.mp member
    unfold ClientSession.Task.answered at waits ⊢
    split at waits
    · next answered result =>
      split_ifs at waits ⊢ with isTicket
      refine (sound.taken old isOld ticket waits).append ?_
      rintro result' same
      cases same
      exact isTicket waits
    · next other =>
      refine (sound.taken old isOld ticket waits).append ?_
      rintro result rfl
      exact other _ _ rfl

theorem TasksSound.setStage (sound : TasksSound s) {old : Task}
    (isOld : s.tasks[index]? = some old) (unapplied : stage ≠ .Returned .Applied)
    (taken : ∀ ticket, stage = .Submitted ticket → Taken s.past s.channel { old with stage } ticket) :
    TasksSound (setStage s index stage) := by
  refine ⟨?_,?_,?_⟩
  · intro key isPending
    obtain ⟨task,member,isKey,untold,other⟩ := sound.pending key isPending
    rcases modify_mem stage member with same | ⟨changed,_⟩
    · exact ⟨task,same,isKey,untold,other⟩
    · exact ⟨_,changed,isKey,untold,unapplied⟩
  · intro task member
    rcases mem_modify member with same | ⟨one,isOne,rfl⟩
    · exact sound.identified task same
    · exact sound.identified one (List.mem_of_getElem? isOne)
  · intro task member ticket waits
    rcases mem_modify member with same | ⟨one,isOne,rfl⟩
    · exact sound.taken task same ticket waits
    · rw [isOld,Option.some.injEq] at isOne
      exact isOne ▸ taken ticket waits

theorem TasksSound.submit (announced : AppliedAnnounced log)
    (distinct : ((accepted log).map (·.ticket)).Nodup) (follows : Follows log s) (sound : TasksSound s)
    (isTask : s.tasks[index]? = some task) (next : s.coming = entry :: rest) (submitted : task.submitted entry = some stage) :
    TasksSound (ClientSession.setStage (takeEntry s entry rest) index stage) := by
  have outside : outsideWait entry = true := by
    cases entry with
    | Accepted | Refused => rfl
    | _ => cases submitted
  have same : task.answered entry = task := by
    cases entry with
    | Answered => cases outside
    | _ => rfl
  refine (sound.take announced distinct follows next (.inl outside)).setStage (show _ = some task from ?_) ?_ ?_
  · simp only [takeEntry,List.getElem?_map,isTask,Option.map_some,same]
  · cases entry with
    | Accepted batch =>
      simp only [ClientSession.Task.submitted] at submitted
      split_ifs at submitted
      cases submitted
      simp
    | Refused result =>
      cases submitted
      simp
    | _ => cases submitted
  · rintro ticket rfl
    cases entry with
    | Accepted batch =>
      simp only [ClientSession.Task.submitted] at submitted
      split_ifs at submitted with isBatch
      cases submitted
      rw [isBatch]
      exact ⟨s.past,[],rfl,by simp,by simp⟩
    | _ => cases submitted

theorem Taken.other {event : RunEvent} {rest : List RunEvent} (taken : Taken past (event :: rest) task ticket)
    (other : task.told = false → ∀ state, event = .MessagesCommitted state → state.cause ≠ .RuntimeEvent task.compiled.event_id) :
    Taken past rest task ticket := by
  obtain ⟨before,after,isPast,unanswered,committed⟩ := taken
  refine ⟨before,after,isPast,unanswered,fun untold state member isCause => ?_⟩
  rcases List.mem_cons.mp (committed untold state member isCause) with same | later
  · exact absurd isCause (other untold state same.symm)
  · exact later

theorem TasksSound.commit (sound : TasksSound s) {state : MessagesCommitted} {rest : List RunEvent}
    {output : Output} (next : s.channel = .MessagesCommitted state :: rest)
    (committed : Committed s.output state.cause output) (interrupted : List (ToolRoundId × String)) :
    TasksSound { s.taken (.MessagesCommitted state) rest with
      output, tasks := tellTasks state.cause s.tasks, interrupted } := by
  have taken := sound.taken
  rw [next] at taken
  by_cases isRuntime : ∃ event_id, state.cause = .RuntimeEvent event_id
  · obtain ⟨event_id,isCause⟩ := isRuntime
    simp only [isCause,tellTasks]
    have untold : ∀ {task : Task}, task.key ≠ injectionKey event_id →
        (if task.key = injectionKey event_id then { task with told := true } else task) = task := fun other => if_neg other
    refine ⟨?_,?_,?_⟩
    · intro key isPending
      rw [committed.delivered event_id isCause,List.mem_filter] at isPending
      obtain ⟨task,member,isKey,isUntold,unapplied⟩ := sound.pending key isPending.1
      have other : task.key ≠ injectionKey event_id := by simpa [isKey] using isPending.2
      refine ⟨task,List.mem_map.mpr ⟨task,member,untold other⟩,isKey,isUntold,unapplied⟩
    · intro task member
      obtain ⟨old,isOld,rfl⟩ := List.mem_map.mp member
      split_ifs
      · exact sound.identified old isOld
      · exact sound.identified old isOld
    · intro task member ticket waits
      obtain ⟨old,isOld,rfl⟩ := List.mem_map.mp member
      by_cases same : old.key = injectionKey event_id
      · rw [if_pos same] at waits ⊢
        obtain ⟨before,after,isPast,unanswered,_⟩ := taken old isOld ticket waits
        exact ⟨before,after,isPast,unanswered,by simp⟩
      · rw [if_neg same] at waits ⊢
        refine (taken old isOld ticket waits).other ?_
        intro _ one isEvent isOne
        cases isEvent
        rw [isCause,CommitCause.RuntimeEvent.injEq] at isOne
        exact same (by rw [Task.key,isOne])
  · have other := not_exists.mp isRuntime
    have same : tellTasks state.cause s.tasks = s.tasks := by
      unfold tellTasks
      split
      · next event_id isCause => exact absurd isCause (other event_id)
      · rfl
    simp only [same]
    refine ⟨?_,sound.identified,?_⟩
    · rw [committed.pending other]
      exact sound.pending
    · intro task member ticket waits
      refine (taken task member ticket waits).other ?_
      rintro _ one same isOne
      cases same
      exact other _ isOne

theorem TasksSound.keep {t : Session} (sound : TasksSound s)
    (quiet : s.channel = t.channel ∨ ∃ event, s.channel = event :: t.channel ∧ ∀ state, event ≠ .MessagesCommitted state)
    (pending : t.output.pending_injections = s.output.pending_injections) (tasks : t.tasks = s.tasks)
    (past : t.past = s.past) : TasksSound t := by
  refine ⟨?_,?_,?_⟩
  · rw [pending,tasks]
    exact sound.pending
  · rw [tasks]
    exact sound.identified
  · rw [tasks,past]
    intro task member ticket waits
    have taken := sound.taken task member ticket waits
    rcases quiet with same | ⟨event,next,uncommitted⟩
    · exact same ▸ taken
    · rw [next] at taken
      exact taken.other fun _ state isEvent => absurd isEvent (uncommitted state)

theorem TasksSound.queue (sound : TasksSound s) {compiled : CompiledMessages}
    (identified : compiled.message.runtime_event_id = some compiled.event_id) (interrupted : List (ToolRoundId × String)) :
    TasksSound { s with
      output := queue_injection s.output (injectionKey compiled.event_id), tasks := s.tasks ++ [{ compiled }], interrupted } := by
  refine ⟨?_,?_,?_⟩
  · intro key isPending
    rcases List.mem_cons.mp isPending with rfl | old
    · exact ⟨{ compiled },by simp,rfl,rfl,by simp⟩
    · obtain ⟨task,member,rest⟩ := sound.pending key old
      exact ⟨task,List.mem_append_left _ member,rest⟩
  · intro task member
    rcases List.mem_append.mp member with old | new
    · exact sound.identified task old
    · rw [List.mem_singleton.mp new]
      exact identified
  · intro task member ticket waits
    rcases List.mem_append.mp member with old | new
    · exact sound.taken task old ticket waits
    · rw [List.mem_singleton.mp new] at waits
      cases waits

structure Sound (s : Session) : Prop where
  marked : RoundsMarked s.output s.progress
  tasks : TasksSound s
  last : BarrierLast s.channel

theorem step_sound (ordered : Meets progress Allowed {} (emitted log))
    (announced : AppliedAnnounced log) (distinct : ((accepted log).map (·.ticket)).Nodup) {t : Session} {label : Label}
    (follows : Follows log s) (change : Change s label t) (sound : s.ended = false → Sound s) : t.ended = false → Sound t := by
  cases change with
  | stay => exact sound
  | ending _ _ ended => exact fun still => absurd (ended.symm.trans still) (by simp)
  | take entry rest next free =>
    intro still
    have sound := sound still
    exact ⟨sound.marked,sound.tasks.take announced distinct follows next free,sound.last.append free⟩
  | elsewhere index task result isTask inFlight =>
    intro still
    have sound := sound still
    exact ⟨sound.marked,sound.tasks.setStage isTask (by simp) (by simp),sound.last⟩
  | submit index task entry rest stage isTask spawned next submitted =>
    intro still
    have sound := sound still
    refine ⟨sound.marked,sound.tasks.submit announced distinct follows isTask next submitted,?_⟩
    refine sound.last.append (.inl ?_)
    cases entry with
    | Accepted | Refused => rfl
    | _ => cases submitted
  | commit state rest waits output running next committed =>
    have sound := sound running
    have marked := sound.marked.commit committed (follows.allowed ordered next)
    have last := sound.last
    rw [next] at last
    exact fun _ => ⟨(s.progress_taken (.MessagesCommitted state) rest).symm ▸ marked,sound.tasks.commit next committed _,last.tail⟩
  | skip round_id calls rest waits output running next done =>
    have sound := sound running
    have marked := sound.marked.execute (follows.allowed ordered next) done
    obtain ⟨_,completed,rfl⟩ := execute_skipped done
    refine fun _ => ⟨(s.progress_taken _ rest).symm ▸ marked,sound.tasks.keep (.inr ⟨_,next,by simp⟩) rfl rfl rfl,?_⟩
    exact (next ▸ sound.last : BarrierLast (_ :: rest)).tail
  | dispatch round_id calls batch rest waits output running next done =>
    have sound := sound running
    have marked := sound.marked.execute (follows.allowed ordered next) done
    obtain ⟨completed,_,rfl⟩ := execute_dispatched done
    refine fun _ => ⟨(s.progress_taken _ rest).symm ▸ marked,sound.tasks.keep (.inr ⟨_,next,by simp⟩) rfl rfl rfl,?_⟩
    exact (next ▸ sound.last : BarrierLast (_ :: rest)).tail
  | other event rest waits running next uncommitted unexecuted =>
    have sound := sound running
    have same : (s.taken event rest).progress = s.progress :=
      (s.progress_taken event rest).trans (progress_other uncommitted unexecuted _)
    refine fun _ => ⟨same ▸ sound.marked,sound.tasks.keep (.inr ⟨event,next,uncommitted⟩) rfl rfl rfl,?_⟩
    exact (next ▸ sound.last : BarrierLast (_ :: rest)).tail
  | complete round_id call_id waits output running member same =>
    have sound := sound running
    rcases same with rfl | rfl
    · exact fun _ => ⟨sound.marked,sound.tasks.keep (.inl rfl) rfl rfl rfl,sound.last⟩
    · refine fun _ => ⟨?_,sound.tasks.keep (.inl rfl) rfl rfl rfl,sound.last⟩
      exact ⟨sound.marked.interrupted,sound.marked.active,sound.marked.waiting,sound.marked.pending⟩
  | reject action injection_ids running =>
    have sound := sound running
    refine fun _ => ⟨?_,sound.tasks.keep (.inl rfl) rfl rfl rfl,sound.last⟩
    exact ⟨sound.marked.interrupted,sound.marked.active,sound.marked.waiting,sound.marked.pending⟩
  | queue action compiled running identified =>
    have sound := sound running
    exact fun _ => ⟨sound.marked.queue _,sound.tasks.queue identified _,sound.last⟩

/-- The batch is on its way to the run, or the run has taken it and neither
    answered nor committed its message. -/
def OnItsWay (s : Session) (task : Task) : Prop :=
  task.stage = .Spawned ∨ ∃ ticket before after, task.stage = .Submitted ticket ∧
    s.past = before ++ .Accepted (task.batch ticket) :: after ∧ (∀ result, .Answered ticket result ∉ after) ∧
    ∀ state, .Emitted (.MessagesCommitted state) ∈ after → state.cause ≠ .RuntimeEvent task.compiled.event_id

/-- The run has committed nothing but results of the round since it told the
    client to execute it. -/
def RoundPending (events : List RunEvent) : Prop :=
  ∀ state, .MessagesCommitted state ∈ events → ∃ call_id interrupted, state.cause = .ToolResult call_id interrupted

section Runs
variable {Digest : Type} [DecidableEq Digest] [MessageHash Digest] [SerdeText] [Blobs]

/-- Where every delivery that has ended was applied by the run, a round is
    skipped only for a message that is still on its way, while the round is
    pending. -/
theorem skipped_round_interrupted (prepared : PreparedRun) (ops : List Op) (script : List Move) (request_id : String)
    {result : Except Halt RunOutcome} {w : World Digest}
    (ran : runFrom (run prepared) (initial (replay ops) script) = (result,w)) (labels : List Label) {s : Session}
    (reached : after step (.initial request_id prepared.run_id w.log) labels = s) (running : s.ended = false)
    {round_id : ToolRoundId} {calls : List ToolCall} {rest : List RunEvent}
    (next : s.channel = .ExecuteToolRound round_id calls :: rest)
    (skipped : (execute_tool_round s.output round_id calls).2 = none)
    (applied : ∀ task ∈ s.tasks, task.stage.inFlight = true ∨ task.stage = .Returned .Applied) :
    (∃ task ∈ s.tasks, OnItsWay s task) ∧ RoundPending rest := by
  have ordered := emitted_in_order ran
  have start : Follows w.log (.initial request_id prepared.run_id w.log) ∧
      ((Session.initial request_id prepared.run_id w.log).ended = false → Sound (.initial request_id prepared.run_id w.log)) := by
    refine ⟨⟨rfl,rfl⟩,fun _ => ⟨⟨?_,?_,?_,?_⟩,⟨?_,?_,?_⟩,?_⟩⟩ <;> simp [Session.initial,Session.progress,BarrierLast]
  obtain ⟨follows,sound⟩ := Transitions.invariant (P := fun s => Follows w.log s ∧ (s.ended = false → Sound s)) start
    (fun s label holds => ⟨step_follows holds.1 label,step_sound ordered (applied_announced ran) (accepted_distinct ran)
      holds.1 (step_change s label) holds.2⟩) labels
  rw [reached] at follows sound
  have sound := sound running
  have allowed := follows.allowed ordered next
  have last : BarrierLast (.ExecuteToolRound round_id calls :: rest) := next ▸ sound.last
  have pending : RoundPending rest := by
    have split : emitted w.log = s.handled ++ (.ExecuteToolRound round_id calls :: (rest ++ emitted s.coming)) := by
      rw [← follows.log,emitted,List.filterMap_append]
      show emitted s.past ++ emitted s.coming = _
      rw [← follows.events,next,List.append_assoc]
      rfl
    rw [split] at ordered
    intro state member
    refine results_only last.tail ordered.split.2.2.split.1 ?_ state member
    simpa [progress] using allowed.2.2.1
  refine ⟨?_,pending⟩
  have isPending := sound.marked.skips allowed (Prod.ext rfl skipped)
  obtain ⟨key,others,isKey⟩ := List.exists_cons_of_ne_nil isPending
  obtain ⟨task,member,_,untold,unapplied⟩ := sound.tasks.pending key (by rw [isKey]; exact List.mem_cons_self)
  refine ⟨task,member,?_⟩
  have inFlight := (applied task member).resolve_right unapplied
  cases isStage : task.stage with
  | Spawned => exact .inl isStage
  | Submitted ticket =>
    obtain ⟨before,after,isPast,unanswered,committed⟩ := sound.tasks.taken task member ticket isStage
    refine .inr ⟨ticket,before,after,isStage,isPast,unanswered,fun state isState isCause => ?_⟩
    -- Its commit would be among the results of the round.
    have inChannel := committed untold state isState isCause
    rw [next] at inChannel
    rcases List.mem_cons.mp inChannel with same | later
    · cases same
    · obtain ⟨call_id,interrupted,isResult⟩ := pending state later
      rw [isCause] at isResult
      cases isResult
  | Returned | Elsewhere =>
    rw [isStage] at inFlight
    cases inFlight

end Runs

section Identity
local instance : MessageHash (List CanonicalMessage) := ⟨id⟩
-- The arguments are the only value that is measured.
local instance : SerdeText := ⟨fun _ => "null",fun _ => "",fun _ => ""⟩
local instance : Blobs := ⟨fun _ => .ok [],id⟩

/-- The run is told of the question in its first call of the provider and again
    in the second; the answer to the third calls a tool. -/
def askedTwice : List Move :=
  [{},{ choice := .Anchor none },{},{},{},{ actions := [asks "m"], choice := .Command },answered "",{},{},{},ready,
   {},{},{},{ actions := [asks "m"], choice := .Command },answered "",{},{},{},{},{},callsTool,{},{},{}]
/-- The first delivery is applied, the second a duplicate; the round is up. -/
def stalled : List Label :=
  List.replicate 5 .Run ++ [asked "m",.Deliver 0 none] ++ List.replicate 4 .Run ++ [.Event {},.Event {}] ++
    List.replicate 4 .Run ++ [asked "m",.Deliver 1 none] ++ List.replicate 11 .Run ++ [.Event {},.Event {}]

/-- The round is skipped, and no message is on its way. -/
theorem duplicate_stalls_round : (sessionAfter askedTwice stalled).ended = false ∧
      nextRound (sessionAfter askedTwice stalled) (.Event {}) = some ("run:round:2",[lookup]) ∧
      (execute_tool_round (sessionAfter askedTwice stalled).output "run:round:2" [lookup]).2 = none ∧
      ∀ task ∈ (sessionAfter askedTwice stalled).tasks, ¬ OnItsWay (sessionAfter askedTwice stalled) task := by
  refine ⟨by decide +kernel,by decide +kernel,by decide +kernel,?_⟩
  have stages : (sessionAfter askedTwice stalled).tasks.map (·.stage) = [.Returned .Applied,.Returned .Duplicate] := by
    decide +kernel
  intro task member onItsWay
  have isStage : task.stage ∈ [Stage.Returned .Applied,Stage.Returned .Duplicate] :=
    stages ▸ List.mem_map_of_mem member
  rcases onItsWay with spawned | ⟨ticket,_,_,submitted,_⟩
  · rw [spawned] at isStage
    simp at isStage
  · rw [submitted] at isStage
    simp at isStage

def skipping : List Label := List.replicate 9 .Run ++ [.Event {},asked "m"]

theorem skipped_round_interrupted_question :
    (execute_tool_round (sessionAfter lookingUp skipping).output "run:round:0" [lookup]).2 = none ∧
      ∃ task ∈ (sessionAfter lookingUp skipping).tasks, OnItsWay (sessionAfter lookingUp skipping) task := by
  have skipped : (execute_tool_round (sessionAfter lookingUp skipping).output "run:round:0" [lookup]).2 = none := by
    decide +kernel
  have applied : ∀ task ∈ (sessionAfter lookingUp skipping).tasks,
      task.stage.inFlight = true ∨ task.stage = .Returned .Applied := by
    decide +kernel
  have next : (sessionAfter lookingUp skipping).channel = [.ExecuteToolRound "run:round:0" [lookup]] := by decide +kernel
  have interrupted := skipped_round_interrupted turn [.import_checkpoint "c" [greeting]] lookingUp "request"
    (w := (ranOn lookingUp).2) Prod.mk.eta.symm skipping (s := sessionAfter lookingUp skipping) rfl (by decide +kernel)
    next skipped applied
  exact ⟨skipped,interrupted.1⟩

end Identity

end MyCursor.Injections
