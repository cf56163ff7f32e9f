import MyCursor.Error
import MyCursor.Message
import MyCursor.Transitions
import Mathlib.Data.List.Nodup
import Mathlib.Logic.Function.Basic

/-!
# The schedule of edits

`EditSchedule` of `cursor/tools/schedule.rs`: of the edits of one path the
first is started at once and the others wait, each for the completion of the
one before it.
-/
namespace MyCursor.EditSchedule
open Message

variable {Context : Type}

structure DeferredEdit (Context : Type) where
  call : ToolCall
  message_index : Nat
  publish_started : Bool
  context : Context

structure EditPathQueue (Context : Type) where
  active_call_id : String
  waiting : List (DeferredEdit Context)

/-- The queue of every path that has an active edit, and the path of every
    active call. -/
structure Schedule (Context : Type) where
  paths : String → Option (EditPathQueue Context) := fun _ => none
  active_paths : String → Option String := fun _ => none

def start_or_defer (s : Schedule Context) (path : String) (edit : DeferredEdit Context) :
    Option (DeferredEdit Context) × Schedule Context :=
  match s.paths path with
  | some queue => (none,{ s with paths := Function.update s.paths path (some { queue with waiting := queue.waiting ++ [edit] }) })
  | none => (some edit,{
      active_paths := Function.update s.active_paths edit.call.call_id (some path)
      paths := Function.update s.paths path (some ⟨edit.call.call_id,[]⟩) })

/-- The entry of the call is removed before its path is looked up. -/
def complete (s : Schedule Context) (call_id : String) : Except Error (Option (DeferredEdit Context)) × Schedule Context :=
  match s.active_paths call_id with
  | none => (.ok none,s)
  | some path =>
    let s := { s with active_paths := Function.update s.active_paths call_id none }
    match s.paths path with
    | none => (.error (.Protocol s!"active edit path disappeared for call {call_id}"),s)
    | some queue =>
      if queue.active_call_id ≠ call_id then
        (.error (.Protocol s!"edit path is active for {queue.active_call_id}, not {call_id}"),s)
      else match queue.waiting with
        | next :: waiting => (.ok (some next),{
            active_paths := Function.update s.active_paths next.call.call_id (some path)
            paths := Function.update s.paths path (some ⟨next.call.call_id,waiting⟩) })
        | [] => (.ok none,{ s with paths := Function.update s.paths path none })

inductive Op (Context : Type) where
  | start_or_defer (path : String) (edit : DeferredEdit Context)
  | complete (call_id : String)
  | clear

/-- The schedule, with what happened on each path since it was last cleared:
    the edits submitted, those that were started, and those whose completion was
    reported while they were active. The calls seen are never forgotten. -/
structure Tracked (Context : Type) where
  schedule : Schedule Context := {}
  submitted : String → List (DeferredEdit Context) := fun _ => []
  started : String → List (DeferredEdit Context) := fun _ => []
  completed : String → List (DeferredEdit Context) := fun _ => []
  errors : List Error := []
  seen : List String := []

def Tracked.active (t : Tracked Context) (path : String) : Option (DeferredEdit Context) :=
  (t.started path)[(t.completed path).length]?
def Tracked.isActive (t : Tracked Context) (path call_id : String) : Bool :=
  (t.active path).any (·.call.call_id = call_id)

def step (t : Tracked Context) : Op Context → Tracked Context
  | .start_or_defer path edit =>
    let (next,schedule) := start_or_defer t.schedule path edit
    { t with
      schedule
      submitted := Function.update t.submitted path (t.submitted path ++ [edit])
      started := Function.update t.started path (t.started path ++ next.toList)
      seen := edit.call.call_id :: t.seen }
  | .complete call_id =>
    match complete t.schedule call_id with
    | (.error error,schedule) => { t with schedule, errors := t.errors ++ [error] }
    | (.ok next,schedule) => { t with
        schedule
        started := fun path => if t.isActive path call_id then t.started path ++ next.toList else t.started path
        completed := fun path =>
          if t.isActive path call_id then t.completed path ++ (t.active path).toList else t.completed path }
  | .clear => { t with schedule := {}, submitted := fun _ => [], started := fun _ => [], completed := fun _ => [] }

def Op.submits : Op Context → Option String
  | .start_or_defer _ edit => some edit.call.call_id
  | _ => none

/-- On every path the edits are started in the order of their submission, one
    more than are completed, whatever happens on the other paths; no completion
    fails, and it starts the edit after the one that it is for. -/
structure InTurn (t : Tracked Context) : Prop where
  started : ∀ path, t.started path = (t.submitted path).take ((t.completed path).length + 1)
  completed : ∀ path, t.completed path <+: t.started path
  distinct : ∀ path, (t.submitted path).Nodup
  noError : t.errors = []
  completes : ∀ call_id, ∃ next schedule, complete t.schedule call_id = (.ok next,schedule) ∧
    ∀ edit, next = some edit → ∃ path, t.isActive path call_id = true ∧ (t.submitted path)[(t.started path).length]? = some edit
  starts : ∀ path edit, (start_or_defer t.schedule path edit).1 = if (t.active path).isNone then some edit else none

variable {path call_id : String}

def PathOk (submitted started completed : List (DeferredEdit Context)) : Option (EditPathQueue Context) → Prop
  | none => submitted = completed ∧ started = completed
  | some queue => ∃ edit, started = completed ++ [edit] ∧ edit.call.call_id = queue.active_call_id ∧ submitted = started ++ queue.waiting

/-- The two maps agree: a call is active on a path when the queue there names it. -/
def Linked (s : Schedule Context) : Prop :=
  ∀ call_id path, s.active_paths call_id = some path ↔ ∃ queue, s.paths path = some queue ∧ queue.active_call_id = call_id

structure Inv (t : Tracked Context) : Prop where
  path : ∀ path, PathOk (t.submitted path) (t.started path) (t.completed path) (t.schedule.paths path)
  active : Linked t.schedule
  known : ∀ path, ∀ edit ∈ t.submitted path, edit.call.call_id ∈ t.seen
  distinct : ∀ path, ((t.submitted path).map (·.call.call_id)).Nodup
  apart : ∀ path other, path ≠ other → ∀ a ∈ t.submitted path, ∀ b ∈ t.submitted other, a.call.call_id ≠ b.call.call_id
  noError : t.errors = []

variable {s : Schedule Context}

theorem Linked.leave (linked : Linked s) (isActive : s.active_paths call_id = some path) :
    Linked { active_paths := Function.update s.active_paths call_id none, paths := Function.update s.paths path none } := by
  obtain ⟨queue,isQueue,named⟩ := (linked call_id path).mp isActive
  intro other elsewhere
  dsimp only
  by_cases isCall : other = call_id
  · subst isCall
    rw [Function.update_self]
    refine ⟨nofun,?_⟩
    rintro ⟨queue',isQueue',named'⟩
    by_cases same : elsewhere = path
    · subst same
      simp at isQueue'
    · rw [Function.update_of_ne same] at isQueue'
      have := (linked other elsewhere).mpr ⟨queue',isQueue',named'⟩
      rw [isActive,Option.some.injEq] at this
      exact absurd this.symm same
  · rw [Function.update_of_ne isCall,linked]
    by_cases same : elsewhere = path
    · subst same
      rw [Function.update_self]
      refine ⟨?_,nofun⟩
      rintro ⟨queue',isQueue',named'⟩
      rw [isQueue,Option.some.injEq] at isQueue'
      subst isQueue'
      exact absurd (named'.symm.trans named) isCall
    · rw [Function.update_of_ne same]

theorem Linked.enter (linked : Linked s) (free : s.paths path = none)
    (new : ∀ other queue, s.paths other = some queue → queue.active_call_id ≠ call_id) (waiting : List (DeferredEdit Context)) :
    Linked { active_paths := Function.update s.active_paths call_id (some path)
             paths := Function.update s.paths path (some ⟨call_id,waiting⟩) } := by
  intro other elsewhere
  dsimp only
  by_cases same : elsewhere = path
  · subst same
    rw [Function.update_self]
    by_cases isCall : other = call_id
    · subst isCall
      simp
    · rw [Function.update_of_ne isCall,linked,free]
      refine ⟨nofun,?_⟩
      rintro ⟨queue,isQueue,rfl⟩
      obtain rfl := Option.some.inj isQueue
      exact absurd rfl isCall
  · rw [Function.update_of_ne same]
    by_cases isCall : other = call_id
    · subst isCall
      rw [Function.update_self,Option.some.injEq]
      refine ⟨fun isPath => absurd isPath.symm same,?_⟩
      rintro ⟨queue,isQueue,named⟩
      exact absurd named (new elsewhere queue isQueue)
    · rw [Function.update_of_ne isCall,linked]

variable {queue : EditPathQueue Context}

theorem Linked.defer (linked : Linked s) (isQueue : s.paths path = some queue) (waiting : List (DeferredEdit Context)) :
    Linked { s with paths := Function.update s.paths path (some { queue with waiting }) } := by
  intro call_id other
  dsimp only
  rw [linked]
  by_cases same : other = path
  · subst same
    simp [isQueue]
  · rw [Function.update_of_ne same]

variable {t : Tracked Context}

theorem Inv.none_active (inv : Inv t) (none_ : t.schedule.paths path = none) : t.active path = none := by
  have ok := inv.path path
  rw [none_] at ok
  simp [Tracked.active,ok.2]
theorem Inv.some_active (inv : Inv t) (isQueue : t.schedule.paths path = some queue) : ∃ edit, t.active path = some edit ∧
      edit.call.call_id = queue.active_call_id ∧ t.started path = t.completed path ++ [edit] ∧
      t.submitted path = t.completed path ++ edit :: queue.waiting := by
  have ok := inv.path path
  rw [isQueue] at ok
  obtain ⟨edit,started,named,submitted⟩ := ok
  exact ⟨edit,by simp [Tracked.active,started],named,started,by simp [submitted,started]⟩

theorem Inv.isActive_iff (inv : Inv t) (path call_id : String) :
    t.isActive path call_id = true ↔ t.schedule.active_paths call_id = some path := by
  rw [inv.active]
  cases isQueue : t.schedule.paths path with
  | none => simp [Tracked.isActive,inv.none_active isQueue]
  | some queue =>
    obtain ⟨edit,isActive,named,_⟩ := inv.some_active isQueue
    simp [Tracked.isActive,isActive,named]

theorem Inv.active_known (inv : Inv t) (isQueue : t.schedule.paths path = some queue) : queue.active_call_id ∈ t.seen := by
  obtain ⟨edit,_,named,_,submitted⟩ := inv.some_active isQueue
  rw [← named]
  exact inv.known path edit (by simp [submitted])

theorem Inv.start (inv : Inv t) {edit : DeferredEdit Context} (new : edit.call.call_id ∉ t.seen) :
    Inv (step t (.start_or_defer path edit)) := by
  have submitted : ∀ {other : String} {a : DeferredEdit Context},
      a ∈ Function.update t.submitted path (t.submitted path ++ [edit]) other →
      a ∈ t.submitted other ∨ other = path ∧ a = edit := by
    intro other a member
    by_cases same : other = path
    · subst same
      simpa using member
    · rw [Function.update_of_ne same] at member
      exact .inl member
  have known : ∀ other, ∀ a ∈ Function.update t.submitted path (t.submitted path ++ [edit]) other,
      a.call.call_id ∈ edit.call.call_id :: t.seen := by
    intro other a member
    rcases submitted member with old | ⟨_,rfl⟩
    · exact List.mem_cons_of_mem _ (inv.known other a old)
    · exact List.mem_cons_self
  have fresh : ∀ other, ∀ a ∈ t.submitted other, a.call.call_id ≠ edit.call.call_id :=
    fun other a member same => new (same ▸ inv.known other a member)
  have distinct : ∀ other,
      ((Function.update t.submitted path (t.submitted path ++ [edit]) other).map (·.call.call_id)).Nodup := by
    intro other
    by_cases same : other = path
    · subst same
      rw [Function.update_self,List.map_append,List.nodup_append]
      refine ⟨inv.distinct other,by simp,?_⟩
      intro a member b isLast
      obtain ⟨old,isOld,rfl⟩ := List.mem_map.mp member
      rw [List.map_singleton,List.mem_singleton] at isLast
      exact isLast ▸ fresh other old isOld
    · rw [Function.update_of_ne same]
      exact inv.distinct other
  have apart : ∀ first second, first ≠ second → ∀ a ∈ Function.update t.submitted path (t.submitted path ++ [edit]) first,
      ∀ b ∈ Function.update t.submitted path (t.submitted path ++ [edit]) second, a.call.call_id ≠ b.call.call_id := by
    intro first second different a aMember b bMember
    rcases submitted aMember with aOld | ⟨rfl,rfl⟩
    · rcases submitted bMember with bOld | ⟨rfl,rfl⟩
      · exact inv.apart first second different a aOld b bOld
      · exact fresh first a aOld
    · rcases submitted bMember with bOld | ⟨same,_⟩
      · exact (fresh second b bOld).symm
      · exact absurd same.symm different
  simp only [step,start_or_defer]
  cases isQueue : t.schedule.paths path with
  | some queue =>
    refine ⟨?_,?_,known,distinct,apart,inv.noError⟩
    · intro other
      by_cases same : other = path
      · subst same
        have ok := inv.path other
        rw [isQueue] at ok
        obtain ⟨active,isStarted,named,isSubmitted⟩ := ok
        simp only [Function.update_self,Option.toList_none,List.append_nil]
        exact ⟨active,isStarted,named,by rw [isSubmitted,List.append_assoc]⟩
      · simp only [Function.update_of_ne same]
        exact inv.path other
    · exact inv.active.defer isQueue _
  | none =>
    refine ⟨?_,?_,known,distinct,apart,inv.noError⟩
    · intro other
      by_cases same : other = path
      · subst same
        have ok := inv.path other
        rw [isQueue] at ok
        simp only [Function.update_self,Option.toList_some]
        exact ⟨edit,by rw [ok.2],rfl,by rw [ok.1,ok.2,List.append_nil]⟩
      · simp only [Function.update_of_ne same]
        exact inv.path other
    · refine inv.active.enter isQueue ?_ []
      intro other queue isOther named
      exact new (named ▸ inv.active_known isOther)

theorem complete_inactive (inactive : t.schedule.active_paths call_id = none) : complete t.schedule call_id = (.ok none,t.schedule) := by
  simp [complete,inactive]
theorem Inv.complete_active (inv : Inv t) (isActive : t.schedule.active_paths call_id = some path) :
    ∃ queue, t.schedule.paths path = some queue ∧ queue.active_call_id = call_id ∧ complete t.schedule call_id = match queue.waiting with
        | next :: waiting => (.ok (some next),{
            active_paths := Function.update (Function.update t.schedule.active_paths call_id none) next.call.call_id (some path)
            paths := Function.update t.schedule.paths path (some ⟨next.call.call_id,waiting⟩) })
        | [] => (.ok none,{
            active_paths := Function.update t.schedule.active_paths call_id none
            paths := Function.update t.schedule.paths path none }) := by
  obtain ⟨queue,isQueue,named⟩ := (inv.active call_id path).mp isActive
  refine ⟨queue,isQueue,named,?_⟩
  simp only [complete,isActive,isQueue,named,ne_eq,not_true_eq_false,if_false]

theorem Inv.complete (inv : Inv t) (call_id : String) : Inv (step t (.complete call_id)) := by
  cases isActive : t.schedule.active_paths call_id with
  | none =>
    have inactive : ∀ path, t.isActive path call_id = false := by
      intro path
      rw [← Bool.not_eq_true,inv.isActive_iff,isActive]
      simp
    simp only [step,complete_inactive isActive,inactive,Bool.false_eq_true,if_false]
    exact inv
  | some path =>
    obtain ⟨queue,isQueue,named,completes⟩ := inv.complete_active isActive
    obtain ⟨edit,isEdit,editNamed,started,submitted⟩ := inv.some_active isQueue
    have here : t.isActive path call_id = true := (inv.isActive_iff path call_id).mpr isActive
    have elsewhere : ∀ other, other ≠ path → t.isActive other call_id = false := by
      intro other different
      rw [← Bool.not_eq_true,inv.isActive_iff,isActive,Option.some.injEq]
      exact different.symm
    have freed := inv.active.leave isActive
    cases isWaiting : queue.waiting with
    | nil =>
      rw [isWaiting] at completes submitted
      simp only [step,completes]
      refine ⟨?_,freed,inv.known,inv.distinct,inv.apart,inv.noError⟩
      intro other
      by_cases same : other = path
      · subst same
        simp only [here,if_true,Function.update_self,Option.toList_none,List.append_nil,isEdit,Option.toList_some]
        exact ⟨submitted,started⟩
      · simp only [elsewhere other same,Bool.false_eq_true,if_false,Function.update_of_ne same]
        exact inv.path other
    | cons next waiting =>
      rw [isWaiting] at completes submitted
      simp only [step,completes]
      refine ⟨?_,?_,inv.known,inv.distinct,inv.apart,inv.noError⟩
      · intro other
        by_cases same : other = path
        · subst same
          simp only [here,if_true,Function.update_self,Option.toList_some,isEdit]
          exact ⟨next,by rw [started],rfl,by simp [submitted,started]⟩
        · simp only [elsewhere other same,Bool.false_eq_true,if_false,Function.update_of_ne same]
          exact inv.path other
      · -- The next edit has another call than the active one of every other path.
        have apart : ∀ other queue', Function.update t.schedule.paths path none other = some queue' →
            queue'.active_call_id ≠ next.call.call_id := by
          intro other queue' isOther
          by_cases same : other = path
          · subst same
            simp at isOther
          · rw [Function.update_of_ne same] at isOther
            obtain ⟨active,_,activeNamed,_,activeSubmitted⟩ := inv.some_active isOther
            rw [← activeNamed]
            exact inv.apart other path same active (by simp [activeSubmitted]) next (by simp [submitted])
        have entered := freed.enter (show Function.update t.schedule.paths path none path = none by simp) apart waiting
        rw [Function.update_idem] at entered
        exact entered

theorem Inv.clear (inv : Inv t) : Inv (step t .clear) :=
  ⟨fun _ => ⟨rfl,rfl⟩,by simp [step,Linked],by simp [step],by simp [step],by simp [step],inv.noError⟩

/-! ## Every sequence of operations -/

theorem Inv.inTurn (inv : Inv t) : InTurn t := by
  refine ⟨?_,?_,fun path => List.Nodup.of_map _ (inv.distinct path),inv.noError,?_,?_⟩
  · intro path
    have ok := inv.path path
    cases isQueue : t.schedule.paths path with
    | none =>
      rw [isQueue] at ok
      rw [ok.1,ok.2,List.take_of_length_le (by omega)]
    | some queue =>
      obtain ⟨edit,_,_,started,submitted⟩ := inv.some_active isQueue
      rw [started,submitted,List.take_append,List.take_of_length_le (by omega)]
      simp
  · intro path
    have ok := inv.path path
    cases isQueue : t.schedule.paths path with
    | none =>
      rw [isQueue] at ok
      exact ok.2 ▸ List.prefix_rfl
    | some queue =>
      obtain ⟨edit,_,_,started,_⟩ := inv.some_active isQueue
      rw [started]
      exact List.prefix_append _ _
  · intro call_id
    cases isActive : t.schedule.active_paths call_id with
    | none => exact ⟨none,t.schedule,complete_inactive isActive,by simp⟩
    | some path =>
      obtain ⟨queue,isQueue,_,completes⟩ := inv.complete_active isActive
      obtain ⟨edit,_,_,started,submitted⟩ := inv.some_active isQueue
      cases isWaiting : queue.waiting with
      | nil =>
        rw [isWaiting] at completes
        exact ⟨none,_,completes,by simp⟩
      | cons next waiting =>
        rw [isWaiting] at completes submitted
        refine ⟨some next,_,completes,?_⟩
        rintro _ ⟨⟩
        refine ⟨path,(inv.isActive_iff path call_id).mpr isActive,?_⟩
        simp [started,submitted]
  · intro path edit
    cases isQueue : t.schedule.paths path with
    | none => simp [start_or_defer,isQueue,inv.none_active isQueue]
    | some queue =>
      obtain ⟨active,isActive,_⟩ := inv.some_active isQueue
      simp [start_or_defer,isQueue,isActive]

/-- An operation submits no call that was seen before. -/
def New (t : Tracked Context) (op : Op Context) : Prop := ∀ call_id, op.submits = some call_id → call_id ∉ t.seen

theorem Inv.step (inv : Inv t) {op : Op Context} (new : New t op) : Inv (step t op) := by
  cases op with
  | start_or_defer path edit => exact inv.start (new _ rfl)
  | complete call_id => exact inv.complete call_id
  | clear => exact inv.clear

theorem seen_step (op : Op Context) : (EditSchedule.step t op).seen = op.submits.toList ++ t.seen := by
  cases op with
  | complete call_id =>
    simp only [EditSchedule.step]
    split <;> rfl
  | _ => rfl

theorem new_of_distinct (ops : List (Op Context)) : ∀ t : Tracked Context, (ops.filterMap Op.submits).Nodup →
    (∀ call_id ∈ ops.filterMap Op.submits, call_id ∉ t.seen) → Transitions.Meets EditSchedule.step New t ops := by
  induction ops with
  | nil => exact fun _ _ _ => trivial
  | cons op rest ih =>
    intro t distinct unseen
    cases isCall : op.submits with
    | none =>
      rw [List.filterMap_cons_none isCall] at distinct unseen
      exact ⟨by simp [New,isCall],ih _ distinct (by simpa [seen_step,isCall] using unseen)⟩
    | some call_id =>
      rw [List.filterMap_cons_some isCall] at distinct unseen
      obtain ⟨fresh,distinct⟩ := List.nodup_cons.mp distinct
      refine ⟨?_,ih _ distinct ?_⟩
      · intro other isOther
        rw [isCall,Option.some.injEq] at isOther
        exact isOther ▸ unseen call_id List.mem_cons_self
      · intro other member
        simp only [seen_step,isCall,Option.toList_some,List.singleton_append,List.mem_cons,not_or]
        exact ⟨fun same => fresh (same ▸ member),unseen other (List.mem_cons_of_mem _ member)⟩

/-- After every sequence of operations that submit different calls, the edits
    of every path take their turns. -/
theorem edits_in_turn (ops : List (Op Context)) (distinct : (ops.filterMap Op.submits).Nodup) :
    InTurn (Transitions.after EditSchedule.step {} ops) := by
  have new := new_of_distinct ops {} distinct (by simp)
  have start : Inv ({} : Tracked Context) := ⟨fun _ => ⟨rfl,rfl⟩,by simp [Linked],by simp,by simp,by simp,rfl⟩
  exact (new.invariant start fun _ _ inv allowed => inv.step allowed).inTurn

section Example
def editOf (call_id : String) : DeferredEdit Unit := ⟨⟨0,call_id,"","Edit","",.Null,none⟩,0,true,()⟩
def twoPaths : List (Op Unit) :=
  [.start_or_defer "a" (editOf "1"),.start_or_defer "a" (editOf "2"),.start_or_defer "b" (editOf "3"),.complete "3",.complete "1"]

theorem edits_in_turn_paths : InTurn (Transitions.after EditSchedule.step {} twoPaths) ∧
      (Transitions.after EditSchedule.step {} twoPaths).started "a" = [editOf "1",editOf "2"] :=
  ⟨edits_in_turn twoPaths (by decide),rfl⟩
end Example

end MyCursor.EditSchedule
