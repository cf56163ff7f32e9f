import MyCursor.Connect
import MyCursor.Transitions

/-!
# The output of a transport

`cursor/transport/output.rs`: frames are kept, replayed to every new
subscriber and sent to the subscribers there are, until the output is closed.
The HTTP requests that stream the output hold leases on it
(`api/cursor/run_sse.rs`), and a transport is finished by a last frame and the
close of its output (`cursor/conversation/output.rs`).
-/
namespace MyCursor.OutputHub
open Connect

abbrev Bytes := List UInt8

def is_end_stream_frame : Bytes → Bool
  | [] => false
  | flags :: _ => isEndStream flags

/-- An unbounded channel: all that was sent into it, and whether its receiver
    is still there. -/
structure Channel where
  sent : List Bytes := []
  live : Bool := true

/-- `OutputState`; a sender is the number of its channel, and the channels
    that were made stand beside it. -/
structure Output where
  history : List Bytes := []
  subscribers : List Nat := []
  closed : Bool := false
  http_active : Nat := 0
  http_epoch : UInt64 := 0
  http_sealed : Bool := false
  channels : Nat → Channel := fun _ => {}
  made : Nat := 0

def Channel.send (channel : Channel) (frame : Bytes) : Channel := { channel with sent := channel.sent ++ [frame] }

def emit (output : Output) (frame : Bytes) : Bool × Output :=
  if output.closed then (false,output)
  else
    let reached := output.subscribers.filter fun id => (output.channels id).live
    (true,{ output with
      history := output.history ++ [frame]
      channels := fun id => if id ∈ reached then (output.channels id).send frame else output.channels id
      subscribers := reached })

def subscribe (output : Output) : Nat × Output :=
  let receiver := output.made
  (receiver,{ output with
    channels := fun id => if id = receiver then ⟨output.history,true⟩ else output.channels id
    made := receiver + 1
    subscribers :=
      if !output.closed && !output.http_sealed then output.subscribers ++ [receiver] else output.subscribers })

def acquire_http (output : Output) : Bool × Output :=
  if output.closed || output.http_sealed then (false,output)
  else (true,{ output with http_active := output.http_active + 1, http_epoch := output.http_epoch + 1 })
def release_http (output : Output) : Option UInt64 × Output :=
  let http_active := output.http_active - 1
  (if http_active = 0 ∧ !output.closed then some output.http_epoch else none,{ output with http_active })
def disconnect_if_unsubscribed (output : Output) (epoch : UInt64) : Bool × Output :=
  if output.closed || output.http_active ≠ 0 || output.http_epoch ≠ epoch then (false,output)
  else (true,{ output with http_sealed := true })

def close (output : Output) : Bool × Output :=
  if output.closed then (false,output)
  else (true,{ output with closed := true, subscribers := [] })

/-- What a task does with the output in one hold of its lock. An emitter sends
    a message; an HTTP request subscribes, takes a lease when it is still
    granted and releases it at its end; a finisher sends the last frame and
    then closes the output. -/
inductive Action where
  | emit (message : Bytes)
  | subscribe (request : Nat)
  | acquire (request : Nat)
  | release (request : Nat)
  | dropReceiver (id : Nat)
  | disconnect (epoch : UInt64)
  | finish (payload : Bytes)
  | close

/-- The output and what is known of the tasks: the frames that were emitted,
    the channel of every request, the requests with a lease, how many leases
    were granted and which epochs were returned after how many of them, and how
    many finishers have sent their last frame and not yet closed the output. -/
structure System where
  output : Output := {}
  emitted : List Bytes := []
  channel : Nat → Option Nat := fun _ => none
  tried : List Nat := []
  leases : List Nat := []
  granted : Nat := 0
  returned : List (UInt64 × Nat) := []
  finishing : Nat := 0

def emitting (s : System) (frame : Bytes) : System :=
  let (sent,output) := emit s.output frame
  { s with output, emitted := if sent then s.emitted ++ [frame] else s.emitted }

def step (s : System) : Action → System
  | .emit message => emitting s (encode_message message)
  | .subscribe request =>
    let (receiver,output) := subscribe s.output
    { s with output, channel := fun other => if other = request then some receiver else s.channel other }
  | .acquire request =>
    -- A request makes one guard.
    if request ∈ s.tried then s
    else
      let (acquired,output) := acquire_http s.output
      { s with output, tried := request :: s.tried
               leases := if acquired then request :: s.leases else s.leases
               granted := if acquired then s.granted + 1 else s.granted }
  | .release request =>
    -- The guard releases what it acquired, once.
    if request ∈ s.leases then
      let (epoch,output) := release_http s.output
      { s with output, leases := s.leases.erase request
               returned := s.returned ++ epoch.toList.map fun epoch => (epoch,s.granted) }
    else s
  | .dropReceiver id =>
    { s with output := { s.output with
        channels := fun other => if other = id then { s.output.channels id with live := false } else s.output.channels other } }
  | .disconnect epoch => { s with output := (disconnect_if_unsubscribed s.output epoch).2 }
  | .finish payload =>
    { emitting s (encode_end_stream_payload payload) with finishing := s.finishing + 1 }
  | .close =>
    if s.finishing = 0 then s
    else { s with output := (close s.output).2, finishing := s.finishing - 1 }

/-! ## What every interleaving keeps -/

/-- The frames in the channels and the leases, in every state of the system. -/
structure Ordered (s : System) : Prop where
  history : s.output.history = s.emitted
  /-- A subscriber that can still be reached has all frames. -/
  reached : ∀ id ∈ s.output.subscribers, id < s.output.made ∧
    ((s.output.channels id).live = true → (s.output.channels id).sent = s.output.history)
  /-- Until the output is sealed, so does everybody. -/
  everyone : s.output.http_sealed = false → ∀ id < s.output.made, (s.output.channels id).live = true →
    (s.output.channels id).sent = s.output.history ∧ (s.output.closed = true ∨ id ∈ s.output.subscribers)
  prefixes : ∀ id < s.output.made, (s.output.channels id).sent <+: s.output.history
  channels : ∀ request id, s.channel request = some id → id < s.output.made
  active : s.output.http_active = s.leases.length
  unsealed : s.output.http_sealed = true → s.leases = []
  epoch : s.output.http_epoch = UInt64.ofNat s.granted
  returned : ∀ entry ∈ s.returned, entry.1 = UInt64.ofNat entry.2 ∧ entry.2 ≤ s.granted

theorem ordered_start : Ordered {} := by
  refine ⟨rfl,by simp,by simp,by simp,by simp,rfl,by simp,rfl,by simp⟩

variable {s : System}

section
variable (ordered : Ordered s)
include ordered

theorem Ordered.emits (frame : Bytes) : Ordered (emitting s frame) := by
  unfold emitting emit
  cases closed : s.output.closed with
  | true => simpa [closed] using ordered
  | false =>
    simp only [Bool.false_eq_true,if_false,if_true]
    have member : ∀ id, id ∈ s.output.subscribers.filter (fun id => (s.output.channels id).live) ↔
        id ∈ s.output.subscribers ∧ (s.output.channels id).live = true := by simp
    refine ⟨by simp [ordered.history],?_,?_,?_,ordered.channels,ordered.active,ordered.unsealed,ordered.epoch,ordered.returned⟩
    · intro id isReached
      obtain ⟨isSubscriber,live⟩ := (member id).mp isReached
      obtain ⟨isMade,all⟩ := ordered.reached id isSubscriber
      refine ⟨isMade,fun _ => ?_⟩
      simp only [isReached,if_true,Channel.send,all live]
    · intro unsealed id isMade live
      by_cases isReached : id ∈ s.output.subscribers.filter fun id => (s.output.channels id).live
      · simp only [isReached,if_true] at live ⊢
        obtain ⟨isSubscriber,live⟩ := (member id).mp isReached
        exact ⟨by simp [Channel.send,(ordered.reached id isSubscriber).2 live],.inr trivial⟩
      · simp only [isReached,if_false] at live
        -- Before the close, whoever is live is reached.
        rcases (ordered.everyone unsealed id isMade live).2 with isClosed | isSubscriber
        · rw [closed] at isClosed
          cases isClosed
        · exact absurd ((member id).mpr ⟨isSubscriber,live⟩) isReached
    · intro id isMade
      by_cases isReached : id ∈ s.output.subscribers.filter fun id => (s.output.channels id).live
      · obtain ⟨isSubscriber,live⟩ := (member id).mp isReached
        simp only [isReached,if_true,Channel.send,(ordered.reached id isSubscriber).2 live]
        exact List.prefix_rfl
      · simp only [isReached,if_false]
        exact (ordered.prefixes id isMade).trans (List.prefix_append _ _)

theorem Ordered.subscribed (request : Nat) : Ordered (step s (.subscribe request)) := by
  simp only [step,subscribe]
  have older : ∀ {id}, id < s.output.made + 1 → id ≠ s.output.made → id < s.output.made := by
    intro id isMade other
    omega
  refine ⟨ordered.history,?_,?_,?_,?_,ordered.active,ordered.unsealed,ordered.epoch,ordered.returned⟩
  · intro id isSubscriber
    by_cases new : id = s.output.made
    · subst new
      simp
    · have isOld : id ∈ s.output.subscribers := by
        split_ifs at isSubscriber
        · simpa [new] using isSubscriber
        · exact isSubscriber
      obtain ⟨isMade,all⟩ := ordered.reached id isOld
      simp only [new,if_false]
      exact ⟨by omega,all⟩
  · intro unsealed id isMade live
    dsimp only at unsealed
    by_cases new : id = s.output.made
    · subst new
      simp only [if_true,unsealed,Bool.not_false,Bool.and_true,true_and]
      cases closed : s.output.closed with
      | true => exact .inl rfl
      | false => simp
    · simp only [new,if_false] at live ⊢
      obtain ⟨all,closed | isSubscriber⟩ := ordered.everyone unsealed id (older isMade new) live
      · exact ⟨all,.inl closed⟩
      · refine ⟨all,.inr ?_⟩
        split_ifs
        · exact List.mem_append_left _ isSubscriber
        · exact isSubscriber
  · intro id isMade
    by_cases new : id = s.output.made
    · simp only [new,if_true]
      exact List.prefix_rfl
    · simp only [new,if_false]
      exact ordered.prefixes id (older isMade new)
  · intro other id isChannel
    dsimp only at isChannel ⊢
    split_ifs at isChannel with same
    · rw [← Option.some.inj isChannel]
      omega
    · have := ordered.channels other id isChannel
      omega

theorem Ordered.acquired (request : Nat) : Ordered (step s (.acquire request)) := by
  simp only [step,acquire_http]
  by_cases again : request ∈ s.tried
  · rw [if_pos again]
    exact ordered
  · rw [if_neg again]
    by_cases refused : (s.output.closed || s.output.http_sealed) = true
    · obtain ⟨h1,h2,h3,h4,h5,h6,h7,h8,h9⟩ := ordered
      simp only [refused,if_true,Bool.false_eq_true,if_false]
      exact ⟨h1,h2,h3,h4,h5,h6,h7,h8,h9⟩
    · simp only [refused,if_true,Bool.false_eq_true,if_false]
      simp only [Bool.or_eq_true,not_or,Bool.not_eq_true] at refused
      refine ⟨ordered.history,ordered.reached,ordered.everyone,ordered.prefixes,ordered.channels,?_,?_,?_,?_⟩
      · simp [ordered.active]
      · intro isSealed
        dsimp only at isSealed
        rw [refused.2] at isSealed
        cases isSealed
      · simp only [ordered.epoch,UInt64.ofNat_add]
        rfl
      · intro entry member
        obtain ⟨isEpoch,bound⟩ := ordered.returned entry member
        exact ⟨isEpoch,Nat.le_succ_of_le bound⟩

theorem Ordered.released (request : Nat) : Ordered (step s (.release request)) := by
  simp only [step,release_http]
  by_cases held : request ∈ s.leases
  · rw [if_pos held]
    refine ⟨ordered.history,ordered.reached,ordered.everyone,ordered.prefixes,ordered.channels,?_,?_,ordered.epoch,?_⟩
    · simp [ordered.active,List.length_erase_of_mem held]
    · intro isSealed
      rw [ordered.unsealed isSealed]
      rfl
    · intro entry member
      rcases List.mem_append.mp member with before | new
      · exact ordered.returned entry before
      · split_ifs at new
        · simp only [Option.toList_some,List.map_cons,List.map_nil,List.mem_singleton] at new
          rw [new]
          exact ⟨ordered.epoch,Nat.le_refl _⟩
        · simp at new
  · rw [if_neg held]
    exact ordered

theorem Ordered.dropped (id : Nat) : Ordered (step s (.dropReceiver id)) := by
  have same : ∀ other, ((if other = id then { s.output.channels id with live := false } else s.output.channels other :
      Channel)).sent = (s.output.channels other).sent := by
    intro other
    split_ifs with isId
    · rw [isId]
    · rfl
  have still : ∀ other, ((if other = id then { s.output.channels id with live := false } else s.output.channels other :
      Channel)).live = true → (s.output.channels other).live = true := by
    intro other live
    split_ifs at live
    exact live
  refine ⟨ordered.history,?_,?_,?_,ordered.channels,ordered.active,ordered.unsealed,ordered.epoch,ordered.returned⟩
  · intro other isSubscriber
    obtain ⟨isMade,all⟩ := ordered.reached other isSubscriber
    exact ⟨isMade,fun live => (same other).trans (all (still other live))⟩
  · intro unsealed other isMade live
    obtain ⟨all,reachable⟩ := ordered.everyone unsealed other isMade (still other live)
    exact ⟨(same other).trans all,reachable⟩
  · intro other isMade
    exact (same other).symm ▸ ordered.prefixes other isMade

theorem Ordered.disconnected (epoch : UInt64) : Ordered (step s (.disconnect epoch)) := by
  simp only [step,disconnect_if_unsubscribed]
  split_ifs with refused
  · exact ordered
  · simp only [Bool.or_eq_true,decide_eq_true_eq,not_or,not_not] at refused
    refine ⟨ordered.history,ordered.reached,?_,ordered.prefixes,ordered.channels,ordered.active,?_,ordered.epoch,ordered.returned⟩
    · intro isSealed
      cases isSealed
    · intro _
      exact List.length_eq_zero_iff.mp (ordered.active ▸ refused.1.2)

theorem Ordered.closed : Ordered (step s .close) := by
  simp only [step,close]
  split_ifs with idle closed
  · exact ordered
  · obtain ⟨h1,h2,h3,h4,h5,h6,h7,h8,h9⟩ := ordered
    exact ⟨h1,h2,h3,h4,h5,h6,h7,h8,h9⟩
  · refine ⟨ordered.history,by simp,?_,ordered.prefixes,ordered.channels,ordered.active,ordered.unsealed,ordered.epoch,
      ordered.returned⟩
    intro unsealed id isMade live
    exact ⟨(ordered.everyone unsealed id isMade live).1,.inl rfl⟩

theorem Ordered.step (action : Action) : Ordered (step s action) := by
  cases action with
  | emit message => exact ordered.emits _
  | subscribe request => exact ordered.subscribed request
  | acquire request => exact ordered.acquired request
  | release request => exact ordered.released request
  | dropReceiver id => exact ordered.dropped id
  | disconnect epoch => exact ordered.disconnected epoch
  | finish payload =>
    obtain ⟨h1,h2,h3,h4,h5,h6,h7,h8,h9⟩ := ordered.emits (encode_end_stream_payload payload)
    exact ⟨h1,h2,h3,h4,h5,h6,h7,h8,h9⟩
  | close => exact ordered.closed

end

/-- An end-stream frame is the last one. -/
def EndsOnce (frames : List Bytes) : Prop :=
  ∀ before frame later, frames = before ++ frame :: later → is_end_stream_frame frame = true → later = []
def HasEnd (frames : List Bytes) : Prop := ∃ frame ∈ frames, is_end_stream_frame frame = true

theorem EndsOnce.of_prefix {frames more : List Bytes} (ends : EndsOnce more) (isPrefix : frames <+: more) : EndsOnce frames := by
  obtain ⟨rest,rfl⟩ := isPrefix
  rintro before frame later rfl isEnd
  have none := ends before frame (later ++ rest) (by simp) isEnd
  exact (List.append_eq_nil_iff.mp none).1
theorem EndsOnce.extends_ {frames more : List Bytes} (ends : EndsOnce more) (isPrefix : frames <+: more)
    (ended : HasEnd frames) : more = frames := by
  obtain ⟨rest,rfl⟩ := isPrefix
  obtain ⟨frame,member,isEnd⟩ := ended
  obtain ⟨before,later,rfl⟩ := List.append_of_mem member
  have none := ends before frame (later ++ rest) (by simp) isEnd
  simp [(List.append_eq_nil_iff.mp none).2]
theorem EndsOnce.append {frames : List Bytes} (open_ : ¬ HasEnd frames) (frame : Bytes) : EndsOnce (frames ++ [frame]) := by
  intro before last later same isEnd
  rcases List.eq_nil_or_concat later with rfl | ⟨rest,other,rfl⟩
  · rfl
  · exfalso
    have front : frames = before ++ last :: rest := by
      rw [List.concat_eq_append,← List.cons_append,← List.append_assoc] at same
      exact (List.append_inj' same rfl).1
    exact open_ ⟨last,by simp [front],isEnd⟩

theorem message_not_end (message : Bytes) : is_end_stream_frame (encode_message message) = false := by
  simp [encode_message,encode_frame,is_end_stream_frame,isEndStream]

/-- Nobody emits between the two steps of a finisher, and the epochs do not
    wrap around. -/
def Undisturbed (s : System) : Action → Prop
  | .emit _ | .finish _ => s.finishing = 0
  | .acquire _ => s.granted + 1 < 2 ^ 64
  | _ => True
instance (s : System) (action : Action) : Decidable (Undisturbed s action) := by
  cases action <;> simp only [Undisturbed] <;> infer_instance

structure Ending (s : System) : Prop where
  ordered : Ordered s
  once : EndsOnce s.output.history
  final : HasEnd s.output.history → s.output.closed = true ∨ 0 < s.finishing
  bounded : s.granted < 2 ^ 64

theorem ending_start : Ending {} := by
  refine ⟨ordered_start,?_,?_,by decide⟩
  · intro before frame later same
    simp at same
  · rintro ⟨frame,member,_⟩
    cases member

theorem emitting_history (s : System) (frame : Bytes) : (emitting s frame).output.history =
    if s.output.closed then s.output.history else s.output.history ++ [frame] := by
  unfold emitting emit
  split_ifs <;> rfl
theorem emitting_closed (s : System) (frame : Bytes) : (emitting s frame).output.closed = s.output.closed := by
  unfold emitting emit
  split_ifs <;> rfl

theorem Ending.emits (ending : Ending s) (idle : s.finishing = 0) (frame : Bytes) : EndsOnce (emitting s frame).output.history := by
  rw [emitting_history]
  split_ifs with closed
  · exact ending.once
  · refine EndsOnce.append ?_ frame
    intro ended
    rcases ending.final ended with isClosed | atWork
    · exact closed isClosed
    · omega

theorem step_history (s : System) (action : Action) : (step s action).output.history = s.output.history ∨
    ∃ frame, (step s action).output = (emitting s frame).output := by
  cases action with
  | emit message => exact .inr ⟨_,rfl⟩
  | finish payload => exact .inr ⟨_,rfl⟩
  | subscribe request => exact .inl rfl
  | dropReceiver id => exact .inl rfl
  | acquire request =>
    left
    simp only [step,acquire_http]
    split_ifs <;> rfl
  | release request =>
    left
    simp only [step,release_http]
    split_ifs <;> rfl
  | disconnect epoch =>
    left
    simp only [step,disconnect_if_unsubscribed]
    split_ifs <;> rfl
  | close =>
    left
    simp only [step,close]
    split_ifs <;> rfl

theorem step_extends (s : System) (action : Action) : s.output.history <+: (step s action).output.history := by
  rcases step_history s action with same | ⟨frame,same⟩
  · exact same ▸ List.prefix_rfl
  · rw [same,emitting_history]
    split_ifs
    · exact List.prefix_rfl
    · exact List.prefix_append _ _

theorem Ending.step (ending : Ending s) (action : Action) (undisturbed : Undisturbed s action) : Ending (step s action) := by
  have ordered := ending.ordered.step action
  cases action with
  | emit message =>
    refine ⟨ordered,ending.emits undisturbed _,?_,ending.bounded⟩
    intro ended
    have closedNow := emitting_closed s (encode_message message)
    refine .inl (closedNow.trans ?_)
    simp only [OutputHub.step] at ended
    rw [emitting_history] at ended
    by_contra open_
    simp only [open_,if_false] at ended
    obtain ⟨frame,member,isEnd⟩ := ended
    rcases List.mem_append.mp member with before | new
    · rcases ending.final ⟨frame,before,isEnd⟩ with closed | atWork
      · exact open_ closed
      · have idle : s.finishing = 0 := undisturbed
        omega
    · rw [List.mem_singleton.mp new,message_not_end] at isEnd
      cases isEnd
  | finish payload =>
    exact ⟨ordered,ending.emits undisturbed _,fun _ => .inr (Nat.succ_pos _),ending.bounded⟩
  | subscribe request => exact ⟨ordered,ending.once,ending.final,ending.bounded⟩
  | dropReceiver id => exact ⟨ordered,ending.once,ending.final,ending.bounded⟩
  | acquire request =>
    have fits : s.granted + 1 < 2 ^ 64 := undisturbed
    by_cases again : request ∈ s.tried
    · simp only [OutputHub.step,if_pos again]
      exact ending
    · by_cases refused : (s.output.closed || s.output.http_sealed) = true
      · simp only [OutputHub.step,acquire_http,if_neg again,refused,if_true] at ordered ⊢
        exact ⟨ordered,ending.once,ending.final,ending.bounded⟩
      · simp only [OutputHub.step,acquire_http,if_neg again,refused] at ordered ⊢
        exact ⟨ordered,ending.once,ending.final,fits⟩
  | release request =>
    simp only [OutputHub.step] at ordered ⊢
    split_ifs at ordered ⊢
    · exact ⟨ordered,ending.once,ending.final,ending.bounded⟩
    · exact ending
  | disconnect epoch =>
    simp only [OutputHub.step,disconnect_if_unsubscribed] at ordered ⊢
    split_ifs at ordered ⊢
    · exact ⟨ordered,ending.once,ending.final,ending.bounded⟩
    · exact ⟨ordered,ending.once,ending.final,ending.bounded⟩
  | close =>
    simp only [OutputHub.step,close] at ordered ⊢
    split_ifs at ordered ⊢ with idle closed
    · exact ending
    · exact ⟨ordered,ending.once,fun _ => .inl closed,ending.bounded⟩
    · exact ⟨ordered,ending.once,fun _ => .inl rfl,ending.bounded⟩

/-- In every interleaving in which nobody emits between the two steps of a
    finisher: an HTTP request with a lease has got every frame in order; the
    output is sealed only while there is no lease and when none was granted
    after the release that returned the epoch; and an end-stream frame is the
    last one, of the history and of every subscriber. -/
theorem output_in_order (actions : List Action) (undisturbed : Transitions.Meets step Undisturbed {} actions) :
    (∀ request ∈ (Transitions.after step {} actions).leases, ∀ id,
      (Transitions.after step {} actions).channel request = some id →
      ((Transitions.after step {} actions).output.channels id).live = true →
      ((Transitions.after step {} actions).output.channels id).sent = (Transitions.after step {} actions).emitted) ∧
    (∀ epoch, (disconnect_if_unsubscribed (Transitions.after step {} actions).output epoch).1 = true →
      (Transitions.after step {} actions).leases = [] ∧
      ∀ entry ∈ (Transitions.after step {} actions).returned, entry.1 = epoch → entry.2 = (Transitions.after step {} actions).granted) ∧
    EndsOnce (Transitions.after step {} actions).output.history ∧
    (∀ id < (Transitions.after step {} actions).output.made,
      EndsOnce ((Transitions.after step {} actions).output.channels id).sent) ∧
    ∀ before later, actions = before ++ later → HasEnd (Transitions.after step {} before).output.history →
      (Transitions.after step {} actions).output.history = (Transitions.after step {} before).output.history := by
  have ending : Ending (Transitions.after step {} actions) :=
    undisturbed.invariant ending_start fun s action ending allowed => ending.step action allowed
  have ordered := ending.ordered
  refine ⟨?_,?_,ending.once,?_,?_⟩
  · intro request leased id isChannel live
    have unsealed : (Transitions.after step {} actions).output.http_sealed = false := by
      by_contra isSealed
      rw [ordered.unsealed (by simpa using isSealed)] at leased
      cases leased
    rw [← ordered.history]
    exact (ordered.everyone unsealed id (ordered.channels request id isChannel) live).1
  · intro epoch sealed_
    unfold disconnect_if_unsubscribed at sealed_
    split_ifs at sealed_ with refused
    simp only [Bool.or_eq_true,decide_eq_true_eq,not_or,not_not] at refused
    refine ⟨List.length_eq_zero_iff.mp (ordered.active ▸ refused.1.2),?_⟩
    intro entry member isEpoch
    obtain ⟨same,bound⟩ := ordered.returned entry member
    have sameEpoch : UInt64.ofNat entry.2 = UInt64.ofNat (Transitions.after step {} actions).granted := by
      rw [← same,isEpoch,← refused.2,ordered.epoch]
    have sameNat := congrArg UInt64.toNat sameEpoch
    rw [UInt64.toNat_ofNat',UInt64.toNat_ofNat',Nat.mod_eq_of_lt (Nat.lt_of_le_of_lt bound ending.bounded),
      Nat.mod_eq_of_lt ending.bounded] at sameNat
    exact sameNat
  · intro id isMade
    exact ending.once.of_prefix (ordered.prefixes id isMade)
  · rintro before later rfl ended
    have grows : (Transitions.after step {} before).output.history <+:
        (Transitions.after step {} (before ++ later)).output.history := by
      rw [Transitions.after_append]
      exact Transitions.invariant (P := fun s => (Transitions.after step {} before).output.history <+: s.output.history)
        List.prefix_rfl (fun s action grows => grows.trans (step_extends s action)) later
    exact ending.once.extends_ grows ended

def streamed : List Action :=
  [.subscribe 0,.acquire 0,.emit [1],.acquire 1,.subscribe 1,.emit [2],.finish [123,125]]

theorem output_in_order_streamed : Transitions.Meets step Undisturbed {} streamed ∧
    ((Transitions.after step {} streamed).output.channels 1).sent = (Transitions.after step {} streamed).emitted ∧
    EndsOnce (Transitions.after step {} streamed).output.history := by
  have undisturbed : Transitions.Meets step Undisturbed {} streamed := by decide +kernel
  obtain ⟨received,_,once,_⟩ := output_in_order streamed undisturbed
  exact ⟨undisturbed,received 1 (by decide +kernel) 1 (by decide +kernel) (by decide +kernel),once⟩

/-- A heartbeat that comes between the two steps of a finisher follows the last
    frame. -/
theorem heartbeat_after_end : ¬ EndsOnce (Transitions.after step {} [.finish [123,125],.emit [],.close]).output.history := by
  intro once
  have last := once [] (encode_end_stream_payload [123,125]) [encode_message []] rfl (by decide)
  cases last

end MyCursor.OutputHub
