import Mathlib.Logic.Function.Basic
import MyCursor.Transitions

/-!
# The sessions of OAuth authorizations

`oauth_begin` and `oauth_poll` of `plugin/registry.rs`. The table of sessions is
locked only for a moment at a time: while the plugin is asked, other callers may
begin, poll and end sessions. A session has the number of the call that began it.
-/
namespace MyCursor.OAuthSessions
open Transitions

variable {Value : Type}

def OAUTH_SLOW_DOWN_STEP_MS : Int := 5000

structure Entry where
  plugin_id : String
  resource_type : String
  method_id : String
deriving DecidableEq

/-- The one request that the listener of a redirect passes on. -/
inductive Callback where
  | Empty
  | Arrived (code : Except String String)
  | Closed

inductive OAuthFlow where
  | DeviceCode
  | AuthorizationCode (callback : Callback)

structure OAuthSession (Value : Type) where
  entry : Entry
  session : Value
  expires_at_ms : Int
  poll_interval_ms : Int
  next_poll_at_ms : Int
  flow : OAuthFlow

inductive OAuth2Poll (Value : Type) where
  | Pending (session : Option Value)
  | SlowDown (session : Option Value)
  | Completed
  | Denied (message : Option String)
  | Failed (message : String)
def OAuth2Poll.final : OAuth2Poll Value → Bool
  | .Pending _ | .SlowDown _ => false
  | .Completed | .Denied _ | .Failed _ => true

inductive OAuthPollResponse where
  | Pending (poll_interval_ms : Int)
  | Completed
  | Denied (message : Option String)
  | Failed (message : String)
deriving DecidableEq

inductive Begin where
  | New
  | Cleared (entry : Entry)
  | Inserted (expires_at_ms : Int)
  | Refused
deriving DecidableEq

/-- A call of `oauth_poll`. The time is read before the table is locked; `Device` and
    `Code` wait for the plugin, with the interval that the session had. -/
inductive Poll (Value : Type) where
  | New
  | Asked (session_id : Nat) (now : Int)
  | Device (session_id : Nat) (poll_interval_ms : Int)
  | Answered (session_id : Nat) (poll_interval_ms : Int) (answer : OAuth2Poll Value)
  | Stored (session_id : Nat)
  | Code (session_id : Nat) (code : Except String String)
  | Returned (response : Option OAuthPollResponse)

/-- What happens to a session, for the statements below. `Kept` takes a final answer
    back: its resources could not be stored. -/
inductive Event where
  | Announced (poll_interval_ms : Int)
  | Started (at_ms : Int)
  | Slowed (before later : Int)
  | Answered (caller : Nat)
  | Kept (caller : Nat)
deriving DecidableEq

structure System (Value : Type) where
  clock : Int := 0
  sessions : Nat → Option (OAuthSession Value) := fun _ => none
  begins : Nat → Begin := fun _ => .New
  polls : Nat → Poll Value := fun _ => .New
  log : Nat → List Event := fun _ => []

def System.insert (s : System Value) (session_id : Nat) (state : OAuthSession Value) : System Value :=
  { s with sessions := Function.update s.sessions session_id (some state) }
def System.remove (s : System Value) (session_id : Nat) : System Value :=
  { s with sessions := Function.update s.sessions session_id none }
def System.turn (s : System Value) (caller : Nat) (poll : Poll Value) : System Value :=
  { s with polls := Function.update s.polls caller poll }
def System.note (s : System Value) (session_id : Nat) (event : Event) : System Value :=
  { s with log := Function.update s.log session_id (event :: s.log session_id) }
def System.pending (s : System Value) (caller session_id : Nat) (poll_interval_ms : Int) : System Value :=
  (s.turn caller (.Returned (some (.Pending poll_interval_ms)))).note session_id (.Announced poll_interval_ms)
def System.returns (s : System Value) (caller : Nat) (response : OAuthPollResponse) : System Value :=
  s.turn caller (.Returned (some response))

/-- Old sessions of the same entry are dropped. -/
def clear (s : System Value) (number : Nat) (entry : Entry) : System Value :=
  { s with
    sessions := fun session_id => (s.sessions session_id).filter fun session => session.entry ≠ entry
    begins := Function.update s.begins number (.Cleared entry) }
def insert (s : System Value) (number : Nat) (entry : Entry) (flow : OAuthFlow) (session : Value)
    (expires_at_ms poll_interval_ms : Int) : System Value :=
  if expires_at_ms ≤ s.clock then { s with begins := Function.update s.begins number .Refused }
  else
    let poll_interval_ms := max poll_interval_ms 1000
    ({ s with begins := Function.update s.begins number (.Inserted expires_at_ms) }.insert number
      { entry, session, expires_at_ms, poll_interval_ms, next_poll_at_ms := s.clock + poll_interval_ms, flow }).note
        number (.Announced poll_interval_ms)

/-- What `oauth_poll` does while it has the table. -/
def enter (s : System Value) (caller session_id : Nat) (now : Int) : System Value :=
  match s.sessions session_id with
  | none => s.returns caller (.Failed "authorization session no longer exists")
  | some state =>
    if state.expires_at_ms ≤ now then (s.remove session_id).returns caller (.Failed "authorization expired")
    else if now < state.next_poll_at_ms then s.pending caller session_id state.poll_interval_ms
    else
      let state := { state with next_poll_at_ms := now + state.poll_interval_ms }
      match state.flow with
      | .DeviceCode =>
        ((s.insert session_id state).turn caller (.Device session_id state.poll_interval_ms)).note session_id (.Started s.clock)
      | .AuthorizationCode .Empty => (s.insert session_id state).pending caller session_id state.poll_interval_ms
      | .AuthorizationCode (.Arrived code) =>
        (s.insert session_id { state with flow := .AuthorizationCode .Closed }).turn caller (.Code session_id code)
      | .AuthorizationCode .Closed =>
        (s.remove session_id).returns caller (.Failed "authorization callback stopped before completion")

def update_session (s : System Value) (session_id : Nat) (session : Option Value) (poll_interval_ms : Option Int) : System Value :=
  match s.sessions session_id with
  | none => s
  | some state => s.insert session_id { state with
      session := session.getD state.session
      poll_interval_ms := poll_interval_ms.getD state.poll_interval_ms }

/-- The interval that a session gets by a `SlowDown`. -/
def noteSlowed (s : System Value) (session_id : Nat) (interval : Int) : System Value :=
  match s.sessions session_id with
  | none => s
  | some state => s.note session_id (.Slowed state.poll_interval_ms interval)

/-- `poll_device_code` after the answer; the resources of `Completed` are stored first. -/
def settle (s : System Value) (caller session_id : Nat) (poll_interval_ms : Int) : OAuth2Poll Value → System Value
  | .Pending session => (update_session s session_id session none).pending caller session_id poll_interval_ms
  | .SlowDown session =>
    let interval := poll_interval_ms + OAUTH_SLOW_DOWN_STEP_MS
    (update_session (noteSlowed s session_id interval) session_id session (some interval)).pending caller session_id interval
  | .Completed => s
  | .Denied message => (s.remove session_id).returns caller (.Denied message)
  | .Failed message => (s.remove session_id).returns caller (.Failed message)

/-- `complete_authorization_code`; `result` is that of the plugin and of storing. -/
def complete (s : System Value) (caller session_id : Nat) (code : Except String String) (result : Except String Unit) : System Value :=
  (s.remove session_id).returns caller <|
    match code, result with
    | .error message, _ => .Denied (some message)
    | .ok _, .ok _ => .Completed
    | .ok _, .error message => .Failed message

inductive Action (Value : Type) where
  | tick (passed : Nat)
  | clear (number : Nat) (entry : Entry)
  | insert (number : Nat) (flow : OAuthFlow) (session : Value) (expires_at_ms poll_interval_ms : Int)
  | refuse (number : Nat)
  | expire (number : Nat)
  | redirect (session_id : Nat) (callback : Callback)
  | ask (caller session_id : Nat)
  | enter (caller : Nat)
  | answer (caller : Nat) (answer : OAuth2Poll Value)
  | fail (caller : Nat)
  | store (caller : Nat) (stored : Bool)
  | settle (caller : Nat)
  | complete (caller : Nat) (result : Except String Unit)

/-- Actions that are not possible change nothing. -/
def step (s : System Value) : Action Value → System Value
  | .tick passed => { s with clock := s.clock + passed }
  | .clear number entry => if s.begins number = .New then clear s number entry else s
  | .insert number flow session expires_at_ms poll_interval_ms =>
    match s.begins number with
    | .Cleared entry => insert s number entry flow session expires_at_ms poll_interval_ms
    | _ => s
  | .refuse number =>
    match s.begins number with
    | .Cleared _ => { s with begins := Function.update s.begins number .Refused }
    | _ => s
  | .expire number =>
    match s.begins number with
    | .Inserted expires_at_ms => if expires_at_ms ≤ s.clock then s.remove number else s
    | _ => s
  | .redirect session_id callback =>
    match s.sessions session_id with
    | some state =>
      match state.flow with
      | .AuthorizationCode .Empty => s.insert session_id { state with flow := .AuthorizationCode callback }
      | _ => s
    | none => s
  | .ask caller session_id =>
    match s.polls caller with
    | .New => s.turn caller (.Asked session_id s.clock)
    | _ => s
  | .enter caller =>
    match s.polls caller with
    | .Asked session_id now => enter s caller session_id now
    | _ => s
  | .answer caller answer =>
    match s.polls caller with
    | .Device session_id interval =>
      let s := s.turn caller (.Answered session_id interval answer)
      if answer.final then s.note session_id (.Answered caller) else s
    | _ => s
  | .fail caller =>
    match s.polls caller with
    | .Device _ _ => s.turn caller (.Returned none)
    | _ => s
  | .store caller stored =>
    match s.polls caller with
    | .Answered session_id _ .Completed =>
      if stored then s.turn caller (.Stored session_id)
      else (s.turn caller (.Returned none)).note session_id (.Kept caller)
    | _ => s
  | .settle caller =>
    match s.polls caller with
    | .Answered session_id interval answer => settle s caller session_id interval answer
    | .Stored session_id => (s.remove session_id).returns caller .Completed
    | _ => s
  | .complete caller result =>
    match s.polls caller with
    | .Code session_id code => complete s caller session_id code result
    | _ => s

def announced : List Event → Int
  | [] => 0
  | .Announced interval :: _ => interval
  | .Started _ :: past | .Slowed _ _ :: past | .Answered _ :: past | .Kept _ :: past => announced past
def lastStart : List Event → Option Int
  | [] => none
  | .Started time :: _ => some time
  | .Announced _ :: past | .Slowed _ _ :: past | .Answered _ :: past | .Kept _ :: past => lastStart past
/-- Whether a `SlowDown` was taken since the plugin was last asked. -/
def slowed : List Event → Bool
  | [] => false
  | .Slowed _ _ :: _ => true
  | .Started _ :: _ => false
  | .Announced _ :: past | .Answered _ :: past | .Kept _ :: past => slowed past
def finals : List Event → List Nat
  | [] => []
  | .Answered caller :: past => caller :: finals past
  | .Kept caller :: past => (finals past).filter (· ≠ caller)
  | .Started _ :: past | .Slowed _ _ :: past | .Announced _ :: past => finals past

/-- Polls keep the announced interval and stop at a final answer, and each
    `SlowDown` adds the step. -/
def Orderly : List Event → Prop
  | [] => True
  | .Started time :: past =>
    (∀ earlier, lastStart past = some earlier → earlier + announced past ≤ time) ∧ finals past = [] ∧ Orderly past
  | .Slowed before later :: past => later = before + OAUTH_SLOW_DOWN_STEP_MS ∧ Orderly past
  | .Announced _ :: past | .Answered _ :: past | .Kept _ :: past => Orderly past

def OAuthSession.live (clock : Int) (state : OAuthSession Value) : Prop := clock < state.expires_at_ms

structure Lifecycle (s : System Value) : Prop where
  single : ∀ a b x y, s.sessions a = some x → s.sessions b = some y → x.entry = y.entry → x.live s.clock → y.live s.clock → a = b
  orderly : ∀ session_id, Orderly (s.log session_id)

/-- The session that a call has a final answer for, until it has removed it. -/
def Poll.handles : Poll Value → Option Nat
  | .Answered session_id _ answer => if answer.final then some session_id else none
  | .Stored session_id => some session_id
  | .New | .Asked _ _ | .Device _ _ | .Code _ _ | .Returned _ => none

/-- The conditions under which the plugin is asked. -/
structure Punctual (s : System Value) (session_id : Nat) (now : Int) : Prop where
  current : now = s.clock
  waited : slowed (s.log session_id) = true → ∀ earlier, lastStart (s.log session_id) = some earlier →
    earlier + announced (s.log session_id) ≤ s.clock
  idle : ∀ caller ∈ finals (s.log session_id), (s.polls caller).handles ≠ some session_id

/-- A session is inserted where its entry has no other; the table is had at once, and
    the plugin is asked when the interval of a `SlowDown` has passed and no final answer
    is being handled; a `SlowDown` is for the interval that the session has. -/
def Allowed (s : System Value) : Action Value → Prop
  | .insert number _ _ _ _ => ∀ entry, s.begins number = .Cleared entry →
      ∀ session_id state, s.sessions session_id = some state → state.entry = entry → ¬ state.live s.clock
  | .enter caller => ∀ session_id now, s.polls caller = .Asked session_id now →
      ∀ state, s.sessions session_id = some state → state.flow = .DeviceCode →
        now < state.expires_at_ms → state.next_poll_at_ms ≤ now → Punctual s session_id now
  | .settle caller => ∀ session_id interval session, s.polls caller = .Answered session_id interval (.SlowDown session) →
      ∀ state, s.sessions session_id = some state → state.poll_interval_ms = interval
  | _ => True

/-- The session and the interval that a call of a device code works with. -/
def Poll.captured : Poll Value → Option (Nat × Int)
  | .Device session_id interval | .Answered session_id interval _ => some (session_id,interval)
  | .New | .Asked _ _ | .Stored _ | .Code _ _ | .Returned _ => none
def Begin.inserted : Begin → Bool
  | .Inserted _ => true
  | .New | .Cleared _ | .Refused => false

/-- A session in the table. -/
structure Current (log : List Event) (polls : Nat → Poll Value) (session_id : Nat) (state : OAuthSession Value) : Prop where
  announced : announced log ≤ state.poll_interval_ms
  due : ∀ time, lastStart log = some time → slowed log = false → time + state.poll_interval_ms ≤ state.next_poll_at_ms
  finals : ∀ caller ∈ finals log, (polls caller).handles = some session_id
  captured : ∀ caller interval, (polls caller).captured = some (session_id,interval) → interval ≤ state.poll_interval_ms
  positive : 0 ≤ state.poll_interval_ms

structure Steady (log : List Event) (polls : Nat → Poll Value) (session : Option (OAuthSession Value)) (inserted : Bool)
    (session_id : Nat) : Prop where
  orderly : Orderly log
  unborn : inserted = false → session = none ∧ log = [] ∧ ∀ caller interval, (polls caller).captured ≠ some (session_id,interval)
  current : ∀ state, session = some state → Current log polls session_id state

structure Inv (s : System Value) : Prop where
  single : ∀ a b x y, s.sessions a = some x → s.sessions b = some y → x.entry = y.entry → x.live s.clock → y.live s.clock → a = b
  each : ∀ session_id, Steady (s.log session_id) s.polls (s.sessions session_id) (s.begins session_id).inserted session_id

section Steps
variable {s t : System Value} {log : List Event} {polls : Nat → Poll Value} {session : Option (OAuthSession Value)}
  {state : OAuthSession Value} {inserted : Bool} {session_id caller : Nat} {poll : Poll Value}

theorem Steady.known (holds : Steady log polls session inserted session_id) (isState : session = some state) : inserted = true := by
  cases isNew : inserted with
  | true => rfl
  | false => exact absurd ((holds.unborn isNew).1.symm.trans isState) nofun

variable {interval : Int}

theorem Steady.works (holds : Steady log polls session inserted session_id)
    (works : (polls caller).captured = some (session_id,interval)) : inserted = true := by
  cases isNew : inserted with
  | true => rfl
  | false => exact absurd works ((holds.unborn isNew).2.2 caller interval)

/-! ## Sessions of the table -/

def Same (before later : Option (OAuthSession Value)) : Prop :=
  ∀ y, later = some y → ∃ x, before = some x ∧ y.entry = x.entry ∧ y.expires_at_ms = x.expires_at_ms
theorem same_self (before : Option (OAuthSession Value)) : Same before before := fun y isSession => ⟨y,isSession,rfl,rfl⟩

theorem Inv.single_of (inv : Inv s) (clock : s.clock ≤ t.clock)
    (same : ∀ session_id, Same (s.sessions session_id) (t.sessions session_id)) :
    ∀ a b x y, t.sessions a = some x → t.sessions b = some y → x.entry = y.entry → x.live t.clock → y.live t.clock → a = b := by
  intro a b x y isX isY entries liveX liveY
  obtain ⟨oldX,wasX,entryX,expiresX⟩ := same a x isX
  obtain ⟨oldY,wasY,entryY,expiresY⟩ := same b y isY
  unfold OAuthSession.live at liveX liveY
  apply inv.single a b oldX oldY wasX wasY
  · rw [← entryX,← entryY,entries]
  · unfold OAuthSession.live
    omega
  · unfold OAuthSession.live
    omega

theorem Steady.removed (holds : Steady log polls session inserted session_id) : Steady log polls none inserted session_id where
  orderly := holds.orderly
  unborn isNew := ⟨rfl,(holds.unborn isNew).2⟩
  current := nofun

theorem Inv.remove (inv : Inv s) (session_id : Nat) : Inv (s.remove session_id) := by
  have cases : ∀ other, (s.remove session_id).sessions other = none ∨ (s.remove session_id).sessions other = s.sessions other := by
    intro other
    by_cases same : other = session_id
    · rw [same]
      exact .inl (Function.update_self ..)
    · exact .inr (Function.update_of_ne same ..)
  refine ⟨inv.single_of (Int.le_refl _) fun other => ?_,fun other => ?_⟩
  · rcases cases other with gone | stays
    · rw [gone]
      nofun
    · rw [stays]
      exact same_self _
  · rcases cases other with gone | stays
    · rw [gone]
      exact (inv.each other).removed
    · rw [stays]
      exact inv.each other

theorem insert_self (session_id : Nat) (state : OAuthSession Value) : (s.insert session_id state).sessions session_id = some state :=
  Function.update_self ..

theorem Inv.changed (inv : Inv s) {later : OAuthSession Value} (log : List Event) (isState : s.sessions session_id = some state)
    (entry : later.entry = state.entry) (expires : later.expires_at_ms = state.expires_at_ms) (orderly : Orderly log)
    (current : Current log s.polls session_id later) :
    Inv { s.insert session_id later with log := Function.update s.log session_id log } := by
  have known : (s.begins session_id).inserted = true := (inv.each session_id).known isState
  refine ⟨inv.single_of (Int.le_refl _) fun other => ?_,fun other => ?_⟩
  · show Same _ (Function.update s.sessions session_id (some later) other)
    by_cases same : other = session_id
    · rw [same,Function.update_self]
      intro y isY
      obtain rfl := Option.some.inj isY
      exact ⟨state,isState,entry,expires⟩
    · rw [Function.update_of_ne same]
      exact same_self _
  · show Steady (Function.update s.log session_id _ other) _ (Function.update s.sessions session_id (some later) other) _ _
    by_cases same : other = session_id
    · rw [same,Function.update_self,Function.update_self]
      refine ⟨orderly,fun isNew => absurd (known.symm.trans isNew) nofun,fun found isFound => ?_⟩
      obtain rfl := Option.some.inj isFound
      exact current
    · rw [Function.update_of_ne same,Function.update_of_ne same]
      exact inv.each other
theorem Inv.replace (inv : Inv s) {later : OAuthSession Value} (isState : s.sessions session_id = some state)
    (entry : later.entry = state.entry) (expires : later.expires_at_ms = state.expires_at_ms)
    (current : Current (s.log session_id) s.polls session_id later) : Inv (s.insert session_id later) := by
  have changed := inv.changed (s.log session_id) isState entry expires (inv.each session_id).orderly current
  rw [Function.update_eq_self] at changed
  exact changed

structure Turns (s : System Value) (caller : Nat) (poll : Poll Value) : Prop where
  captured : ∀ session_id interval, poll.captured = some (session_id,interval) → (s.polls caller).captured = some (session_id,interval) ∨
      ∃ state, s.sessions session_id = some state ∧ interval ≤ state.poll_interval_ms
  handles : ∀ session_id, s.sessions session_id ≠ none → caller ∈ finals (s.log session_id) → poll.handles = some session_id

section
variable (inv : Inv s)
include inv

theorem Inv.turn (turns : Turns s caller poll) : Inv (s.turn caller poll) where
  single := inv.single
  each session_id := by
    have holds := inv.each session_id
    refine ⟨holds.orderly,fun isNew => ?_,fun state isState => ?_⟩
    · obtain ⟨absent,blank,free⟩ := holds.unborn isNew
      refine ⟨absent,blank,fun other interval works => ?_⟩
      change (Function.update s.polls caller poll other).captured = _ at works
      by_cases same : other = caller
      · rw [same,Function.update_self] at works
        rcases turns.captured session_id interval works with before | ⟨state,isState,_⟩
        · exact free caller interval before
        · exact absurd (absent.symm.trans isState) nofun
      · rw [Function.update_of_ne same] at works
        exact free other interval works
    · have current := holds.current state isState
      have present : s.sessions session_id ≠ none := fun absent => absurd (absent.symm.trans isState) nofun
      refine ⟨current.announced,current.due,fun other member => ?_,fun other interval works => ?_,current.positive⟩
      · show (Function.update s.polls caller poll other).handles = _
        by_cases same : other = caller
        · rw [same,Function.update_self]
          exact turns.handles session_id present (same ▸ member)
        · rw [Function.update_of_ne same]
          exact current.finals other member
      · change (Function.update s.polls caller poll other).captured = _ at works
        by_cases same : other = caller
        · rw [same,Function.update_self] at works
          rcases turns.captured session_id interval works with before | ⟨found,isFound,less⟩
          · exact current.captured caller interval before
          · obtain rfl := Option.some.inj (isState.symm.trans isFound)
            exact less
        · rw [Function.update_of_ne same] at works
          exact current.captured other interval works

theorem Inv.turns (quiet : ∀ session_id, (s.polls caller).handles = some session_id → s.sessions session_id = none)
    (free : poll.captured = none) : Turns s caller poll where
  captured session_id interval works := absurd (free.symm.trans works) nofun
  handles session_id present member := by
    obtain ⟨state,isState⟩ := Option.ne_none_iff_exists'.mp present
    exact absurd (quiet session_id (((inv.each session_id).current state isState).finals caller member)) present
theorem Inv.quiet (quiet : (s.polls caller).handles = none) (free : poll.captured = none) : Inv (s.turn caller poll) :=
  inv.turn (inv.turns (fun _ busy => absurd (quiet.symm.trans busy) nofun) free)

theorem Inv.noted {event : Event} (known : (s.begins session_id).inserted = true) (orderly : Orderly (event :: s.log session_id))
    (current : ∀ state, s.sessions session_id = some state → Current (s.log session_id) s.polls session_id state →
      Current (event :: s.log session_id) s.polls session_id state) : Inv (s.note session_id event) where
  single := inv.single
  each other := by
    show Steady (Function.update s.log session_id _ other) _ _ _ _
    by_cases same : other = session_id
    · rw [same,Function.update_self]
      refine ⟨orderly,fun isNew => absurd (known.symm.trans isNew) nofun,fun state isState => ?_⟩
      exact current state isState ((inv.each session_id).current state isState)
    · rw [Function.update_of_ne same]
      exact inv.each other

theorem Inv.record (event : Event) (later : OAuthSession Value) (isState : s.sessions session_id = some state)
    (entry : later.entry = state.entry) (expires : later.expires_at_ms = state.expires_at_ms)
    (orderly : Orderly (event :: s.log session_id)) (current : Current (event :: s.log session_id) s.polls session_id later) :
    Inv ((s.insert session_id later).note session_id event) :=
  inv.changed (event :: s.log session_id) isState entry expires orderly current

theorem Inv.announces (known : (s.begins session_id).inserted = true)
    (less : ∀ state, s.sessions session_id = some state → interval ≤ state.poll_interval_ms) :
    Inv (s.note session_id (.Announced interval)) :=
  inv.noted known (inv.each session_id).orderly fun state isState holds =>
    ⟨less state isState,holds.due,holds.finals,holds.captured,holds.positive⟩

theorem Inv.pending (quiet : (s.polls caller).handles = none) (known : (s.begins session_id).inserted = true)
    (less : ∀ state, s.sessions session_id = some state → interval ≤ state.poll_interval_ms) :
    Inv (s.pending caller session_id interval) :=
  (inv.quiet quiet rfl).announces known less

end

variable {number : Nat}

theorem Inv.clear (inv : Inv s) (entry : Entry) (isNew : s.begins number = .New) : Inv (clear s number entry) := by
  have cases : ∀ session_id, (OAuthSessions.clear s number entry).sessions session_id = none ∨
      (OAuthSessions.clear s number entry).sessions session_id = s.sessions session_id := by
    intro session_id
    show (s.sessions session_id).filter _ = none ∨ (s.sessions session_id).filter _ = s.sessions session_id
    cases s.sessions session_id with
    | none => exact .inl rfl
    | some state =>
      rw [Option.filter_some]
      split_ifs
      · exact .inr rfl
      · exact .inl rfl
  have begins : ∀ session_id, ((OAuthSessions.clear s number entry).begins session_id).inserted = (s.begins session_id).inserted := by
    intro session_id
    show (Function.update s.begins number (.Cleared entry) session_id).inserted = _
    by_cases same : session_id = number
    · rw [same,Function.update_self,isNew]
      rfl
    · rw [Function.update_of_ne same]
  refine ⟨inv.single_of (Int.le_refl _) fun session_id => ?_,fun session_id => ?_⟩
  · rcases cases session_id with gone | stays
    · rw [gone]
      nofun
    · rw [stays]
      exact same_self _
  · rw [begins]
    rcases cases session_id with gone | stays
    · rw [gone]
      exact (inv.each session_id).removed
    · rw [stays]
      exact inv.each session_id

theorem Inv.refuse (inv : Inv s) (cleared : (s.begins number).inserted = false) :
    Inv { s with begins := Function.update s.begins number .Refused } where
  single := inv.single
  each session_id := by
    show Steady _ _ _ (Function.update s.begins number .Refused session_id).inserted _
    by_cases same : session_id = number
    · rw [same,Function.update_self]
      have holds := inv.each number
      rw [cleared] at holds
      exact holds
    · rw [Function.update_of_ne same]
      exact inv.each session_id

theorem Inv.insert (inv : Inv s) {entry : Entry} (cleared : s.begins number = .Cleared entry)
    (alone : ∀ session_id state, s.sessions session_id = some state → state.entry = entry → ¬ state.live s.clock)
    (flow : OAuthFlow) (session : Value) (expires_at_ms poll_interval_ms : Int) :
    Inv (insert s number entry flow session expires_at_ms poll_interval_ms) := by
  have notInserted : (s.begins number).inserted = false := by rw [cleared]; rfl
  rw [OAuthSessions.insert]
  split_ifs with late
  · exact inv.refuse notInserted
  · obtain ⟨absent,blank,free⟩ := (inv.each number).unborn notInserted
    refine ⟨?_,fun session_id => ?_⟩
    · -- the new session is the only live one of its entry
      intro a b x y isX isY entries liveX liveY
      change Function.update s.sessions number _ a = some x at isX
      change Function.update s.sessions number _ b = some y at isY
      by_cases sameA : a = number
      · by_cases sameB : b = number
        · rw [sameA,sameB]
        · rw [Function.update_of_ne sameB] at isY
          rw [sameA,Function.update_self] at isX
          obtain rfl := Option.some.inj isX
          exact absurd liveY (alone b y isY entries.symm)
      · rw [Function.update_of_ne sameA] at isX
        by_cases sameB : b = number
        · rw [sameB,Function.update_self] at isY
          obtain rfl := Option.some.inj isY
          exact absurd liveX (alone a x isX entries)
        · rw [Function.update_of_ne sameB] at isY
          exact inv.single a b x y isX isY entries liveX liveY
    · show Steady (Function.update s.log number _ session_id) s.polls (Function.update s.sessions number _ session_id)
        (Function.update s.begins number _ session_id).inserted session_id
      by_cases same : session_id = number
      · rw [same,Function.update_self,Function.update_self,Function.update_self]
        show Steady (.Announced _ :: s.log number) _ _ _ _
        rw [blank]
        refine ⟨trivial,nofun,fun state isState => ?_⟩
        obtain rfl := Option.some.inj isState
        refine ⟨Int.le_refl _,nofun,nofun,fun caller interval works => absurd works (free caller interval),?_⟩
        show 0 ≤ max poll_interval_ms 1000
        omega
      · rw [Function.update_of_ne same,Function.update_of_ne same,Function.update_of_ne same]
        exact inv.each session_id

theorem Inv.ask (inv : Inv s) {now : Int} (isState : s.sessions session_id = some state)
    (quiet : (s.polls caller).handles = none) (due : state.next_poll_at_ms ≤ now) (punctual : Punctual s session_id now) :
    Inv (((s.insert session_id { state with next_poll_at_ms := now + state.poll_interval_ms }).turn caller
      (.Device session_id state.poll_interval_ms)).note session_id (.Started s.clock)) := by
  have holds := inv.each session_id
  have current := holds.current state isState
  have none : finals (s.log session_id) = [] := by
    apply List.eq_nil_iff_forall_not_mem.mpr
    intro other member
    exact punctual.idle other member (current.finals other member)
  have spaced : ∀ earlier, lastStart (s.log session_id) = some earlier → earlier + announced (s.log session_id) ≤ s.clock := by
    intro earlier isStart
    cases isSlowed : slowed (s.log session_id) with
    | true => exact punctual.waited isSlowed earlier isStart
    | false =>
      have gap := current.due earlier isStart isSlowed
      have told := current.announced
      have now_ := punctual.current
      omega
  have recorded := inv.record (.Started s.clock) { state with next_poll_at_ms := now + state.poll_interval_ms }
    isState rfl rfl ⟨spaced,none,holds.orderly⟩ {
      announced := current.announced
      due := fun time isStart _ => by
        have isClock : s.clock = time := Option.some.inj isStart
        have now_ := punctual.current
        show time + state.poll_interval_ms ≤ now + state.poll_interval_ms
        omega
      finals := current.finals
      captured := current.captured
      positive := current.positive }
  refine recorded.turn ⟨fun other interval works => .inr ?_,fun other present member => ?_⟩
  · obtain ⟨rfl,rfl⟩ := Prod.mk.inj (Option.some.inj works)
    exact ⟨_,Function.update_self ..,Int.le_refl _⟩
  · obtain ⟨found,isFound⟩ := Option.ne_none_iff_exists'.mp present
    have busy := ((recorded.each other).current found isFound).finals caller member
    exact absurd (quiet.symm.trans busy) nofun

theorem Inv.enter (inv : Inv s) {now : Int} (asked : s.polls caller = .Asked session_id now)
    (punctual : ∀ state, s.sessions session_id = some state → state.flow = .DeviceCode → now < state.expires_at_ms →
      state.next_poll_at_ms ≤ now → Punctual s session_id now) : Inv (enter s caller session_id now) := by
  have quiet : (s.polls caller).handles = none := by rw [asked]; rfl
  rw [OAuthSessions.enter]
  split
  · exact inv.quiet quiet rfl
  · rename_i state isState
    have holds := inv.each session_id
    have current := holds.current state isState
    have known := holds.known isState
    have interval : ∀ found, s.sessions session_id = some found → state.poll_interval_ms ≤ found.poll_interval_ms := by
      intro found isFound
      exact Int.le_of_eq (congrArg _ (Option.some.inj (isState.symm.trans isFound)))
    split_ifs with expired early
    · exact (inv.remove session_id).quiet quiet rfl
    · exact inv.pending quiet known interval
    · dsimp only
      -- the next time is put off for every flow
      have later : ∀ flow, Current (s.log session_id) s.polls session_id
          { state with next_poll_at_ms := now + state.poll_interval_ms, flow := flow } := by
        intro flow
        refine ⟨current.announced,fun time isStart still => ?_,current.finals,current.captured,current.positive⟩
        have gap := current.due time isStart still
        have positive := current.positive
        show time + state.poll_interval_ms ≤ now + state.poll_interval_ms
        omega
      split
      · rename_i isDevice
        exact inv.ask isState quiet (by omega) (punctual state isState isDevice (by omega) (by omega))
      · have replaced := inv.replace isState (by rfl) (by rfl) (later state.flow)
        refine replaced.pending quiet known fun found isFound => ?_
        obtain rfl := Option.some.inj ((insert_self ..).symm.trans isFound)
        exact Int.le_refl _
      · exact (inv.replace isState (by rfl) (by rfl) (later _)).quiet quiet rfl
      · exact (inv.remove session_id).quiet quiet rfl

theorem Inv.update_session (inv : Inv s) (session_id : Nat) (session : Option Value) : Inv (update_session s session_id session none) := by
  rw [OAuthSessions.update_session]
  split
  · exact inv
  · rename_i state isState
    have current := (inv.each session_id).current state isState
    exact inv.replace isState rfl rfl ⟨current.announced,current.due,current.finals,current.captured,current.positive⟩
theorem update_session_interval (session : Option Value) (found : OAuthSession Value)
    (isFound : (update_session s session_id session none).sessions session_id = some found) :
    ∃ state, s.sessions session_id = some state ∧ found.poll_interval_ms = state.poll_interval_ms := by
  rw [update_session] at isFound
  split at isFound
  · rename_i absent
    exact absurd (absent.symm.trans isFound) nofun
  · rename_i state isState
    obtain rfl := Option.some.inj ((insert_self ..).symm.trans isFound)
    exact ⟨state,isState,rfl⟩

theorem Inv.slow_down (inv : Inv s) {session : Option Value}
    (answered : s.polls caller = .Answered session_id interval (.SlowDown session))
    (same : ∀ state, s.sessions session_id = some state → state.poll_interval_ms = interval) :
    Inv (settle s caller session_id interval (.SlowDown session)) := by
  have quiet : (s.polls caller).handles = none := by rw [answered]; rfl
  have known := (inv.each session_id).works (by rw [answered]; rfl)
  rw [settle]
  cases isState : s.sessions session_id with
  | none =>
    have untouched : OAuthSessions.update_session (noteSlowed s session_id (interval + OAUTH_SLOW_DOWN_STEP_MS)) session_id
        session (some (interval + OAUTH_SLOW_DOWN_STEP_MS)) = s := by
      rw [noteSlowed,isState]
      dsimp only
      rw [OAuthSessions.update_session,isState]
    rw [untouched]
    exact inv.pending quiet known fun found isFound => absurd (isState.symm.trans isFound) nofun
  | some state =>
    have current := (inv.each session_id).current state isState
    have isInterval := same state isState
    have changed : OAuthSessions.update_session (noteSlowed s session_id (interval + OAUTH_SLOW_DOWN_STEP_MS)) session_id
        session (some (interval + OAUTH_SLOW_DOWN_STEP_MS)) =
        (s.insert session_id { state with
          session := session.getD state.session
          poll_interval_ms := interval + OAUTH_SLOW_DOWN_STEP_MS }).note session_id
            (.Slowed state.poll_interval_ms (interval + OAUTH_SLOW_DOWN_STEP_MS)) := by
      rw [noteSlowed,isState]
      dsimp only
      rw [OAuthSessions.update_session,show (s.note session_id _).sessions session_id = some state from isState]
      rfl
    rw [changed]
    have told := current.announced
    have positive := current.positive
    have recorded := inv.record (.Slowed state.poll_interval_ms (interval + OAUTH_SLOW_DOWN_STEP_MS))
      { state with
        session := session.getD state.session
        poll_interval_ms := interval + OAUTH_SLOW_DOWN_STEP_MS } isState rfl rfl
      ⟨by rw [isInterval],(inv.each session_id).orderly⟩ {
        announced := by
          show announced (s.log session_id) ≤ interval + OAUTH_SLOW_DOWN_STEP_MS
          unfold OAUTH_SLOW_DOWN_STEP_MS
          omega
        due := nofun
        finals := current.finals
        captured := fun other old works => by
          have less := current.captured other old works
          show old ≤ interval + OAUTH_SLOW_DOWN_STEP_MS
          unfold OAUTH_SLOW_DOWN_STEP_MS
          omega
        positive := by
          show 0 ≤ interval + OAUTH_SLOW_DOWN_STEP_MS
          unfold OAUTH_SLOW_DOWN_STEP_MS
          omega }
    refine recorded.pending quiet known fun found isFound => ?_
    obtain rfl := Option.some.inj ((insert_self ..).symm.trans isFound)
    exact Int.le_refl _

theorem Inv.ends (inv : Inv s) (handles : (s.polls caller).handles = some session_id) (response : OAuthPollResponse) :
    Inv ((s.remove session_id).returns caller response) := by
  have removed := inv.remove session_id
  refine removed.turn (removed.turns (fun other busy => ?_) rfl)
  obtain rfl : session_id = other := Option.some.inj (handles.symm.trans busy)
  exact Function.update_self ..

theorem Inv.settle (inv : Inv s) {answer : OAuth2Poll Value} (answered : s.polls caller = .Answered session_id interval answer)
    (same : ∀ session, answer = .SlowDown session → ∀ state, s.sessions session_id = some state → state.poll_interval_ms = interval) :
    Inv (settle s caller session_id interval answer) := by
  have works : (s.polls caller).captured = some (session_id,interval) := by rw [answered]; rfl
  have handles : answer.final = true → (s.polls caller).handles = some session_id := by
    intro isFinal
    rw [answered]
    exact if_pos isFinal
  cases answer with
  | Pending session =>
    have quiet : (s.polls caller).handles = none := by rw [answered]; rfl
    have updated := inv.update_session session_id session
    have polls : (OAuthSessions.update_session s session_id session none).polls = s.polls := by
      rw [OAuthSessions.update_session]
      split <;> rfl
    have begins : (OAuthSessions.update_session s session_id session none).begins = s.begins := by
      rw [OAuthSessions.update_session]
      split <;> rfl
    refine updated.pending (polls ▸ quiet) (begins ▸ (inv.each session_id).works works) fun found isFound => ?_
    obtain ⟨state,isState,isInterval⟩ := update_session_interval session found isFound
    rw [isInterval]
    exact ((inv.each session_id).current state isState).captured caller interval works
  | SlowDown session => exact inv.slow_down answered (same session rfl)
  | Completed => exact inv
  | Denied message => exact inv.ends (handles rfl) _
  | Failed message => exact inv.ends (handles rfl) _

theorem Inv.kept (inv : Inv s) (answered : s.polls caller = .Answered session_id interval .Completed) :
    Inv ((s.turn caller (.Returned none)).note session_id (.Kept caller)) := by
  have handles : (s.polls caller).handles = some session_id := by rw [answered]; rfl
  have known := (inv.each session_id).works (by rw [answered]; rfl)
  have noted : Inv (s.note session_id (.Kept caller)) :=
    inv.noted known (inv.each session_id).orderly fun state isState holds =>
      ⟨holds.announced,holds.due,fun other member => holds.finals other (List.mem_filter.mp member).1,holds.captured,holds.positive⟩
  refine noted.turn ⟨nofun,fun other present member => ?_⟩
  obtain ⟨state,isState⟩ := Option.ne_none_iff_exists'.mp present
  obtain rfl : session_id = other := by
    have busy := ((noted.each other).current state isState).finals caller member
    exact Option.some.inj (handles.symm.trans busy)
  rw [show (s.note session_id (.Kept caller)).log session_id = .Kept caller :: s.log session_id from Function.update_self ..,
    finals] at member
  simp at member

theorem Inv.answer (inv : Inv s) {interval : Int} (waits : s.polls caller = .Device session_id interval) (answer : OAuth2Poll Value) :
    Inv (let t := s.turn caller (.Answered session_id interval answer)
      if answer.final then t.note session_id (.Answered caller) else t) := by
  have works : (s.polls caller).captured = some (session_id,interval) := by rw [waits]; rfl
  have turned : Inv (s.turn caller (.Answered session_id interval answer)) := by
    refine inv.turn ⟨fun other found isFound => .inl (works.trans isFound),fun other present member => ?_⟩
    obtain ⟨state,isState⟩ := Option.ne_none_iff_exists'.mp present
    have busy := ((inv.each other).current state isState).finals caller member
    rw [waits] at busy
    cases busy
  dsimp only
  split_ifs with isFinal
  · refine turned.noted ((inv.each session_id).works works) (inv.each session_id).orderly fun state isState holds =>
      ⟨holds.announced,holds.due,fun other member => ?_,holds.captured,holds.positive⟩
    rcases List.mem_cons.mp member with rfl | before
    · show (Function.update s.polls other _ other).handles = _
      rw [Function.update_self]
      exact if_pos isFinal
    · exact holds.finals other before
  · exact turned

theorem Inv.step (inv : Inv s) {action : Action Value} (allowed : Allowed s action) : Inv (step s action) := by
  cases action with
  | tick passed => exact ⟨inv.single_of (by show s.clock ≤ s.clock + passed; omega) fun _ => same_self _,inv.each⟩
  | clear number entry =>
    rw [OAuthSessions.step]
    split_ifs with isNew
    · exact inv.clear entry isNew
    · exact inv
  | insert number flow session expires_at_ms poll_interval_ms =>
    rw [OAuthSessions.step]
    split
    · rename_i entry cleared
      exact inv.insert cleared (allowed entry cleared) flow session expires_at_ms poll_interval_ms
    · exact inv
  | refuse number =>
    rw [OAuthSessions.step]
    split
    · rename_i entry cleared
      exact inv.refuse (by rw [cleared]; rfl)
    · exact inv
  | expire number =>
    rw [OAuthSessions.step]
    split
    · split_ifs
      · exact inv.remove number
      · exact inv
    · exact inv
  | redirect session_id callback =>
    rw [OAuthSessions.step]
    split
    · rename_i state isState
      split
      · have current := (inv.each session_id).current state isState
        exact inv.replace isState (by rfl) (by rfl)
          ⟨current.announced,current.due,current.finals,current.captured,current.positive⟩
      · exact inv
    · exact inv
  | ask caller session_id =>
    rw [OAuthSessions.step]
    split
    · rename_i isNew
      exact inv.quiet (by rw [isNew]; rfl) rfl
    · exact inv
  | enter caller =>
    rw [OAuthSessions.step]
    split
    · rename_i session_id now asked
      exact inv.enter asked (allowed session_id now asked)
    · exact inv
  | answer caller answer =>
    rw [OAuthSessions.step]
    split
    · rename_i session_id interval waits
      exact inv.answer waits answer
    · exact inv
  | fail caller =>
    rw [OAuthSessions.step]
    split
    · rename_i session_id interval waits
      exact inv.quiet (by rw [waits]; rfl) rfl
    · exact inv
  | store caller stored =>
    rw [OAuthSessions.step]
    split
    · rename_i session_id interval answered
      split_ifs
      · refine inv.turn ⟨nofun,fun other present member => ?_⟩
        obtain ⟨state,isState⟩ := Option.ne_none_iff_exists'.mp present
        have busy := ((inv.each other).current state isState).finals caller member
        rw [answered] at busy
        exact busy
      · exact inv.kept answered
    · exact inv
  | settle caller =>
    rw [OAuthSessions.step]
    split
    · rename_i session_id interval answer answered
      refine inv.settle answered fun session isAnswer => ?_
      subst isAnswer
      exact allowed session_id interval session answered
    · rename_i session_id stored
      exact inv.ends (by rw [stored]; rfl) _
    · exact inv
  | complete caller result =>
    rw [OAuthSessions.step]
    split
    · rename_i session_id code waits
      exact (inv.remove session_id).quiet (by show (s.polls caller).handles = none; rw [waits]; rfl) rfl
    · exact inv

theorem Inv.start : Inv ({} : System Value) where
  single a b x y isX := by cases isX
  each _ := by
    refine ⟨trivial,fun _ => ⟨rfl,rfl,fun caller interval works => ?_⟩,fun state isState => ?_⟩
    · cases works
    · cases isState

end Steps

/-- In a run whose steps are allowed, an entry has one live session, and the plugin is
    asked at the announced pace and not after a final answer. -/
theorem sessions_keep_lifecycle (actions : List (Action Value)) (meets : Meets step Allowed {} actions) :
    Lifecycle (after step {} actions) := by
  have inv : Inv (after step {} actions) := meets.invariant Inv.start fun _ _ inv allowed => inv.step allowed
  exact ⟨inv.single,fun session_id => (inv.each session_id).orderly⟩

def codex : Entry := ⟨"codex-auth","chatgpt-account","device-code"⟩
/-- Both calls clear the table before either of them has its session. -/
def begunTwice : List (Action Unit) :=
  [.clear 0 codex,.clear 1 codex,.insert 0 .DeviceCode () 900000 5000,.insert 1 .DeviceCode () 900000 5000]
/-- The caller is told to slow down and asks again after the old interval. -/
def askedSoon : List (Action Unit) :=
  [.clear 0 codex,.insert 0 .DeviceCode () 900000 5000,.tick 5000,.ask 0 0,.enter 0,.answer 0 (.SlowDown none),.settle 0,
    .tick 5000,.ask 1 0,.enter 1]

theorem begun_twice : ¬ Lifecycle (after step {} begunTwice) ∧ (after step {} askedSoon).log 0 =
        [.Started 10000,.Announced 10000,.Slowed 5000 10000,.Started 5000,.Announced 5000] ∧
      ¬ Lifecycle (after step {} askedSoon) := by
  have log : (after step {} askedSoon).log 0 =
      [.Started 10000,.Announced 10000,.Slowed 5000 10000,.Started 5000,.Announced 5000] := by decide
  refine ⟨?_,log,?_⟩
  · intro lifecycle
    have same := lifecycle.single 0 1 ⟨codex,(),900000,5000,5000,.DeviceCode⟩ ⟨codex,(),900000,5000,5000,.DeviceCode⟩
      rfl rfl rfl (by show (0 : Int) < 900000; decide) (by show (0 : Int) < 900000; decide)
    cases same
  · intro lifecycle
    have paced := lifecycle.orderly 0
    rw [log] at paced
    have gap : (5000 : Int) + 10000 ≤ 10000 := paced.1 5000 rfl
    omega

def askedInTime : List (Action Unit) :=
  [.clear 0 codex,.insert 0 .DeviceCode () 900000 5000,.tick 5000,.ask 0 0,.enter 0,.answer 0 (.SlowDown none),.settle 0,
    .tick 10000,.ask 1 0,.enter 1,.answer 1 .Completed,.store 1 true,.settle 1]

theorem sessions_keep_lifecycle_slowed : (after step {} askedInTime).log 0 =
        [.Answered 1,.Started 15000,.Announced 10000,.Slowed 5000 10000,.Started 5000,.Announced 5000] ∧
      Lifecycle (after step {} askedInTime) := by
  refine ⟨by decide,sessions_keep_lifecycle _ ?_⟩
  refine ⟨trivial,?_,trivial,trivial,?_,trivial,?_,trivial,trivial,?_,trivial,trivial,?_,trivial⟩
  · intro entry _ session_id state isState
    cases isState
  · rintro session_id now ⟨⟩ state _ _ _ _
    exact ⟨rfl,nofun,nofun⟩
  · rintro session_id interval session ⟨⟩ state ⟨⟩
    rfl
  · rintro session_id now ⟨⟩ state _ _ _ _
    refine ⟨rfl,?_,nofun⟩
    rintro _ earlier ⟨⟩
    decide
  · rintro session_id interval session ⟨⟩

end MyCursor.OAuthSessions
