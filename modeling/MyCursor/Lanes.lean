import Mathlib.Data.List.Basic

/-!
# Lanes of blocks

A stream may carry several kinds of content at once, each of which is started,
grows by deltas and is ended. The events of one kind are a lane. What a
recogniser keeps of a lane is whether its block is open.
-/
namespace Lanes

variable {α : Type}

inductive Event (α : Type) where
  | Start
  | Delta (delta : α)
  | End
deriving DecidableEq

inductive State where
  | Unstarted
  | Open
  | Ended
deriving DecidableEq

/-- The next state. `again` says whether a lane has more than one block. -/
def next (again : Bool) : State → Event α → Option State
  | .Unstarted, .Start => some .Open
  | .Ended, .Start => if again then some .Open else none
  | .Open, .Delta _ => some .Open
  | .Open, .End => some .Ended
  | _, _ => none
def runFrom (again : Bool) : State → List (Event α) → Option State
  | state, [] => some state
  | state, event :: rest => (next again state event).bind (runFrom again · rest)
def run (again : Bool) (lane : List (Event α)) : Option State := runFrom again .Unstarted lane

def deltas (lane : List (Event α)) : List α :=
  lane.filterMap fun event => match event with
    | .Delta delta => some delta
    | _ => none

inductive Blocks : List (Event α) → Prop where
  | nil : Blocks []
  | block (content : List α) {rest : List (Event α)} (later : Blocks rest) : Blocks (.Start :: (content.map .Delta ++ .End :: rest))
def OneBlock (lane : List (Event α)) : Prop :=
  lane = [] ∨ ∃ content : List α, lane = .Start :: (content.map .Delta ++ [.End])

theorem runFrom_append (again : Bool) (before later : List (Event α)) : ∀ state,
    runFrom again state (before ++ later) = (runFrom again state before).bind (runFrom again · later) := by
  induction before with
  | nil => exact fun state => rfl
  | cons event rest ih =>
    intro state
    simp only [List.cons_append,runFrom]
    cases next again state event with
    | none => rfl
    | some state => exact ih state

theorem run_snoc (again : Bool) (lane : List (Event α)) (event : Event α) :
    run again (lane ++ [event]) = (run again lane).bind (next again · event) := by
  rw [run,runFrom_append]
  congr 1
  funext state
  simp only [runFrom]
  cases next again state event <;> rfl

theorem run_next {again : Bool} {before later : List (Event α)} {event : Event α} {state last : State}
    (reads : run again (before ++ event :: later) = some last) (isState : run again before = some state) :
    ∃ state', next again state event = some state' := by
  rw [run,runFrom_append,show runFrom again .Unstarted before = some state from isState] at reads
  simp only [Option.bind_some,runFrom] at reads
  cases isNext : next again state event with
  | none => simp [isNext] at reads
  | some state' => exact ⟨state',rfl⟩

@[simp] theorem deltas_append (before later : List (Event α)) : deltas (before ++ later) = deltas before ++ deltas later :=
  List.filterMap_append

def Rest (again : Bool) (lane : List (Event α)) : Prop :=
  ∃ (content : List α) (rest : List (Event α)), lane = content.map .Delta ++ .End :: rest ∧ if again then Blocks rest else rest = []
def Follows (again : Bool) : State → List (Event α) → Prop
  | .Unstarted, lane => if again then Blocks lane else OneBlock lane
  | .Ended, lane => if again then Blocks lane else lane = []
  | .Open, lane => Rest again lane

theorem rest_delta (again : Bool) (delta : α) (lane : List (Event α)) : Rest again (.Delta delta :: lane) ↔ Rest again lane := by
  constructor
  · rintro ⟨content,rest,isLane,later⟩
    cases content with
    | nil => cases isLane
    | cons first content =>
      obtain ⟨_,isLane⟩ := List.cons.inj isLane
      exact ⟨content,rest,isLane,later⟩
  · rintro ⟨content,rest,rfl,later⟩
    exact ⟨delta :: content,rest,rfl,later⟩
theorem rest_end (again : Bool) (lane : List (Event α)) : Rest again (.End :: lane) ↔ if again then Blocks lane else lane = [] := by
  constructor
  · rintro ⟨content,rest,isLane,later⟩
    cases content with
    | nil =>
      obtain ⟨_,rfl⟩ := List.cons.inj isLane
      exact later
    | cons first content => cases isLane
  · exact fun later => ⟨[],lane,rfl,later⟩
theorem not_rest_start (again : Bool) (lane : List (Event α)) : ¬ Rest again (.Start :: lane) := by
  rintro ⟨content,rest,isLane,_⟩
  cases content <;> cases isLane
theorem not_rest_nil (again : Bool) : ¬ Rest again ([] : List (Event α)) := by
  rintro ⟨content,rest,isLane,_⟩
  cases content <;> cases isLane

theorem blocks_start (lane : List (Event α)) : Blocks (.Start :: lane) ↔ Rest true lane := by
  constructor
  · rintro ⟨⟩
    rename_i content rest later
    exact ⟨content,rest,rfl,later⟩
  · rintro ⟨content,rest,rfl,later⟩
    exact .block content later
theorem oneBlock_start (lane : List (Event α)) : OneBlock (.Start :: lane) ↔ Rest false lane := by
  constructor
  · rintro (isNil | ⟨content,isLane⟩)
    · cases isNil
    · exact ⟨content,[],(List.cons.inj isLane).2,rfl⟩
  · rintro ⟨content,rest,rfl,later⟩
    exact .inr ⟨content,by simpa using later⟩

theorem follows_cons (again : Bool) (state : State) (event : Event α) (lane : List (Event α)) :
    Follows again state (event :: lane) ↔ ∃ state', next again state event = some state' ∧ Follows again state' lane := by
  cases state with
  | Open =>
    cases event with
    | Start => simp [Follows,next,not_rest_start]
    | Delta delta => simp [Follows,next,rest_delta]
    | End => simp [Follows,next,rest_end]
  | Unstarted =>
    cases event with
    | Start => cases again <;> simp [Follows,next,blocks_start,oneBlock_start]
    | Delta delta | End =>
      cases again
      · simp [Follows,next,OneBlock]
      · simp only [Follows,next,if_true]
        exact ⟨fun blocks => (by cases blocks),by simp⟩
  | Ended =>
    cases event with
    | Start => cases again <;> simp [Follows,next,blocks_start]
    | Delta delta | End =>
      cases again
      · simp [Follows,next]
      · simp only [Follows,next,if_true]
        exact ⟨fun blocks => (by cases blocks),by simp⟩

theorem follows_nil (again : Bool) (state : State) : Follows again state ([] : List (Event α)) ↔ state ≠ .Open := by
  cases state with
  | Open => simp [Follows,not_rest_nil]
  | Unstarted => cases again <;> simp [Follows,OneBlock,Blocks.nil]
  | Ended => cases again <;> simp [Follows,Blocks.nil]

theorem follows_iff (again : Bool) (lane : List (Event α)) : ∀ state,
    Follows again state lane ↔ ∃ last, runFrom again state lane = some last ∧ last ≠ .Open := by
  induction lane with
  | nil =>
    intro state
    simp [runFrom,follows_nil]
  | cons event rest ih =>
    intro state
    rw [follows_cons]
    simp only [runFrom]
    cases next again state event with
    | none => simp
    | some state' => simp [ih state']

theorem blocks_iff (lane : List (Event α)) : Blocks lane ↔ ∃ last, run true lane = some last ∧ last ≠ .Open :=
  follows_iff true lane .Unstarted
theorem oneBlock_iff (lane : List (Event α)) : OneBlock lane ↔ ∃ last, run false lane = some last ∧ last ≠ .Open :=
  follows_iff false lane .Unstarted

end Lanes
