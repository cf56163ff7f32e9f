import Mathlib.Data.List.Basic

/-!
# Runs of a transition system

A run is the list of the actions taken, in the order in which they were; the
state after it is a fold. What holds at the start and is kept by every allowed
step holds after every run whose steps are all allowed.
-/
namespace Transitions

variable {State Action : Type} (step : State → Action → State)

def after (s : State) (actions : List Action) : State := actions.foldl step s

/-- Every step is allowed in the state in which it is taken. -/
def Meets (allowed : State → Action → Prop) : State → List Action → Prop
  | _, [] => True
  | s, action :: rest => allowed s action ∧ Meets allowed (step s action) rest

instance (allowed : State → Action → Prop) [∀ s a, Decidable (allowed s a)] (s : State) (actions : List Action) :
    Decidable (Meets step allowed s actions) :=
  match actions with
  | [] => isTrue trivial
  | action :: rest =>
    @instDecidableAnd _ _ inferInstance (instDecidableMeets allowed (step s action) rest)

variable {step} {allowed : State → Action → Prop} {s : State}

@[simp] theorem after_nil : after step s [] = s := rfl
@[simp] theorem after_cons (action : Action) (rest : List Action) : after step s (action :: rest) = after step (step s action) rest := rfl
theorem after_append (before later : List Action) : after step s (before ++ later) = after step (after step s before) later := by
  simp [after]

theorem Meets.split {before later : List Action} (meets : Meets step allowed s (before ++ later)) :
    Meets step allowed s before ∧ Meets step allowed (after step s before) later := by
  induction before generalizing s with
  | nil => exact ⟨trivial,meets⟩
  | cons action rest ih =>
    obtain ⟨first,others⟩ := ih meets.2
    exact ⟨⟨meets.1,first⟩,others⟩

theorem Meets.snoc {actions : List Action} {action : Action} (meets : Meets step allowed s actions)
    (next : allowed (after step s actions) action) : Meets step allowed s (actions ++ [action]) := by
  induction actions generalizing s with
  | nil => exact ⟨next,trivial⟩
  | cons first rest ih => exact ⟨meets.1,ih meets.2 next⟩

theorem Meets.invariant {P : State → Prop} {actions : List Action} (meets : Meets step allowed s actions)
    (start : P s) (keeps : ∀ s action, P s → allowed s action → P (step s action)) :
    P (after step s actions) := by
  induction actions generalizing s with
  | nil => exact start
  | cons action rest ih => exact ih meets.2 (keeps s action start meets.1)

theorem invariant {P : State → Prop} (start : P s) (keeps : ∀ s action, P s → P (step s action))
    (actions : List Action) : P (after step s actions) := by
  induction actions generalizing s with
  | nil => exact start
  | cons action rest ih => exact ih (keeps s action start)

end Transitions
