import Mathlib.Logic.Function.Basic
import MyCursor.Transitions

/-!
# Updates of shared cells

Tasks change the cells of a store by a read and a later write of what they computed
from it. Other tasks come in between. Where each write finds the content that was
read, the changes that succeeded are the same as one after the other.
-/
namespace Updates
open Transitions

variable {Cell : Type} [DecidableEq Cell] {Content : Cell → Type} {Op Failure : Type} (cell : Op → Cell)

/-- A task reads the cell of its operation, keeps the content and answers. -/
inductive Phase (Content : Cell → Type) (Failure : Type) where
  | New
  | Held (op : Op) (content : Content (cell op))
  | Answered (op : Op) (failure : Option Failure)

/-- `committed` are the operations that were answered with success. -/
structure System (Content : Cell → Type) (Failure : Type) where
  store : (c : Cell) → Content c
  tasks : Nat → Phase cell Content Failure := fun _ => .New
  committed : List Op := []

inductive Action (Op Failure : Type) where
  | read (task : Nat) (op : Op) (failure : Option Failure)
  | write (task : Nat) (failure : Option Failure)

variable {cell}

def System.answer (s : System cell Content Failure) (task : Nat) (op : Op) (failure : Option Failure) : System cell Content Failure :=
  { s with tasks := Function.update s.tasks task (.Answered op failure) }

variable (change : (op : Op) → Content (cell op) → Except Failure (Content (cell op)))

/-- Actions that are not possible change nothing. -/
def step (s : System cell Content Failure) : Action Op Failure → System cell Content Failure
  | .read task op failure =>
    match s.tasks task with
    | .New =>
      match failure with
      | some failure => s.answer task op (some failure)
      | none => { s with tasks := Function.update s.tasks task (.Held op (s.store (cell op))) }
    | _ => s
  | .write task failure =>
    match s.tasks task with
    | .Held op content =>
      match change op content, failure with
      | .error failure, _ => s.answer task op (some failure)
      | .ok _, some failure => s.answer task op (some failure)
      | .ok content, none =>
        { s.answer task op none with store := Function.update s.store (cell op) content, committed := s.committed ++ [op] }
    | _ => s

/-- The operations one after the other, all with success. -/
def serially (store : (c : Cell) → Content c) : List Op → Option ((c : Cell) → Content c)
  | [] => some store
  | op :: rest =>
    match change op (store (cell op)) with
    | .error _ => none
    | .ok content => serially (Function.update store (cell op) content) rest

/-- The store is what the operations that were answered with success make of the
    first one, in some order. -/
def Serial (initial : (c : Cell) → Content c) (s : System cell Content Failure) : Prop :=
  ∃ order : List Op, order.Perm s.committed ∧ serially change initial order = some s.store

/-- A write finds the content that its task has read. -/
def Untouched (s : System cell Content Failure) : Action Op Failure → Prop
  | .read _ _ _ => True
  | .write task _ =>
    match s.tasks task with
    | .Held op content => s.store (cell op) = content
    | _ => True
instance [∀ c, DecidableEq (Content c)] (s : System cell Content Failure) : ∀ action : Action Op Failure, Decidable (Untouched s action)
  | .read _ _ _ => isTrue trivial
  | .write task _ =>
    match isTask : s.tasks task with
    | .Held op content => decidable_of_iff (s.store (cell op) = content) (by simp [Untouched,isTask])
    | .New | .Answered _ _ => isTrue (by simp [Untouched,isTask])

variable {change} {initial : (c : Cell) → Content c} {s : System cell Content Failure}

theorem serially_snoc {order : List Op} {op : Op} {store : (c : Cell) → Content c} {content : Content (cell op)}
    (before : serially change initial order = some store) (changes : change op (store (cell op)) = .ok content) :
    serially change initial (order ++ [op]) = some (Function.update store (cell op) content) := by
  induction order generalizing initial with
  | nil =>
    obtain rfl := Option.some.inj before
    simp [serially,changes]
  | cons first rest ih =>
    rw [serially] at before
    rw [List.cons_append,serially]
    cases isFirst : change first (initial (cell first)) with
    | error failure =>
      rw [isFirst] at before
      cases before
    | ok changed =>
      rw [isFirst] at before
      exact ih before

theorem step_serial {action : Action Op Failure} (serial : serially change initial s.committed = some s.store)
    (untouched : Untouched s action) :
    serially change initial (step change s action).committed = some (step change s action).store := by
  cases action with
  | read task op failure =>
    simp only [step]
    cases s.tasks task with
    | New => cases failure <;> exact serial
    | Held _ _ | Answered _ _ => exact serial
  | write task failure =>
    simp only [step]
    cases isTask : s.tasks task with
    | New | Answered _ _ => exact serial
    | Held op content =>
      have found : s.store (cell op) = content := by simpa [Untouched,isTask] using untouched
      dsimp only
      cases changes : change op content with
      | error _ => exact serial
      | ok changed =>
        cases failure with
        | some _ => exact serial
        | none => exact serially_snoc serial (by rw [found,changes])

theorem serial_of_untouched {actions : List (Action Op Failure)} (meets : Meets (step change) Untouched { store := initial } actions) :
    Serial change initial (after (step change) { store := initial } actions) := by
  refine ⟨_,List.Perm.refl _,?_⟩
  exact meets.invariant (P := fun s => serially change initial s.committed = some s.store) rfl
    fun _ _ serial untouched => step_serial serial untouched

end Updates
