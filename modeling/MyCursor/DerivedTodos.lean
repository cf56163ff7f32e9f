import MyCursor.Fallible
import MyCursor.Keyed
import MyCursor.ToolRequests

/-!
# The todos and the plan of a checkpoint

`cursor/prompting/derived_state.rs` and `cursor/checkpoint/derived.rs`: the todos and the
plan are folded from the messages over those of the last checkpoint, and the checkpoint
stores what came out. A blob stands for what it holds.
-/
namespace MyCursor.DerivedTodos
open Message ToolRequests
open Keyed (insertLast lookup)

structure DerivedState where
  todos : Option Value
  plan : Option Value
deriving DecidableEq

def idOf (value : Value) : Option String := (Json.get value "id").bind Json.as_str
/-- `Map::extend`: the members of the patch win. -/
def extend : Value → Value → Value
  | .Object todo, .Object patch => .Object (todo.map (fun member => (member.1,(Json.get (.Object patch) member.1).getD member.2)) ++
      patch.filter fun member => member.1 ∉ todo.map (·.1))
  | todo, _ => todo
/-- The first todo of the id is patched; only objects have an id. -/
def apply_patch : List Value → Value → List Value
  | [], patch => [patch]
  | todo :: rest, patch => if idOf patch ≠ none ∧ idOf todo = idOf patch then extend todo patch :: rest else todo :: apply_patch rest patch
def is_merge (input : Value) : Bool := ((Json.get input "merge").bind Json.as_bool).getD false
def todosOf (state : Option Value) : List Value := ((state.bind (Json.get · "todos")).bind Json.as_array).getD []
def apply_todo_write (current : Option Value) (input : Value) : Value :=
  if !is_merge input then input
  else
    let todos := (todosOf (some input)).foldl apply_patch (todosOf current)
    match input with
    | .Object members => .Object (insertLast "todos" (.Array todos) (insertLast "merge" (.Bool false) members))
    | input => input

inductive Write where
  | Todos (input : Value)
  | Plan (input : Value)
deriving DecidableEq

abbrev Calls : Type := List (String × String × Value)
def heard (calls : Calls) (message : CanonicalMessage) : Calls :=
  match message.content with
  | .Assistant _ _ _ _ tool_calls => tool_calls.foldl (fun calls call => insertLast call.call_id (call.name,call.arguments) calls) calls
  | _ => calls
def written (calls : Calls) (message : CanonicalMessage) : Option Write :=
  match message.content with
  | .ToolResult result =>
    if result.is_error then none
    else (lookup calls result.call_id).bind fun call =>
      if normalized call.1 ∈ ["todowrite","updatetodos"] then some (.Todos call.2)
      else if normalized call.1 ∈ ["createplan","updateplan","writeplan"] then some (.Plan call.2)
      else none
  | _ => none
def DerivedState.write (state : DerivedState) : Write → DerivedState
  | .Todos input => { state with todos := some (apply_todo_write state.todos input) }
  | .Plan input => { state with plan := some input }

def fold_derived_state_from (messages : List CanonicalMessage) (state : DerivedState) : DerivedState :=
  (messages.foldl (fun (folding : Calls × DerivedState) message =>
    (heard folding.1 message,((written folding.1 message).map folding.2.write).getD folding.2)) (([] : Calls),state)).2
def fold_derived_state (messages : List CanonicalMessage) : DerivedState := fold_derived_state_from messages ⟨none,none⟩

/-- `pb::TodoItem` as it stands in its blob. -/
structure TodoItem where
  id : String
  content : String
  status : Int
  created_at : Int
  updated_at : Int
  dependencies : List String
deriving DecidableEq
/-- Of `pb::ConversationStateStructure`. -/
structure Base where
  todos : List TodoItem
  plan : Option String
deriving DecidableEq

def STATUSES : List (String × Int) := [("in_progress",2),("completed",3),("cancelled",4),("pending",1)]

def base_todo (todo : TodoItem) : Except Error Value :=
  match STATUSES.find? (·.2 = todo.status) with
  | none => .error (.Protocol s!"unknown Cursor Todo status: {todo.status}")
  | some status => .ok (.Object [("id",.String todo.id),("content",.String todo.content),("status",.String status.1),
      ("dependencies",.Array (todo.dependencies.map .String))])
def base_todo_state (todos : List TodoItem) : Except Error Value := do
  let todos ← todos.mapM base_todo
  return .Object [("merge",.Bool false),("todos",.Array todos)]

def dependenciesOf (todo : Value) : List String := (((Json.get todo "dependencies").bind Json.as_array).getD []).filterMap Json.as_str
def todo_item (todo : Value) : Except Error TodoItem :=
  match (Json.get todo "status").bind Json.as_str with
  | none => .error (.Protocol "TodoWrite item is missing status")
  | some status =>
    match lookup STATUSES status with
    | none => .error (.Protocol s!"unknown TodoWrite status: {status}")
    | some status =>
      match idOf todo with
      | none => .error (.Protocol "TodoWrite item is missing id")
      | some id =>
        match (Json.get todo "content").bind Json.as_str with
        | none => .error (.Protocol "TodoWrite item is missing content")
        | some content =>
          .ok {id := id, content := content, status := status, created_at := 0, updated_at := 0, dependencies := dependenciesOf todo}
def plan_text (value : Value) : Except Error String :=
  match (((Json.get value "plan").bind Json.as_str).or (Json.as_str value)).or ((Json.get value "overview").bind Json.as_str) with
  | none => .error (.Protocol "plan state has no textual plan")
  | some text => .ok text

/-- The todos are folded over those of the base where some message writes any. -/
def derived_state (base : Base) (messages : List CanonicalMessage) : Except Error DerivedState :=
  let changes := fold_derived_state messages
  if changes.todos.isSome && !base.todos.isEmpty then
    (base_todo_state base.todos).map fun todos => fold_derived_state_from messages ⟨some todos,none⟩
  else .ok changes
def todo_ids (base : Base) (state : DerivedState) : Except Error (List TodoItem) :=
  match state.todos with
  | none => .ok base.todos
  | some value =>
    match (Json.get value "todos").bind Json.as_array with
    | none => .error (.Protocol "TodoWrite state is missing todos[]")
    | some todos => todos.mapM todo_item
def plan_id (state : DerivedState) : Except Error (Option String) :=
  match state.plan with
  | none => .ok none
  | some value => (plan_text value).map some
/-- `build_derived_state`, and what `build_state` keeps of it as the next base. -/
def build_derived_state (base : Base) (messages : List CanonicalMessage) : Except Error Base := do
  let state ← derived_state base messages
  let todos ← todo_ids base state
  let plan ← plan_id state
  return {todos := todos, plan := plan}

/-! ## What the messages write -/

def writesFrom (calls : Calls) : List CanonicalMessage → List Write
  | [] => []
  | message :: rest => (written calls message).toList ++ writesFrom (heard calls message) rest
def writesOf (messages : List CanonicalMessage) : List Write := writesFrom [] messages

theorem writesFrom_append (messages later : List CanonicalMessage) : ∀ calls,
    writesFrom calls (messages ++ later) = writesFrom calls messages ++ writesFrom (messages.foldl heard calls) later := by
  induction messages with
  | nil => exact fun _ => rfl
  | cons message rest ih =>
    intro calls
    rw [List.cons_append,writesFrom,ih,writesFrom,List.append_assoc]
    rfl
theorem fold_writes (messages : List CanonicalMessage) (state : DerivedState) :
    fold_derived_state_from messages state = (writesOf messages).foldl DerivedState.write state := by
  have run : ∀ (messages : List CanonicalMessage) (calls : Calls) (state : DerivedState),
      (messages.foldl (fun (folding : Calls × DerivedState) message =>
        (heard folding.1 message,((written folding.1 message).map folding.2.write).getD folding.2)) (calls,state)).2 =
      (writesFrom calls messages).foldl DerivedState.write state := by
    intro messages
    induction messages with
    | nil => exact fun _ _ => rfl
    | cons message rest ih =>
      intro calls state
      rw [List.foldl_cons,ih,writesFrom,List.foldl_append]
      cases written calls message <;> rfl
  exact run messages [] state

def todoInput : Write → Option Value
  | .Todos input => some input
  | .Plan _ => none
def planInput : Write → Option Value
  | .Todos _ => none
  | .Plan input => some input
/-- The inputs of the successful todo calls and those of the successful plan calls. -/
def todoInputs (messages : List CanonicalMessage) : List Value := (writesOf messages).filterMap todoInput
def planInputs (messages : List CanonicalMessage) : List Value := (writesOf messages).filterMap planInput

theorem todoInputs_append (messages later : List CanonicalMessage) :
    ∃ more, todoInputs (messages ++ later) = todoInputs messages ++ more :=
  ⟨_,by rw [todoInputs,writesOf,writesFrom_append,List.filterMap_append]; rfl⟩

def applyAll (inputs : List Value) (current : Option Value) : Option Value :=
  inputs.foldl (fun current input => some (apply_todo_write current input)) current
theorem write_todos (writes : List Write) : ∀ state : DerivedState,
    (writes.foldl DerivedState.write state).todos = applyAll (writes.filterMap todoInput) state.todos := by
  induction writes with
  | nil => exact fun _ => rfl
  | cons write rest ih =>
    intro state
    rw [List.foldl_cons,ih]
    cases write <;> rfl
theorem write_plan (writes : List Write) : ∀ state : DerivedState,
    (writes.foldl DerivedState.write state).plan = (writes.filterMap planInput).getLast?.or state.plan := by
  induction writes with
  | nil => exact fun _ => rfl
  | cons write rest ih =>
    intro state
    rw [List.foldl_cons,ih]
    cases write with
    | Todos input => rfl
    | Plan input =>
      have first : (Write.Plan input :: rest).filterMap planInput = input :: rest.filterMap planInput := rfl
      rw [first,List.getLast?_cons]
      cases (rest.filterMap planInput).getLast? <;> rfl
theorem fold_todos (messages : List CanonicalMessage) (state : DerivedState) :
    (fold_derived_state_from messages state).todos = applyAll (todoInputs messages) state.todos := by
  rw [fold_writes,write_todos,todoInputs]
theorem fold_plan (messages : List CanonicalMessage) (state : DerivedState) :
    (fold_derived_state_from messages state).plan = (planInputs messages).getLast?.or state.plan := by
  rw [fold_writes,write_plan,planInputs]
theorem applyAll_some {inputs : List Value} (writes : inputs ≠ []) (start : Option Value) :
    ∃ value, applyAll inputs start = some value := by
  have run : ∀ (rest : List Value) (value : Value), ∃ last, applyAll rest (some value) = some last := by
    intro rest
    induction rest with
    | nil => exact fun value => ⟨value,rfl⟩
    | cons next rest ih => exact fun _ => ih _
  cases inputs with
  | nil => exact absurd rfl writes
  | cons input rest => exact run rest _

/-! ## What is seen of a todo -/

@[ext] structure View where
  id : Option String
  content : Option String
  status : Option String
  dependencies : List String
def view (todo : Value) : View :=
  ⟨idOf todo,(Json.get todo "content").bind Json.as_str,(Json.get todo "status").bind Json.as_str,dependenciesOf todo⟩

def View.overlaid (todo : View) (patch : Value) : View where
  id := idOf patch
  content := ((Json.get patch "content").map Json.as_str).getD todo.content
  status := ((Json.get patch "status").map Json.as_str).getD todo.status
  dependencies := ((Json.get patch "dependencies").map fun value =>
    ((Json.as_array value).getD []).filterMap Json.as_str).getD todo.dependencies
def applyView : List View → Value → List View
  | [], patch => [view patch]
  | todo :: rest, patch => if idOf patch ≠ none ∧ todo.id = idOf patch then todo.overlaid patch :: rest else todo :: applyView rest patch

theorem get_extend (todo patch : List (String × Value)) (name : String) :
    Json.get (extend (.Object todo) (.Object patch)) name = (Json.get (.Object patch) name).or (Json.get (.Object todo) name) := by
  have fresh : ∀ patch : List (String × Value), name ∉ todo.map (·.1) →
      Json.get (.Object (patch.filter fun member => member.1 ∉ todo.map (·.1))) name = Json.get (.Object patch) name := by
    intro patch absent
    induction patch with
    | nil => rfl
    | cons member rest ih =>
      rw [List.filter_cons,Json.get_cons]
      by_cases same : member.1 = name
      · subst same
        rw [if_pos (decide_eq_true absent),Json.get_cons,if_pos rfl,if_pos rfl]
      · rw [if_neg same]
        split_ifs with kept
        · rw [Json.get_cons,if_neg same,ih]
        · exact ih
  have run : ∀ members : List (String × Value), (∀ member ∈ members, member ∈ todo) →
      Json.get (.Object (members.map (fun member => (member.1,(Json.get (.Object patch) member.1).getD member.2)) ++
        patch.filter fun member => member.1 ∉ todo.map (·.1))) name =
      if name ∈ members.map (·.1) then (Json.get (.Object patch) name).or (Json.get (.Object members) name)
      else Json.get (.Object (patch.filter fun member => member.1 ∉ todo.map (·.1))) name := by
    intro members sub
    induction members with
    | nil => rfl
    | cons member rest ih =>
      rw [List.map_cons,List.cons_append,Json.get_cons,Json.get_cons,ih fun other isIn => sub other (List.mem_cons_of_mem _ isIn)]
      by_cases same : member.1 = name
      · subst same
        rw [if_pos rfl,if_pos (by simp),if_pos rfl]
        cases Json.get (.Object patch) member.1 <;> rfl
      · simp only [same,Ne.symm same,if_false,List.map_cons,List.mem_cons,false_or]
  rw [extend,run todo fun _ isIn => isIn]
  split_ifs with present
  · rfl
  · have absent : Json.get (.Object todo) name = none := by
      rw [Json.get]
      exact Keyed.lookup_none.mpr present
    rw [fresh patch present,absent,Option.or_none]

theorem isObject {todo : Value} (identified : idOf todo ≠ none) : ∃ members, todo = .Object members := by
  cases todo with
  | Object members => exact ⟨members,rfl⟩
  | _ => exact absurd rfl identified

variable {patch : Value}

theorem view_extend {todo : Value} (identified : idOf patch ≠ none) (same : idOf todo = idOf patch) :
    view (extend todo patch) = (view todo).overlaid patch := by
  obtain ⟨members,rfl⟩ := isObject (same ▸ identified)
  obtain ⟨changes,rfl⟩ := isObject identified
  have isId : idOf (extend (.Object members) (.Object changes)) = idOf (.Object changes) := by
    rw [idOf,get_extend]
    cases isGet : Json.get (.Object changes) "id" with
    | some value => rw [Option.some_or,idOf,isGet]
    | none =>
      rw [idOf,isGet] at identified
      exact absurd rfl identified
  refine View.ext isId ?_ ?_ ?_
  · simp only [view,View.overlaid,get_extend]
    cases Json.get (.Object changes) "content" <;> rfl
  · simp only [view,View.overlaid,get_extend]
    cases Json.get (.Object changes) "status" <;> rfl
  · simp only [view,View.overlaid,dependenciesOf,get_extend]
    cases Json.get (.Object changes) "dependencies" <;> rfl
theorem view_patched (patch : Value) (todos : List Value) : (apply_patch todos patch).map view = applyView (todos.map view) patch := by
  induction todos with
  | nil => rfl
  | cons todo rest ih =>
    rw [apply_patch,List.map_cons,applyView]
    by_cases found : idOf patch ≠ none ∧ idOf todo = idOf patch
    · rw [if_pos found,if_pos (show _ ∧ (view todo).id = _ from found),List.map_cons,view_extend found.1 found.2]
    · rw [if_neg found,if_neg (show ¬ (_ ∧ (view todo).id = _) from found),List.map_cons,ih]
theorem view_all (patches todos : List Value) : (patches.foldl apply_patch todos).map view = patches.foldl applyView (todos.map view) := by
  induction patches generalizing todos with
  | nil => rfl
  | cons patch rest ih => rw [List.foldl_cons,ih,view_patched,List.foldl_cons]

theorem overwrite_twice {α β : Type} (change : α → Option β) (patches : List α) (value : β) :
    patches.foldl (fun value patch => (change patch).getD value) (patches.foldl (fun value patch => (change patch).getD value) value) =
      patches.foldl (fun value patch => (change patch).getD value) value := by
  have run : (∀ value, patches.foldl (fun value patch => (change patch).getD value) value = value) ∨
      ∃ last, ∀ value, patches.foldl (fun value patch => (change patch).getD value) value = last := by
    induction patches with
    | nil => exact .inl fun _ => rfl
    | cons patch rest ih =>
      rcases ih with same | ⟨last,isLast⟩
      · cases isChange : change patch with
        | none => exact .inl fun value => by rw [List.foldl_cons,isChange,Option.getD_none,same]
        | some next => exact .inr ⟨next,fun value => by rw [List.foldl_cons,isChange,Option.getD_some,same]⟩
      · exact .inr ⟨last,fun value => by rw [List.foldl_cons,isLast]⟩
  rcases run with same | ⟨last,isLast⟩
  · rw [same]
  · rw [isLast,isLast]
theorem over_field {β : Type} {field : View → β} {change : Value → Option β}
    (isOver : ∀ todo patch, field (View.overlaid todo patch) = (change patch).getD (field todo)) (patches : List Value) : ∀ todo : View,
    field (patches.foldl View.overlaid todo) = patches.foldl (fun value patch => (change patch).getD value) (field todo) := by
  induction patches with
  | nil => exact fun _ => rfl
  | cons patch rest ih =>
    intro todo
    rw [List.foldl_cons,ih,isOver,List.foldl_cons]
theorem over_twice (patches : List Value) (todo : View) :
    patches.foldl View.overlaid (patches.foldl View.overlaid todo) = patches.foldl View.overlaid todo := by
  have twice {β : Type} (field : View → β) (change : Value → Option β)
      (isOver : ∀ todo patch, field (View.overlaid todo patch) = (change patch).getD (field todo)) :
      field (patches.foldl View.overlaid (patches.foldl View.overlaid todo)) = field (patches.foldl View.overlaid todo) := by
    rw [over_field isOver,over_field isOver,overwrite_twice]
  exact View.ext (twice View.id (fun patch => some (idOf patch)) fun _ _ => rfl) (twice View.content _ fun _ _ => rfl)
    (twice View.status _ fun _ _ => rfl) (twice View.dependencies _ fun _ _ => rfl)
theorem view_blank (patch : Value) : view patch = View.overlaid ⟨none,none,none,[]⟩ patch := by
  refine View.ext rfl ?_ ?_ ?_
  · simp only [view,View.overlaid]
    cases Json.get patch "content" <;> rfl
  · simp only [view,View.overlaid]
    cases Json.get patch "status" <;> rfl
  · simp only [view,View.overlaid,dependenciesOf]
    cases Json.get patch "dependencies" <;> rfl

/-- The patches of the todo that stands first and those of the others. -/
def mine (id : Option String) (patches : List Value) : List Value := patches.filter fun patch => idOf patch ≠ none ∧ id = idOf patch
def others (id : Option String) (patches : List Value) : List Value := patches.filter fun patch => ¬ (idOf patch ≠ none ∧ id = idOf patch)

theorem apply_split (patches : List Value) : ∀ (todo : View) (rest : List View), patches.foldl applyView (todo :: rest) =
    (mine todo.id patches).foldl View.overlaid todo :: (others todo.id patches).foldl applyView rest := by
  induction patches with
  | nil => exact fun _ _ => rfl
  | cons patch later ih =>
    intro todo rest
    rw [List.foldl_cons,applyView,mine,others,List.filter_cons,List.filter_cons]
    by_cases found : idOf patch ≠ none ∧ todo.id = idOf patch
    · rw [if_pos found,ih,if_pos (decide_eq_true found),if_neg (by simpa using found),List.foldl_cons]
      have same : (todo.overlaid patch).id = todo.id := found.2.symm
      rw [same,mine,others]
    · rw [if_neg found,ih,if_neg (by simpa using found),if_pos (decide_eq_true found),List.foldl_cons]
      rfl
theorem mine_id (patches : List Value) : ∀ todo : View, ((mine todo.id patches).foldl View.overlaid todo).id = todo.id := by
  have run : ∀ (changes : List Value) (todo : View), (∀ patch ∈ changes, todo.id = idOf patch) →
    (changes.foldl View.overlaid todo).id = todo.id := by
    intro changes
    induction changes with
    | nil => exact fun _ _ => rfl
    | cons patch rest ih =>
      intro todo same
      obtain ⟨first,later⟩ := List.forall_mem_cons.mp same
      rw [List.foldl_cons,ih _ fun other isIn => first.symm.trans (later other isIn)]
      exact first.symm
  exact fun todo => run _ todo fun patch isIn => (of_decide_eq_true (List.mem_filter.mp isIn).2).2

theorem absorbed_empty (patches : List Value) (identified : ∀ patch ∈ patches, idOf patch ≠ none) :
    patches.foldl applyView (patches.foldl applyView []) = patches.foldl applyView [] := by
  -- By the number of patches: the first one makes a todo, and the patches of that are none of the others'.
  induction size : patches.length using Nat.strong_induction_on generalizing patches with
  | _ n ih =>
    cases patches with
    | nil => rfl
    | cons patch later =>
      have isMine : idOf patch ≠ none ∧ (view patch).id = idOf patch := ⟨identified patch List.mem_cons_self,rfl⟩
      have mineCons : mine (view patch).id (patch :: later) = patch :: mine (view patch).id later := by
        rw [mine,List.filter_cons,if_pos (decide_eq_true isMine),mine]
      have othersCons : others (view patch).id (patch :: later) = others (view patch).id later := by
        rw [others,List.filter_cons,if_neg (by simpa using isMine),others]
      have fewer : (others (view patch).id later).length < n := by
        rw [← size,List.length_cons]
        exact Nat.lt_succ_of_le (List.length_filter_le _ _)
      have rest := ih _ fewer (others (view patch).id later)
        (fun other isIn => identified other (List.mem_cons_of_mem _ (List.mem_filter.mp isIn).1)) rfl
      have start : (patch :: later).foldl applyView [] = later.foldl applyView [view patch] := rfl
      have once : (mine (view patch).id later).foldl View.overlaid (view patch) =
          (patch :: mine (view patch).id later).foldl View.overlaid ⟨none,none,none,[]⟩ := by
        rw [List.foldl_cons,← view_blank]
      rw [start,apply_split,apply_split,mine_id,mineCons,othersCons,rest,once,over_twice]
theorem absorbed (todos : List View) : ∀ patches : List Value, (∀ patch ∈ patches, idOf patch ≠ none) →
    patches.foldl applyView (patches.foldl applyView todos) = patches.foldl applyView todos := by
  induction todos with
  | nil => exact absorbed_empty
  | cons todo rest ih =>
    intro patches identified
    have others_ := ih (others todo.id patches) fun other isIn => identified other (List.mem_filter.mp isIn).1
    rw [apply_split,apply_split,mine_id,over_twice,others_]

variable {todos : List View}

theorem nameless_stays (nameless : ∃ todo ∈ todos, todo.id = none) : ∃ todo ∈ applyView todos patch, todo.id = none := by
  induction todos with
  | nil =>
    obtain ⟨_,isIn,_⟩ := nameless
    cases isIn
  | cons first rest ih =>
    rw [applyView]
    obtain ⟨todo,isIn,isNone⟩ := nameless
    split_ifs with found
    · rcases List.mem_cons.mp isIn with rfl | later
      · exact absurd (found.2.symm.trans isNone) found.1
      · exact ⟨todo,List.mem_cons_of_mem _ later,isNone⟩
    · rcases List.mem_cons.mp isIn with rfl | later
      · exact ⟨todo,List.mem_cons_self,isNone⟩
      · obtain ⟨other,isOther,isNone'⟩ := ih ⟨todo,later,isNone⟩
        exact ⟨other,List.mem_cons_of_mem _ isOther,isNone'⟩
theorem nameless_added (nameless : idOf patch = none) (todos : List View) : ∃ todo ∈ applyView todos patch, todo.id = none := by
  induction todos with
  | nil => exact ⟨view patch,List.mem_singleton_self _,nameless⟩
  | cons first rest ih =>
    rw [applyView,if_neg fun found => found.1 nameless]
    obtain ⟨todo,isIn,isNone⟩ := ih
    exact ⟨todo,List.mem_cons_of_mem _ isIn,isNone⟩
theorem patches_identified (patches : List Value) : ∀ {todos : List View}, (∀ todo ∈ patches.foldl applyView todos, todo.id ≠ none) →
    ∀ patch ∈ patches, idOf patch ≠ none := by
  have stays : ∀ (patches : List Value) {todos : List View}, (∃ todo ∈ todos, todo.id = none) →
      ∃ todo ∈ patches.foldl applyView todos, todo.id = none := by
    intro patches
    induction patches with
    | nil => exact id
    | cons patch rest ih => exact fun nameless => ih (nameless_stays nameless)
  induction patches with
  | nil => exact fun _ => nofun
  | cons patch rest ih =>
    intro todos named
    refine List.forall_mem_cons.mpr ⟨fun nameless => ?_,ih named⟩
    obtain ⟨todo,isIn,isNone⟩ := stays rest (nameless_added nameless todos)
    exact named todo isIn isNone

/-! ## The state of the todos -/

/-- What is seen of the todos of a state, if it has a list of them. -/
def shape (state : Option Value) : Option (List View) := ((state.bind (Json.get · "todos")).bind Json.as_array).map (·.map view)
def shapeNext (current : Option (List View)) (input : Value) : Option (List View) :=
  if is_merge input then some ((todosOf (some input)).foldl applyView (current.getD [])) else shape (some input)

theorem shape_apply (current : Option Value) (input : Value) :
    shape (some (apply_todo_write current input)) = shapeNext (shape current) input := by
  rw [apply_todo_write,shapeNext]
  by_cases merges : is_merge input
  · have isTodos : (todosOf current).map view = (shape current).getD [] := by
      rw [todosOf,shape]
      cases (current.bind (Json.get · "todos")).bind Json.as_array <;> rfl
    cases input with
    | Object members =>
      have found : Json.get (.Object (insertLast "todos" (.Array ((todosOf (some (.Object members))).foldl apply_patch (todosOf current)))
          (insertLast "merge" (.Bool false) members))) "todos" =
          some (.Array ((todosOf (some (.Object members))).foldl apply_patch (todosOf current))) := by
        have law := Keyed.lookup_insertLast (insertLast "merge" (.Bool false) members) "todos"
          (Value.Array ((todosOf (some (.Object members))).foldl apply_patch (todosOf current))) "todos"
        rwa [if_pos rfl] at law
      rw [merges,if_neg (by decide),if_pos rfl,← isTodos,← view_all,shape,Option.bind_some,found]
      rfl
    | _ => cases merges
  · rw [Bool.not_eq_true] at merges
    rw [merges]
    rfl
theorem shape_all (inputs : List Value) :
    ∀ current : Option Value, shape (applyAll inputs current) = inputs.foldl shapeNext (shape current) := by
  induction inputs with
  | nil => exact fun _ => rfl
  | cons input rest ih =>
    intro current
    have first := ih (some (apply_todo_write current input))
    rw [shape_apply] at first
    exact first

/-- Writes that merge are one list of patches; after another write it does not matter what was before. -/
theorem writes_cases (inputs : List Value) : (∃ last, ∀ current, inputs.foldl shapeNext current = last) ∨
    ∃ patches : List Value, ∀ todos, inputs.foldl shapeNext (some todos) = some (patches.foldl applyView todos) := by
  induction inputs with
  | nil => exact .inr ⟨[],fun _ => rfl⟩
  | cons input rest ih =>
    rcases ih with ⟨last,isLast⟩ | ⟨patches,isPatches⟩
    · exact .inl ⟨last,fun current => isLast _⟩
    · by_cases merges : is_merge input
      · refine .inr ⟨todosOf (some input) ++ patches,fun todos => ?_⟩
        have step : shapeNext (some todos) input = some ((todosOf (some input)).foldl applyView todos) := if_pos merges
        rw [List.foldl_cons,step,isPatches,List.foldl_append]
      · refine .inl ⟨rest.foldl shapeNext (shape (some input)),fun current => ?_⟩
        rw [List.foldl_cons,shapeNext,if_neg merges]
theorem shape_none (inputs : List Value) (writes : inputs ≠ []) : inputs.foldl shapeNext none = inputs.foldl shapeNext (some []) := by
  cases inputs with
  | nil => exact absurd rfl writes
  | cons input rest => rfl

/-- Writes over the state that they left leave it as it is, where its todos have ids. -/
theorem writes_twice {inputs : List Value} {start : Option (List View)} (writes : inputs ≠ [])
    (after : inputs.foldl shapeNext start = some todos) (named : ∀ todo ∈ todos, todo.id ≠ none) :
    inputs.foldl shapeNext (some todos) = some todos := by
  rcases writes_cases inputs with ⟨last,isLast⟩ | ⟨patches,isPatches⟩
  · rw [isLast,← isLast start,after]
  · obtain ⟨before,isBefore⟩ : ∃ before, todos = patches.foldl applyView before := by
      cases start with
      | none =>
        rw [shape_none inputs writes,isPatches] at after
        exact ⟨_,(Option.some.inj after).symm⟩
      | some before =>
        rw [isPatches] at after
        exact ⟨_,(Option.some.inj after).symm⟩
    subst isBefore
    rw [isPatches,absorbed before patches (patches_identified patches named)]

def item_of (todo : View) : Except Error TodoItem :=
  match todo.status with
  | none => .error (.Protocol "TodoWrite item is missing status")
  | some status =>
    match lookup STATUSES status with
    | none => .error (.Protocol s!"unknown TodoWrite status: {status}")
    | some status =>
      match todo.id with
      | none => .error (.Protocol "TodoWrite item is missing id")
      | some id =>
        match todo.content with
        | none => .error (.Protocol "TodoWrite item is missing content")
        | some content =>
          .ok {id := id, content := content, status := status, created_at := 0, updated_at := 0, dependencies := todo.dependencies}

theorem status_stored {status : String} {code : Int} (found : lookup STATUSES status = some code) :
    STATUSES.find? (·.2 = code) = some (status,code) := by
  have isIn := Keyed.lookup_mem found
  simp only [STATUSES,List.mem_cons,List.not_mem_nil,or_false,Prod.mk.injEq] at isIn
  rcases isIn with ⟨rfl,rfl⟩ | ⟨rfl,rfl⟩ | ⟨rfl,rfl⟩ | ⟨rfl,rfl⟩ <;> rfl
theorem stored_view {todo : View} {item : TodoItem} (stored : item_of todo = .ok item) :
    todo.id ≠ none ∧ ∃ value, base_todo item = .ok value ∧ view value = todo := by
  obtain ⟨id,content,status,dependencies⟩ := todo
  cases status with
  | none => cases stored
  | some status =>
    simp only [item_of] at stored
    cases found : lookup STATUSES status with
    | none =>
      rw [found] at stored
      cases stored
    | some code =>
      rw [found] at stored
      cases id with
      | none => cases stored
      | some id =>
        cases content with
        | none => cases stored
        | some content =>
          cases stored
          refine ⟨Option.some_ne_none id,_,by rw [base_todo,status_stored found],View.ext rfl rfl rfl ?_⟩
          simp [view,dependenciesOf,Json.get,Json.as_array,List.filterMap_map,Function.comp_def,Json.as_str]
theorem stored_all : ∀ {items : List TodoItem}, todos.mapM item_of = .ok items →
    (∀ todo ∈ todos, todo.id ≠ none) ∧ ∃ values, items.mapM base_todo = .ok values ∧ values.map view = todos := by
  induction todos with
  | nil =>
    intro items stored
    cases stored
    exact ⟨nofun,[],rfl,rfl⟩
  | cons todo rest ih =>
    intro items stored
    rw [List.mapM_cons] at stored
    obtain ⟨item,isItem,stored⟩ := Fallible.bind_ok.mp stored
    obtain ⟨later,isLater,isItems⟩ := Fallible.bind_ok.mp stored
    cases isItems
    obtain ⟨named,value,isValue,isView⟩ := stored_view isItem
    obtain ⟨namedLater,values,areValues,areViews⟩ := ih isLater
    refine ⟨List.forall_mem_cons.mpr ⟨named,namedLater⟩,value :: values,?_,by rw [List.map_cons,isView,areViews]⟩
    rw [List.mapM_cons,isValue,areValues]
    rfl

def publish (state : Option (List View)) : Except Error (List TodoItem) :=
  match state with
  | none => .error (.Protocol "TodoWrite state is missing todos[]")
  | some todos => todos.mapM item_of
def planOf (messages : List CanonicalMessage) : Except Error (Option String) := plan_id ⟨none,(planInputs messages).getLast?⟩
def startOf (todos : List TodoItem) : Except Error (Option Value) :=
  if todos.isEmpty then .ok none else (base_todo_state todos).map some

theorem plan_folded (messages : List CanonicalMessage) (todos : Option Value) :
    plan_id (fold_derived_state_from messages ⟨todos,none⟩) = planOf messages := by rw [plan_id,fold_plan,Option.or_none,planOf,plan_id]

variable {messages : List CanonicalMessage}

theorem build_without (none_ : todoInputs messages = []) (base : Base) :
    build_derived_state base messages = (planOf messages).map fun plan => ⟨base.todos,plan⟩ := by
  have isNone : (fold_derived_state messages).todos = none := by
    rw [fold_derived_state,fold_todos,none_]
    rfl
  have isState : derived_state base messages = .ok (fold_derived_state messages) := by
    rw [derived_state,isNone]
    rfl
  have same : todo_ids base (fold_derived_state messages) = .ok base.todos := by rw [todo_ids,isNone]
  have plan : plan_id (fold_derived_state messages) = planOf messages := plan_folded messages none
  rw [build_derived_state,isState,← plan]
  show (todo_ids base (fold_derived_state messages) >>= _) = _
  rw [same]
  cases plan_id (fold_derived_state messages) <;> rfl
theorem publish_folded (some_ : todoInputs messages ≠ []) (base : Base) (start : Option Value) :
    todo_ids base (fold_derived_state_from messages ⟨start,none⟩) = publish ((todoInputs messages).foldl shapeNext (shape start)) := by
  obtain ⟨value,isValue⟩ := applyAll_some some_ start
  have isTodos : (fold_derived_state_from messages ⟨start,none⟩).todos = some value := (fold_todos messages ⟨start,none⟩).trans isValue
  rw [todo_ids,isTodos,← shape_all,isValue,shape,Option.bind_some]
  simp only
  cases (Json.get value "todos").bind Json.as_array with
  | none => rfl
  | some todos =>
    rw [Option.map_some,publish,List.mapM_map]
    rfl
theorem build_with (some_ : todoInputs messages ≠ []) (base : Base) :
    build_derived_state base messages = startOf base.todos >>= fun start =>
      publish ((todoInputs messages).foldl shapeNext (shape start)) >>= fun todos => (planOf messages).map fun plan => ⟨todos,plan⟩ := by
  have changed : (fold_derived_state messages).todos.isSome = true := by
    obtain ⟨value,isValue⟩ := applyAll_some some_ none
    rw [fold_derived_state,fold_todos,isValue]
    rfl
  have isState : derived_state base messages = (startOf base.todos).map fun start => fold_derived_state_from messages ⟨start,none⟩ := by
    rw [derived_state,changed,Bool.true_and,startOf]
    cases isEmpty : base.todos.isEmpty with
    | true => rfl
    | false => cases isBase : base_todo_state base.todos <;> rfl
  rw [build_derived_state,isState]
  cases startOf base.todos with
  | error error => rfl
  | ok start =>
    show (todo_ids base (fold_derived_state_from messages ⟨start,
      none⟩) >>= _) = publish ((todoInputs messages).foldl shapeNext (shape start)) >>= _
    rw [publish_folded some_,plan_folded]
    cases publish ((todoInputs messages).foldl shapeNext (shape start)) with
    | error error => rfl
    | ok todos => cases isPlan : planOf messages <;> rfl

/-- A build over what an earlier build of the same messages stored is as the build at once. -/
theorem build_again {base stored : Base} {messages : List CanonicalMessage} (built : build_derived_state base messages = .ok stored)
    (later : List CanonicalMessage) :
    build_derived_state stored (messages ++ later) = build_derived_state base (messages ++ later) := by
  obtain ⟨more,isMore⟩ := todoInputs_append messages later
  by_cases none_ : todoInputs messages = []
  · rw [build_without none_] at built
    obtain ⟨plan,-,rfl⟩ := Fallible.map_ok.mp built
    by_cases noneLater : todoInputs (messages ++ later) = []
    · rw [build_without noneLater,build_without noneLater]
    · rw [build_with noneLater,build_with noneLater]
  · have some_ : todoInputs (messages ++ later) ≠ [] := by
      rw [isMore]
      exact List.append_ne_nil_of_left_ne_nil none_ more
    rw [build_with none_] at built
    obtain ⟨start,isStart,built⟩ := Fallible.bind_ok.mp built
    obtain ⟨todos,published,built⟩ := Fallible.bind_ok.mp built
    obtain ⟨plan,-,rfl⟩ := Fallible.map_ok.mp built
    cases after : (todoInputs messages).foldl shapeNext (shape start) with
    | none =>
      rw [after] at published
      cases published
    | some views =>
      rw [after] at published
      obtain ⟨named,values,areValues,areViews⟩ := stored_all published
      -- The stored todos are seen as those that the first build left.
      have twice : ∃ again, startOf todos = .ok again ∧ (todoInputs messages).foldl shapeNext (shape again) = some views := by
        cases isEmpty : todos.isEmpty with
        | true =>
          refine ⟨none,if_pos isEmpty,?_⟩
          rw [List.isEmpty_iff] at isEmpty
          subst isEmpty
          cases areValues
          subst areViews
          have isNone : shape none = none := rfl
          rw [isNone,shape_none _ none_]
          exact writes_twice none_ after named
        | false =>
          refine ⟨some (.Object [("merge",.Bool false),("todos",.Array values)]),?_,?_⟩
          · rw [startOf,isEmpty,base_todo_state,areValues]
            rfl
          · have isShape : shape (some (.Object [("merge",.Bool false),("todos",.Array values)])) = some views := by
              rw [← areViews]
              rfl
            rw [isShape]
            exact writes_twice none_ after named
      obtain ⟨again,isAgain,isSame⟩ := twice
      rw [build_with some_,build_with some_,isStart,isAgain,isMore]
      show (publish ((todoInputs messages ++ more).foldl shapeNext (shape again)) >>= _) =
        publish ((todoInputs messages ++ more).foldl shapeNext (shape start)) >>= _
      rw [List.foldl_append,List.foldl_append,isSame,after]

def answered (name : String) (arguments : Value) : List CanonicalMessage :=
  [{message_id := "assistant", role := .Assistant, origin := .Assistant, runtime_event_id := none,
    content := .Assistant "" "" none none [{index := 0, call_id := "call", name := name, arguments := arguments}]},
   {message_id := "result", role := .Tool, origin := .Tool, runtime_event_id := none,
    content := .ToolResult {call_id := "call", name := name, content := "{}", is_error := false, image := none}}]
def mergeOf (todo : List (String × Value)) : Value := .Object [("merge",.Bool true),("todos",.Array [.Object todo])]
def testsDone : List CanonicalMessage := answered "TodoWrite" (mergeOf [("id",.String "tests"),("status",.String "completed")])
def testsOpen : Base := ⟨[⟨"tests","Run focused tests",2,5,7,[]⟩],some "Test first"⟩

theorem build_again_tests : build_derived_state ⟨[⟨"tests","Run focused tests",3,0,0,[]⟩],none⟩ (testsDone ++ testsDone) =
    build_derived_state testsOpen (testsDone ++ testsDone) :=
  build_again (show build_derived_state testsOpen testsDone = .ok _ from by decide +kernel) testsDone
/-- A todo without an id is added by every fold; the build refuses it. -/
theorem nameless_doubled : ¬ ∀ (messages later : List CanonicalMessage) (state : DerivedState),
    fold_derived_state_from (messages ++ later) (fold_derived_state_from messages state) = fold_derived_state_from
      (messages ++ later) state := by
  intro same
  have here := same (answered "TodoWrite" (mergeOf [("content",.String "Test"),("status",.String "pending")])) [] ⟨none,none⟩
  revert here
  decide +kernel

/-- Todos and plan stay without calls, and the last plan call replaces the plan. -/
structure Survives (base : Base) (messages : List CanonicalMessage) (next : Base) : Prop where
  todos : todoInputs messages = [] → next.todos = base.todos
  plan : planInputs messages = [] → next.plan = base.plan
  replaced : ∀ input, (planInputs messages).getLast? = some input → ∃ text, plan_text input = .ok text ∧ next.plan = some text

theorem built_todos {base next : Base} (built : build_derived_state base messages = .ok next)
    (none_ : todoInputs messages = []) : next.todos = base.todos := by
  rw [build_without none_] at built
  obtain ⟨plan,-,rfl⟩ := Fallible.map_ok.mp built
  rfl
theorem built_plan {base next : Base} (built : build_derived_state base messages = .ok next) : planOf messages = .ok next.plan := by
  by_cases none_ : todoInputs messages = []
  · rw [build_without none_] at built
    obtain ⟨plan,isPlan,rfl⟩ := Fallible.map_ok.mp built
    exact isPlan
  · rw [build_with none_] at built
    obtain ⟨start,-,built⟩ := Fallible.bind_ok.mp built
    obtain ⟨todos,-,built⟩ := Fallible.bind_ok.mp built
    obtain ⟨plan,isPlan,rfl⟩ := Fallible.map_ok.mp built
    exact isPlan

/-- A plan survives a build if and only if the messages write one, or there was none. -/
theorem survives_iff {base next : Base} {messages : List CanonicalMessage} (built : build_derived_state base messages = .ok next) :
    Survives base messages next ↔ planInputs messages ≠ [] ∨ base.plan = none := by
  have isPlan := built_plan built
  have todos := built_todos built
  cases inputs : (planInputs messages).getLast? with
  | none =>
    have isEmpty : planInputs messages = [] := List.getLast?_eq_none_iff.mp inputs
    have noPlan : next.plan = none := by
      rw [planOf,inputs] at isPlan
      exact (Except.ok.inj isPlan).symm
    constructor
    · exact fun survives => .inr ((survives.plan isEmpty).symm.trans noPlan)
    · rintro (some_ | wasNone)
      · exact absurd isEmpty some_
      · exact ⟨todos,fun _ => noPlan.trans wasNone.symm,fun input isLast => by rw [inputs] at isLast; cases isLast⟩
  | some input =>
    have some_ : planInputs messages ≠ [] := by
      intro isEmpty
      rw [isEmpty] at inputs
      cases inputs
    rw [planOf,inputs] at isPlan
    obtain ⟨text,isText,isSome⟩ := Fallible.map_ok.mp isPlan
    refine iff_of_true ⟨todos,fun isEmpty => absurd isEmpty some_,fun other isLast => ?_⟩ (.inl some_)
    rw [inputs] at isLast
    cases isLast
    exact ⟨text,isText,isSome.symm⟩
theorem survives_plan : Survives testsOpen (answered "CreatePlan" (.String "Then code")) ⟨testsOpen.todos,some "Then code"⟩ :=
  (survives_iff (by decide +kernel)).mpr (.inl (by decide +kernel))
/-- Messages without a plan call lose the plan. -/
theorem plan_lost : ¬ ∀ (base next : Base) (messages : List CanonicalMessage), build_derived_state base messages = .ok next →
    Survives base messages next := by
  intro always
  have survives := always testsOpen ⟨testsOpen.todos,none⟩ [] (by decide +kernel)
  have lost := survives.plan rfl
  cases lost

end MyCursor.DerivedTodos
