import Mathlib.Data.List.Dedup
import Mathlib.Data.List.Sort
import MyCursor.ModelIdentity
import MyCursor.Transitions

/-!
# Stored models

`store/models.rs` over the table `model_configs`, whose rows have a primary key and a
unique `config_hash`. Rows are written one after another in a transaction. A request to
sort the models is checked before it has the write lock.
-/
namespace MyCursor.ModelStore
open Text ModelCatalog ModelIdentity Transitions
set_option linter.unusedSectionVars false

structure ModelUpdate where
  model_hash : String
  model : ModelConfigInput

/-- `ORDER BY sort_order, display_name`. -/
def listedBefore (a b : ModelConfig) : Bool :=
  a.sort_order < b.sort_order || (a.sort_order = b.sort_order && a.display_name ≤ b.display_name)
def models (rows : List ModelConfig) : List ModelConfig := rows.insertionSort fun a b => listedBefore a b = true

def fits (value : Option UInt64) : Bool := value.all (·.toNat < 2 ^ 63)
/-- `to_i64` of the token columns. -/
def bindTokens (input : ModelConfigInput) : Except Error Unit :=
  if fits input.context_window_tokens && fits input.max_completion_tokens && fits input.anthropic_max_tokens &&
    fits input.thinking_budget_tokens then .ok () else .error (.Config "token value is too large")

def violates (column : String) : Error := .Database s!"UNIQUE constraint failed: model_configs.{column}"
/-- With `ON CONFLICT(config_hash) DO NOTHING`, or without. -/
def insert_model_with_conflict (rows : List ModelConfig) (model_hash config_hash : String) (input : ModelConfigInput) (now : Int)
    (ignore_existing : Bool) : Except Error (List ModelConfig × Bool) := do
  bindTokens input
  if rows.any (·.model_hash = model_hash) then .error (violates "model_hash")
  else if rows.any (·.config_hash = config_hash) then
    if ignore_existing then .ok (rows,false) else .error (violates "config_hash")
  else .ok (rows ++ [⟨input,model_hash,config_hash,now,now⟩],true)

/-- Another row may not have the new `config_hash`. -/
def update_model_in_transaction (rows : List ModelConfig) (model_hash config_hash : String) (input : ModelConfigInput) (now : Int) :
    Except Error (List ModelConfig) := do
  bindTokens input
  if !rows.any (·.model_hash = model_hash) then .error (.RunNotFound s!"model {model_hash}")
  else if rows.any fun row => row.model_hash ≠ model_hash && row.config_hash = config_hash then .error (violates "config_hash")
  else .ok (rows.map fun row => if row.model_hash = model_hash then ⟨input,model_hash,config_hash,row.created_at_ms,now⟩ else row)

section Operations
variable [Urls] [Sha256]

/-- One turn of the loop of `create_models`: what is inserted later, with the hashes so far. -/
def addModel (normalized : List (String × ModelConfigInput)) (input : ModelConfigInput) :
    Except Error (List (String × ModelConfigInput)) := do
  let input ← normalize_model_input input
  let config_hash ← model_config_hash input
  if config_hash ∈ normalized.map (·.1) then .error (.Config "model configurations must be unique")
  else .ok (normalized ++ [(config_hash,input)])
/-- One row of `create_models`, with the id that it gets. -/
def insertModel (now : Int) (rows : List ModelConfig) (model : (String × ModelConfigInput) × String) : Except Error (List ModelConfig) :=
  (insert_model_with_conflict rows model.2 model.1.1 model.1.2 now false).map (·.1)
/-- `new_model_id` gives each model of the batch an id. -/
def create_models (rows : List ModelConfig) (inputs : List ModelConfigInput) (new_model_id : Nat → String) (now : Int) :
    Except Error (List ModelConfig) :=
  if inputs = [] then .error (.Config "at least one model is required")
  else do
    let normalized ← inputs.foldlM addModel []
    (normalized.zipIdx.map fun (model,index) => (model,new_model_id index)).foldlM (insertModel now) rows

def withKey (current : ModelConfig) (model : ModelConfigInput) : ModelConfigInput :=
  if trim model.api_key = "" then { model with api_key := current.api_key } else model
/-- One turn of the loop of `update_models`. -/
def updateModel (now : Int) (rows : List ModelConfig) (update : ModelUpdate) : Except Error (List ModelConfig) :=
  match rows.find? (·.model_hash = update.model_hash) with
  | none => .error (.RunNotFound s!"model {update.model_hash}")
  | some current => do
    let input ← normalize_model_input (withKey current update.model)
    let config_hash ← model_config_hash input
    update_model_in_transaction rows update.model_hash config_hash input now
def update_models (rows : List ModelConfig) (updates : List ModelUpdate) (now : Int) : Except Error (List ModelConfig) :=
  if updates = [] then .error (.Config "at least one model update is required")
  else if ¬ (updates.map (·.model_hash)).Nodup then .error (.Config "model update identifiers must be unique")
  else updates.foldlM (updateModel now) rows

def delete_model (rows : List ModelConfig) (hash : String) : Except Error (List ModelConfig) :=
  if rows.any (·.model_hash = hash) then .ok (rows.filter (·.model_hash ≠ hash)) else .error (.RunNotFound s!"model {hash}")

/-- The check of `reorder_models`, against the models as they are then. -/
def sortable (rows : List ModelConfig) (model_hashes : List String) : Bool :=
  model_hashes.length = (models rows).length && model_hashes.dedup.length = (models rows).length &&
    model_hashes.all (· ∈ (models rows).map (·.model_hash)) && ((models rows).map (·.model_hash)).all (· ∈ model_hashes)
/-- The transaction of `reorder_models`. -/
def sortModels (rows : List ModelConfig) (model_hashes : List String) (now : Int) : List ModelConfig :=
  model_hashes.zipIdx.foldl (fun rows (hash,index) =>
    rows.map fun row => if row.model_hash = hash then { row with sort_order := index + 1, updated_at_ms := now } else row) rows

/-- `sorting` are the requests to sort that were checked and wait for the write lock. -/
structure Store where
  rows : List ModelConfig
  sorting : List (List String) := []

/-- `CheckOrder` and `SortModels` are the two parts of `reorder_models`; between them
    the other requests come. -/
inductive Action
  | CreateModels (inputs : List ModelConfigInput) (new_model_id : Nat → String) (now : Int)
  | UpdateModels (updates : List ModelUpdate) (now : Int)
  | DeleteModel (hash : String)
  | CheckOrder (model_hashes : List String)
  | SortModels (model_hashes : List String) (now : Int)

/-- A transaction that fails leaves the rows as they are. -/
def Store.commit (s : Store) : Except Error (List ModelConfig) → Store
  | .ok rows => { s with rows }
  | .error _ => s
def step (s : Store) : Action → Store
  | .CreateModels inputs new_model_id now => s.commit (create_models s.rows inputs new_model_id now)
  | .UpdateModels updates now => s.commit (update_models s.rows updates now)
  | .DeleteModel hash => s.commit (delete_model s.rows hash)
  | .CheckOrder model_hashes => if sortable s.rows model_hashes then { s with sorting := s.sorting ++ [model_hashes] } else s
  | .SortModels model_hashes now =>
    if model_hashes ∈ s.sorting then ⟨sortModels s.rows model_hashes now,s.sorting.erase model_hashes⟩ else s

/-- The primary key and the unique column. -/
structure Unique (rows : List ModelConfig) : Prop where
  ids : (rows.map (·.model_hash)).Nodup
  hashes : (rows.map (·.config_hash)).Nodup

def prepared (current : ModelConfig) (model : ModelConfigInput) : Except Error (ModelConfigInput × String) := do
  let input ← normalize_model_input (withKey current model)
  let config_hash ← model_config_hash input
  bindTokens input
  .ok (input,config_hash)
def updateOf (updates : List ModelUpdate) (row : ModelConfig) : Option ModelUpdate := updates.find? (·.model_hash = row.model_hash)
def updated (now : Int) (updates : List ModelUpdate) (row : ModelConfig) : ModelConfig :=
  match updateOf updates row with
  | none => row
  | some update =>
    match prepared row update.model with
    | .error _ => row
    | .ok (input,config_hash) => ⟨input,row.model_hash,config_hash,row.created_at_ms,now⟩
def applied (rows : List ModelConfig) (updates : List ModelUpdate) (now : Int) : List ModelConfig := rows.map (updated now updates)

/-- Every id exists and its input is valid. -/
def Valid (rows : List ModelConfig) (update : ModelUpdate) : Prop :=
  ∃ row ∈ rows, row.model_hash = update.model_hash ∧ Fallible.Succeeds (prepared row update.model)
/-- Nothing speaks against the whole update. -/
structure InOrder (rows : List ModelConfig) (updates : List ModelUpdate) (now : Int) : Prop where
  valid : ∀ update ∈ updates, Valid rows update
  distinct : ((applied rows updates now).map (·.config_hash)).Nodup
/-- An update takes the hash that a model updated later in the list still has. -/
def TakesEarly (rows : List ModelConfig) (updates : List ModelUpdate) : Prop :=
  ∃ before update after, updates = before ++ update :: after ∧ ∃ row ∈ rows, row.model_hash = update.model_hash ∧
    ∃ input config_hash, prepared row update.model = .ok (input,config_hash) ∧
      ∃ other ∈ rows, other.model_hash ∈ after.map (·.model_hash) ∧ other.config_hash = config_hash

section Update
variable {rows after : List ModelConfig} {updates done : List ModelUpdate} {update : ModelUpdate} {row other : ModelConfig} {now : Int}

theorem Unique.same (unique : Unique rows) (member : row ∈ rows) (otherMember : other ∈ rows) (same : row.model_hash = other.model_hash) :
    row = other := List.inj_on_of_nodup_map unique.ids member otherMember same

theorem updated_id (row : ModelConfig) : (updated now updates row).model_hash = row.model_hash := by
  rw [updated]
  split
  · rfl
  · split <;> rfl
theorem applied_ids : (applied rows updates now).map (·.model_hash) = rows.map (·.model_hash) := by
  rw [applied,List.map_map]
  exact List.map_congr_left fun row _ => updated_id row
theorem updateOf_none (absent : row.model_hash ∉ updates.map (·.model_hash)) : updateOf updates row = none := by
  rw [updateOf,List.find?_eq_none]
  intro update member
  rw [decide_eq_true_eq]
  exact fun same => absent (List.mem_map.mpr ⟨update,member,same⟩)
theorem updated_none (absent : row.model_hash ∉ updates.map (·.model_hash)) : updated now updates row = row := by
  rw [updated,updateOf_none absent]
theorem updateOf_some (distinct : (updates.map (·.model_hash)).Nodup) (member : update ∈ updates)
    (same : row.model_hash = update.model_hash) : updateOf updates row = some update := by
  cases found : updateOf updates row with
  | none =>
    have absent := List.find?_eq_none.mp found update member
    simp [same] at absent
  | some first =>
    have isFirst := List.find?_some found
    rw [decide_eq_true_eq] at isFirst
    rw [List.inj_on_of_nodup_map distinct (List.mem_of_find?_eq_some found) member (isFirst.trans same)]

/-- The row of the update, which is valid, and whose hash no other row has by then. -/
def Admitted (rows : List ModelConfig) (now : Int) (done : List ModelUpdate) (update : ModelUpdate) : Prop :=
  ∃ row ∈ rows, row.model_hash = update.model_hash ∧ ∃ input config_hash, prepared row update.model = .ok (input,config_hash) ∧
    ∀ other ∈ rows, other.model_hash ≠ update.model_hash → (updated now done other).config_hash ≠ config_hash

theorem update_in_transaction {model_hash config_hash : String} {input : ModelConfigInput} (exists_ : model_hash ∈ rows.map
    (·.model_hash)) :
    update_model_in_transaction rows model_hash config_hash input now = .ok after ↔
      bindTokens input = .ok () ∧ (∀ other ∈ rows, other.model_hash ≠ model_hash → other.config_hash ≠ config_hash) ∧
        after = rows.map fun row => if row.model_hash = model_hash then ⟨input,model_hash,config_hash,row.created_at_ms,now⟩ else row := by
  have known : rows.any (·.model_hash = model_hash) = true := by
    obtain ⟨row,member,same⟩ := List.mem_map.mp exists_
    exact List.any_eq_true.mpr ⟨row,member,decide_eq_true same⟩
  have conflict : (rows.any fun row => row.model_hash ≠ model_hash && row.config_hash = config_hash) = true ↔
      ¬ ∀ other ∈ rows, other.model_hash ≠ model_hash → other.config_hash ≠ config_hash := by
    simp only [List.any_eq_true,Bool.and_eq_true,decide_eq_true_eq]
    push Not
    rfl
  rw [update_model_in_transaction,Fallible.bind_ok]
  simp only [known,Bool.not_true,Bool.false_eq_true,if_false]
  constructor
  · rintro ⟨⟨⟩,bound,written⟩
    split_ifs at written with taken
    exact ⟨bound,not_not.mp (mt conflict.mpr taken),(Except.ok.inj written).symm⟩
  · rintro ⟨bound,free,rfl⟩
    refine ⟨(),bound,?_⟩
    rw [if_neg fun taken => conflict.mp taken free]

theorem prepared_ok {model : ModelConfigInput} {input : ModelConfigInput} {config_hash : String} :
    prepared row model = .ok (input,config_hash) ↔ normalize_model_input (withKey row model) = .ok input ∧
      model_config_hash input = .ok config_hash ∧ bindTokens input = .ok () := by
  simp only [prepared,Fallible.bind_ok]
  constructor
  · rintro ⟨_,isInput,_,isHash,_,bound,same⟩
    cases same
    exact ⟨isInput,isHash,bound⟩
  · rintro ⟨isInput,isHash,bound⟩
    exact ⟨input,isInput,config_hash,isHash,(),bound,rfl⟩

theorem updateModel_ok (unique : Unique rows) (fresh : update.model_hash ∉ done.map (·.model_hash)) :
    updateModel now (applied rows done now) update = .ok after ↔
      Admitted rows now done update ∧ after = applied rows (done ++ [update]) now := by
  have found : (applied rows done now).find? (·.model_hash = update.model_hash) =
      (rows.find? (·.model_hash = update.model_hash)).map (updated now done) := by
    rw [applied,List.find?_map]
    congr 2
    funext row
    rw [Function.comp_apply,updated_id]
  rw [updateModel,found]
  cases isRow : rows.find? (·.model_hash = update.model_hash) with
  | none =>
    refine ⟨nofun,?_⟩
    rintro ⟨⟨row,member,same,-⟩,-⟩
    have absent := List.find?_eq_none.mp isRow row member
    simp [same] at absent
  | some row =>
    have member := List.mem_of_find?_eq_some isRow
    have same : row.model_hash = update.model_hash := by simpa using List.find?_some isRow
    have unchanged : updated now done row = row := updated_none (same ▸ fresh)
    have known : update.model_hash ∈ (applied rows done now).map (·.model_hash) := by
      rw [applied_ids]
      exact List.mem_map.mpr ⟨row,member,same⟩
    -- the rows before this update are the stored ones, except for those that are done
    have others {input : ModelConfigInput} {config_hash : String} (isPrepared : prepared row update.model = .ok (input,config_hash)) :
        ((∀ other ∈ applied rows done now, other.model_hash ≠ update.model_hash → other.config_hash ≠ config_hash) ↔
          ∀ other ∈ rows, other.model_hash ≠ update.model_hash → (updated now done other).config_hash ≠ config_hash) ∧
        (applied rows done now).map (fun row => if row.model_hash = update.model_hash then
          (⟨input,update.model_hash,config_hash,row.created_at_ms,now⟩ : ModelConfig) else row) = applied rows (done ++ [update]) now := by
      constructor
      · simp only [applied,List.forall_mem_map,updated_id]
      · rw [applied,applied,List.map_map]
        refine List.map_congr_left fun other otherMember => ?_
        rw [Function.comp_apply,updated_id]
        split_ifs with isSame
        · obtain rfl := unique.same otherMember member (isSame.trans same.symm)
          have isUpdate : updateOf (done ++ [update]) other = some update := by
            rw [updateOf,List.find?_append]
            have absent : done.find? (·.model_hash = other.model_hash) = none := updateOf_none (isSame ▸ fresh)
            rw [absent]
            simp [isSame]
          rw [unchanged,updated,isUpdate]
          dsimp only
          rw [isPrepared,isSame]
        · have kept : updateOf (done ++ [update]) other = updateOf done other := by
            rw [updateOf,List.find?_append]
            simp [Ne.symm isSame,updateOf]
          rw [updated,updated,kept]
    simp only [Option.map_some,unchanged,Fallible.bind_ok]
    constructor
    · rintro ⟨input,isInput,config_hash,isHash,written⟩
      obtain ⟨bound,free,rfl⟩ := (update_in_transaction known).mp written
      have isPrepared := prepared_ok.mpr ⟨isInput,isHash,bound⟩
      obtain ⟨sameOthers,sameRows⟩ := others isPrepared
      exact ⟨⟨row,member,same,input,config_hash,isPrepared,sameOthers.mp free⟩,sameRows⟩
    · rintro ⟨⟨other,otherMember,otherSame,input,config_hash,isPrepared,free⟩,rfl⟩
      obtain rfl := unique.same otherMember member (otherSame.trans same.symm)
      obtain ⟨sameOthers,sameRows⟩ := others isPrepared
      obtain ⟨isInput,isHash,bound⟩ := prepared_ok.mp isPrepared
      exact ⟨input,isInput,config_hash,isHash,(update_in_transaction known).mpr ⟨bound,sameOthers.mpr free,sameRows.symm⟩⟩

end Update

section Updates
variable {rows after : List ModelConfig} {updates done : List ModelUpdate} {now : Int}

theorem updates_foldlM (unique : Unique rows) (distinct : ((done ++ updates).map (·.model_hash)).Nodup) :
    updates.foldlM (updateModel now) (applied rows done now) = .ok after ↔
      (∀ before update later, updates = before ++ update :: later → Admitted rows now (done ++ before) update) ∧
        after = applied rows (done ++ updates) now := by
  induction updates generalizing done with
  | nil =>
    rw [List.append_nil]
    constructor
    · intro same
      refine ⟨fun before update later split => ?_,(Except.ok.inj same).symm⟩
      exact absurd split.symm (List.append_ne_nil_of_right_ne_nil _ (List.cons_ne_nil _ _))
    · rintro ⟨-,rfl⟩
      rfl
  | cons update rest ih =>
    have whole : done ++ update :: rest = done ++ [update] ++ rest := by rw [List.append_assoc]; rfl
    have fresh : update.model_hash ∉ done.map (·.model_hash) := by
      rw [List.map_append,List.nodup_append] at distinct
      intro known
      exact distinct.2.2 _ known _ (List.mem_map_of_mem List.mem_cons_self) rfl
    rw [whole] at distinct ⊢
    rw [List.foldlM_cons,Fallible.bind_ok]
    constructor
    · rintro ⟨next,first,others⟩
      obtain ⟨admitted,rfl⟩ := (updateModel_ok unique fresh).mp first
      obtain ⟨later,isAfter⟩ := (ih distinct).mp others
      refine ⟨fun before second behind split => ?_,isAfter⟩
      cases before with
      | nil =>
        obtain ⟨rfl,rfl⟩ := List.cons.inj split
        rwa [List.append_nil]
      | cons head before =>
        obtain ⟨rfl,behindSplit⟩ := List.cons.inj split
        have admitted := later before second behind behindSplit
        rwa [List.append_assoc] at admitted
    · rintro ⟨all,rfl⟩
      have first := all [] update rest rfl
      rw [List.append_nil] at first
      refine ⟨_,(updateModel_ok unique fresh).mpr ⟨first,rfl⟩,(ih distinct).mpr ⟨fun before second behind split => ?_,rfl⟩⟩
      rw [List.append_assoc]
      exact all (update :: before) second behind (by rw [split]; rfl)

theorem applied_nil : applied rows [] now = rows := (List.map_congr_left fun _ _ => rfl).trans (List.map_id _)
theorem update_models_ok (unique : Unique rows) (given : updates ≠ []) (distinct : (updates.map (·.model_hash)).Nodup) :
    update_models rows updates now = .ok after ↔
      (∀ before update later, updates = before ++ update :: later → Admitted rows now before update) ∧
        after = applied rows updates now := by
  rw [update_models,if_neg given,if_neg (not_not.mpr distinct)]
  have whole : updates.foldlM (updateModel now) (applied rows [] now) = .ok after ↔ _ := updates_foldlM unique distinct
  rwa [applied_nil] at whole

theorem Unique.update (unique : Unique rows) {model_hash config_hash : String} {input : ModelConfigInput}
    (written : update_model_in_transaction rows model_hash config_hash input now = .ok after)
    (exists_ : model_hash ∈ rows.map (·.model_hash)) : Unique after := by
  obtain ⟨-,free,rfl⟩ := (update_in_transaction exists_).mp written
  have hashOf (row : ModelConfig) : (if row.model_hash = model_hash then
      (⟨input,model_hash,config_hash,row.created_at_ms,now⟩ : ModelConfig) else row).config_hash =
      if row.model_hash = model_hash then config_hash else row.config_hash := by split <;> rfl
  constructor
  · rw [List.map_map]
    have same : rows.map ((·.model_hash) ∘ fun row => if row.model_hash = model_hash then
        (⟨input,model_hash,config_hash,row.created_at_ms,now⟩ : ModelConfig) else row) = rows.map (·.model_hash) := by
      refine List.map_congr_left fun row _ => ?_
      rw [Function.comp_apply]
      split
      · rename_i same
        exact same.symm
      · rfl
    rw [same]
    exact unique.ids
  · rw [List.map_map]
    refine List.Nodup.map_on (fun row member other otherMember same => ?_) (List.Nodup.of_map _ unique.ids)
    rw [Function.comp_apply,Function.comp_apply,hashOf,hashOf] at same
    split_ifs at same with first second second
    · exact unique.same member otherMember (first.trans second.symm)
    · exact absurd same.symm (free other otherMember second)
    · exact absurd same (free row member first)
    · exact List.inj_on_of_nodup_map unique.hashes member otherMember same
theorem Unique.updateModel (unique : Unique rows) {update : ModelUpdate} (written : updateModel now rows update = .ok after) :
    Unique after := by
  rw [ModelStore.updateModel] at written
  cases found : rows.find? (·.model_hash = update.model_hash) with
  | none =>
    rw [found] at written
    cases written
  | some current =>
    rw [found] at written
    simp only [Fallible.bind_ok] at written
    obtain ⟨_,-,_,-,written⟩ := written
    refine unique.update written (List.mem_map.mpr ⟨current,List.mem_of_find?_eq_some found,?_⟩)
    simpa using List.find?_some found
theorem Unique.insert (unique : Unique rows) {model_hash config_hash : String} {input : ModelConfigInput} {ignore_existing : Bool}
    {result : List ModelConfig × Bool}
    (written : insert_model_with_conflict rows model_hash config_hash input now ignore_existing = .ok result) : Unique result.1 := by
  rw [insert_model_with_conflict,Fallible.bind_ok] at written
  obtain ⟨_,-,written⟩ := written
  split_ifs at written with knownId known ignored
  · rw [← Except.ok.inj written]
    exact unique
  · rw [← Except.ok.inj written]
    have newId : model_hash ∉ rows.map (·.model_hash) := by
      intro known
      obtain ⟨row,member,same⟩ := List.mem_map.mp known
      exact knownId (List.any_eq_true.mpr ⟨row,member,decide_eq_true same⟩)
    have newHash : config_hash ∉ rows.map (·.config_hash) := by
      intro isKnown
      obtain ⟨row,member,same⟩ := List.mem_map.mp isKnown
      exact known (List.any_eq_true.mpr ⟨row,member,decide_eq_true same⟩)
    constructor
    · rw [List.map_append,List.map_singleton,← List.concat_eq_append]
      exact List.Nodup.concat newId unique.ids
    · rw [List.map_append,List.map_singleton,← List.concat_eq_append]
      exact List.Nodup.concat newHash unique.hashes
theorem foldlM_keeps {α β : Type} {f : β → α → Except Error β} {P : β → Prop} {items : List α}
    (one : ∀ b, ∀ a ∈ items, ∀ b', P b → f b a = .ok b' → P b') {first last : β} (start : P first)
    (run : items.foldlM f first = .ok last) : P last := by
  induction items generalizing first with
  | nil =>
    rw [← Except.ok.inj run]
    exact start
  | cons item rest ih =>
    rw [List.foldlM_cons,Fallible.bind_ok] at run
    obtain ⟨next,isNext,run⟩ := run
    exact ih (fun b a member => one b a (List.mem_cons_of_mem _ member)) (one first item List.mem_cons_self next start isNext) run
theorem Unique.update_models (unique : Unique rows) (written : update_models rows updates now = .ok after) : Unique after := by
  rw [ModelStore.update_models] at written
  split_ifs at written
  exact foldlM_keeps (fun rows update _ after unique written => unique.updateModel written) unique written
theorem Unique.create_models (unique : Unique rows) {inputs : List ModelConfigInput} {new_model_id : Nat → String}
    (written : create_models rows inputs new_model_id now = .ok after) : Unique after := by
  rw [ModelStore.create_models] at written
  split_ifs at written
  obtain ⟨normalized,-,written⟩ := Fallible.bind_ok.mp written
  refine foldlM_keeps (fun rows model _ after unique inserted => ?_) unique written
  obtain ⟨result,isResult,rfl⟩ := Fallible.map_ok.mp inserted
  exact unique.insert isResult
theorem Unique.delete_model (unique : Unique rows) {hash : String} (written : delete_model rows hash = .ok after) : Unique after := by
  rw [ModelStore.delete_model] at written
  split_ifs at written
  rw [← Except.ok.inj written]
  exact ⟨unique.ids.sublist (List.filter_sublist.map _),unique.hashes.sublist (List.filter_sublist.map _)⟩

end Updates

section Success
variable {rows : List ModelConfig} {updates : List ModelUpdate} {now : Int}

theorem admitted_iff (unique : Unique rows) (distinct : (updates.map (·.model_hash)).Nodup)
    (succeeds : (∀ before update later, updates = before ++ update :: later → Admitted rows now before update) →
      ((applied rows updates now).map (·.config_hash)).Nodup) :
    (∀ before update later, updates = before ++ update :: later → Admitted rows now before update) ↔
      InOrder rows updates now ∧ ¬ TakesEarly rows updates := by
  constructor
  · intro admitted
    refine ⟨⟨fun update member => ?_,succeeds admitted⟩,?_⟩
    · obtain ⟨before,later,split⟩ := List.append_of_mem member
      obtain ⟨row,isRow,same,input,config_hash,isPrepared,-⟩ := admitted before update later split
      exact ⟨row,isRow,same,_,isPrepared⟩
    · rintro ⟨before,update,later,split,row,isRow,same,input,config_hash,isPrepared,other,isOther,behind,taken⟩
      obtain ⟨row',isRow',same',input',config_hash',isPrepared',free⟩ := admitted before update later split
      obtain rfl := unique.same isRow' isRow (same'.trans same.symm)
      rw [isPrepared] at isPrepared'
      obtain ⟨-,rfl⟩ := Prod.mk.inj (Except.ok.inj isPrepared')
      rw [split,List.map_append,List.map_cons,List.nodup_append,List.nodup_cons] at distinct
      obtain ⟨-,⟨notBehind,-⟩,apart⟩ := distinct
      have absent : other.model_hash ∉ before.map (·.model_hash) := fun known =>
        apart _ known _ (List.mem_cons_of_mem _ behind) rfl
      refine free other isOther (fun isSame => notBehind (isSame ▸ behind)) ?_
      rw [updated_none absent]
      exact taken
  · rintro ⟨inOrder,notEarly⟩ before update later split
    have member : update ∈ updates := split ▸ List.mem_append_right _ List.mem_cons_self
    obtain ⟨row,isRow,same,⟨input,config_hash⟩,isPrepared⟩ := inOrder.valid update member
    refine ⟨row,isRow,same,input,config_hash,isPrepared,fun other isOther different taken => ?_⟩
    have rowHash : (updated now updates row).config_hash = config_hash := by
      rw [updated,updateOf_some distinct member same]
      dsimp only
      rw [isPrepared]
    by_cases behind : other.model_hash ∈ later.map (·.model_hash)
    · rw [split,List.map_append,List.map_cons,List.nodup_append] at distinct
      have absent : other.model_hash ∉ before.map (·.model_hash) := fun known =>
        distinct.2.2 _ known _ (List.mem_cons_of_mem _ behind) rfl
      rw [updated_none absent] at taken
      exact notEarly ⟨before,update,later,split,row,isRow,same,input,config_hash,isPrepared,other,isOther,behind,taken⟩
    · -- the other row is as it stays, so that two rows end with one hash
      have stays : updateOf updates other = updateOf before other := by
        have notHere : (update :: later).find? (·.model_hash = other.model_hash) = none := by
          rw [List.find?_cons_of_neg (by simpa using Ne.symm different)]
          exact updateOf_none behind
        rw [updateOf,split,List.find?_append,notHere,Option.or_none,updateOf]
      have otherHash : (updated now updates other).config_hash = config_hash := by
        rw [updated,stays,← updated]
        exact taken
      have nodup := inOrder.distinct
      rw [applied,List.map_map] at nodup
      have one := List.inj_on_of_nodup_map nodup isOther isRow (otherHash.trans rowHash.symm)
      exact different (one ▸ same)

theorem update_models_succeeds (unique : Unique rows) (given : updates ≠ []) (distinct : (updates.map (·.model_hash)).Nodup) :
    Fallible.Succeeds (update_models rows updates now) ↔ InOrder rows updates now ∧ ¬ TakesEarly rows updates := by
  have all : Fallible.Succeeds (update_models rows updates now) ↔
      ∀ before update later, updates = before ++ update :: later → Admitted rows now before update := by
    constructor
    · rintro ⟨after,isAfter⟩
      exact ((update_models_ok unique given distinct).mp isAfter).1
    · intro admitted
      exact ⟨_,(update_models_ok unique given distinct).mpr ⟨admitted,rfl⟩⟩
  rw [all]
  refine admitted_iff unique distinct fun admitted => ?_
  exact (unique.update_models ((update_models_ok unique given distinct).mpr ⟨admitted,rfl⟩)).hashes

variable {other : List ModelUpdate}

theorem updateOf_perm (perm : other.Perm updates) (distinct : (updates.map (·.model_hash)).Nodup)
    (row : ModelConfig) : updateOf other row = updateOf updates row := by
  have otherDistinct := (perm.map (·.model_hash)).nodup_iff.mpr distinct
  cases found : updateOf updates row with
  | none =>
    refine updateOf_none fun known => ?_
    obtain ⟨update,member,same⟩ := List.mem_map.mp ((perm.map _).mem_iff.mp known)
    rw [updateOf_some distinct member same.symm] at found
    cases found
  | some update =>
    have same : update.model_hash = row.model_hash := by simpa using List.find?_some found
    exact updateOf_some otherDistinct (perm.mem_iff.mpr (List.mem_of_find?_eq_some found)) same.symm
theorem applied_perm (perm : other.Perm updates) (distinct : (updates.map (·.model_hash)).Nodup) :
    applied rows other now = applied rows updates now := by
  refine List.map_congr_left fun row _ => ?_
  rw [updated,updated,updateOf_perm perm distinct]
theorem inOrder_perm (perm : other.Perm updates) (distinct : (updates.map (·.model_hash)).Nodup) :
    InOrder rows other now ↔ InOrder rows updates now := by
  have same : applied rows other now = applied rows updates now := applied_perm perm distinct
  constructor
  · rintro ⟨valid,nodup⟩
    exact ⟨fun update member => valid update (perm.mem_iff.mpr member),same ▸ nodup⟩
  · rintro ⟨valid,nodup⟩
    exact ⟨fun update member => valid update (perm.mem_iff.mp member),same.symm ▸ nodup⟩

end Success

section Sorting
variable {rows : List ModelConfig} {model_hashes : List String} {now : Int}

def placed (model_hashes : List String) (start : Nat) (now : Int) (row : ModelConfig) : ModelConfig :=
  if row.model_hash ∈ model_hashes then
    { row with sort_order := ((start + model_hashes.idxOf row.model_hash : Nat) : Int) + 1, updated_at_ms := now }
  else row

theorem placed_id (start : Nat) (row : ModelConfig) : (placed model_hashes start now row).model_hash = row.model_hash := by
  rw [placed]
  split <;> rfl
theorem sortFrom_eq (distinct : model_hashes.Nodup) (start : Nat) : (model_hashes.zipIdx start).foldl (fun rows (hash,index) =>
      rows.map fun row => if row.model_hash = hash then
        ({ row with sort_order := ((index : Nat) : Int) + 1, updated_at_ms := now } : ModelConfig) else row) rows =
      rows.map (placed model_hashes start now) := by
  induction model_hashes generalizing rows start with
  | nil => exact ((List.map_congr_left fun row _ => if_neg List.not_mem_nil).trans (List.map_id _)).symm
  | cons hash rest ih =>
    obtain ⟨fresh,others⟩ := List.nodup_cons.mp distinct
    rw [List.zipIdx_cons,List.foldl_cons,ih others,List.map_map]
    refine List.map_congr_left fun row _ => ?_
    rw [Function.comp_apply]
    by_cases here : row.model_hash = hash
    · have notLater : row.model_hash ∉ rest := here ▸ fresh
      rw [if_pos here,placed,if_neg notLater,placed,if_pos (here ▸ List.mem_cons_self),here,List.idxOf_cons_self,Nat.add_zero]
    · rw [if_neg here,placed,placed,List.idxOf_cons_ne _ (Ne.symm here)]
      have next : start + 1 + rest.idxOf row.model_hash = start + (rest.idxOf row.model_hash).succ := by omega
      rw [next]
      by_cases later : row.model_hash ∈ rest
      · rw [if_pos later,if_pos (List.mem_cons_of_mem _ later)]
      · rw [if_neg later,if_neg fun known => (List.mem_cons.mp known).elim here later]
theorem sortModels_eq (distinct : model_hashes.Nodup) : sortModels rows model_hashes now = rows.map (placed model_hashes 0 now) :=
  sortFrom_eq distinct 0
theorem sortModels_ids (distinct : model_hashes.Nodup) :
    (sortModels rows model_hashes now).map (·.model_hash) = rows.map (·.model_hash) := by
  rw [sortModels_eq distinct,List.map_map]
  exact List.map_congr_left fun row _ => placed_id 0 row

theorem listedBefore_iff {a b : ModelConfig} : listedBefore a b = true ↔
    a.sort_order < b.sort_order ∨ a.sort_order = b.sort_order ∧ a.display_name ≤ b.display_name := by
  simp only [listedBefore,Bool.or_eq_true,Bool.and_eq_true,decide_eq_true_eq]
instance : Std.Total fun a b : ModelConfig => listedBefore a b = true where
  total a b := by
    simp only [listedBefore_iff]
    rcases lt_trichotomy a.sort_order b.sort_order with less | same | more
    · exact .inl (.inl less)
    · rcases String.le_total a.display_name b.display_name with name | name
      · exact .inl (.inr ⟨same,name⟩)
      · exact .inr (.inr ⟨same.symm,name⟩)
    · exact .inr (.inl more)
instance : IsTrans ModelConfig fun a b => listedBefore a b = true where
  trans a b c first second := by
    rw [listedBefore_iff] at first second ⊢
    rcases first with first | ⟨first,name⟩ <;> rcases second with second | ⟨second,name'⟩
    · exact .inl (first.trans second)
    · exact .inl (second ▸ first)
    · exact .inl (first ▸ second)
    · exact .inr ⟨first.trans second,String.le_trans name name'⟩
theorem listed_sorted (rows : List ModelConfig) : (models rows).Pairwise fun a b => a.sort_order ≤ b.sort_order := by
  refine (List.pairwise_insertionSort (fun a b => listedBefore a b = true) rows).imp fun {a b} before => ?_
  rcases listedBefore_iff.mp before with less | ⟨same,-⟩
  · exact less.le
  · exact same.le

/-- The models are listed as requested exactly when the stored ones are the requested ones. -/
theorem sorted_iff (distinct : model_hashes.Nodup) :
    (models (sortModels rows model_hashes now)).map (·.model_hash) = model_hashes ↔ (rows.map (·.model_hash)).Perm model_hashes := by
  have listed : ((models (sortModels rows model_hashes now)).map (·.model_hash)).Perm (rows.map (·.model_hash)) := by
    have perm := (List.perm_insertionSort (fun a b => listedBefore a b = true) (sortModels rows model_hashes now)).map (·.model_hash)
    rwa [sortModels_ids distinct] at perm
  constructor
  · intro same
    exact (same ▸ listed).symm
  · intro perm
    refine @List.Perm.eq_of_pairwise _ (fun a b => model_hashes.idxOf a ≤ model_hashes.idxOf b) _ _ ?_ ?_ ?_ (listed.trans perm)
    · intro a b isA isB first second
      have known := (listed.trans perm).mem_iff.mp isA
      exact (List.idxOf_inj known).mp (le_antisymm first second)
    · rw [List.pairwise_map]
      have places : ∀ row ∈ models (sortModels rows model_hashes now), row.sort_order = (model_hashes.idxOf row.model_hash : Int) + 1 := by
        intro row member
        have stored := (List.mem_insertionSort _).mp member
        rw [sortModels_eq distinct] at stored
        obtain ⟨old,isOld,rfl⟩ := List.mem_map.mp stored
        have known : old.model_hash ∈ model_hashes := perm.mem_iff.mp (List.mem_map_of_mem isOld)
        rw [placed,if_pos known,Nat.zero_add]
      refine (listed_sorted _).imp_of_mem fun isA isB before => ?_
      rw [places _ isA,places _ isB] at before
      omega
    · rw [List.pairwise_iff_getElem]
      intro i j inside inside' before
      rw [distinct.idxOf_getElem,distinct.idxOf_getElem]
      exact before.le

theorem sortable_nodup (accepted : sortable rows model_hashes = true) : model_hashes.Nodup := by
  simp only [sortable,Bool.and_eq_true,decide_eq_true_eq] at accepted
  obtain ⟨⟨⟨all,distinct⟩,-⟩,-⟩ := accepted
  have same : model_hashes.dedup = model_hashes := (List.dedup_sublist model_hashes).eq_of_length (distinct.trans all.symm)
  rw [← same]
  exact List.nodup_dedup model_hashes

end Sorting

section Runs
variable {s : Store} {rows : List ModelConfig} {updates : List ModelUpdate} {now : Int}

/-- The rows are unique, and the requests that wait name no model twice. -/
structure Inv (s : Store) : Prop where
  unique : Unique s.rows
  sorting : ∀ model_hashes ∈ s.sorting, model_hashes.Nodup

theorem Inv.commit (inv : Inv s) {result : Except Error (List ModelConfig)} (kept : ∀ rows, result = .ok rows → Unique rows) :
    Inv (s.commit result) := by
  cases result with
  | error error => exact inv
  | ok rows => exact ⟨kept rows rfl,inv.sorting⟩
theorem Inv.step (inv : Inv s) (action : Action) : Inv (step s action) := by
  cases action with
  | CreateModels inputs new_model_id now => exact inv.commit fun rows => inv.unique.create_models
  | UpdateModels updates now => exact inv.commit fun rows => inv.unique.update_models
  | DeleteModel hash => exact inv.commit fun rows => inv.unique.delete_model
  | CheckOrder model_hashes =>
    rw [ModelStore.step]
    split_ifs with accepted
    · refine ⟨inv.unique,List.forall_mem_append.mpr ⟨inv.sorting,?_⟩⟩
      exact List.forall_mem_singleton.mpr (sortable_nodup accepted)
    · exact inv
  | SortModels model_hashes now =>
    rw [ModelStore.step]
    split_ifs with waits
    · have distinct := inv.sorting model_hashes waits
      refine ⟨⟨?_,?_⟩,fun other member => inv.sorting other (List.mem_of_mem_erase member)⟩
      · show ((sortModels s.rows model_hashes now).map (·.model_hash)).Nodup
        rw [sortModels_ids distinct]
        exact inv.unique.ids
      · have hashes : (sortModels s.rows model_hashes now).map (·.config_hash) = s.rows.map (·.config_hash) := by
          rw [sortModels_eq distinct,List.map_map]
          refine List.map_congr_left fun row _ => ?_
          rw [Function.comp_apply,placed]
          split <;> rfl
        show ((sortModels s.rows model_hashes now).map (·.config_hash)).Nodup
        rw [hashes]
        exact inv.unique.hashes
    · exact inv

/-- All updates are applied or none; they are applied exactly when nothing speaks
    against the whole update, in whatever order it is listed. -/
structure Batch (s : Store) (updates : List ModelUpdate) (now : Int) : Prop where
  atomic : (Fallible.Succeeds (update_models s.rows updates now) ∧
      (ModelStore.step s (.UpdateModels updates now)).rows = applied s.rows updates now) ∨
    ¬ Fallible.Succeeds (update_models s.rows updates now) ∧ (ModelStore.step s (.UpdateModels updates now)).rows = s.rows
  succeeds : Fallible.Succeeds (update_models s.rows updates now) ↔ InOrder s.rows updates now
  unordered : ∀ other : List ModelUpdate, other.Perm updates →
    (InOrder s.rows other now ↔ InOrder s.rows updates now) ∧ applied s.rows other now = applied s.rows updates now

theorem batch_iff (unique : Unique s.rows) (given : updates ≠ []) (distinct : (updates.map (·.model_hash)).Nodup) :
    Batch s updates now ↔ (InOrder s.rows updates now → ¬ TakesEarly s.rows updates) := by
  have succeeds : Fallible.Succeeds (update_models s.rows updates now) ↔ _ := update_models_succeeds unique given distinct
  constructor
  · intro batch inOrder
    exact (succeeds.mp (batch.succeeds.mpr inOrder)).2
  · intro notEarly
    refine ⟨?_,?_,fun other perm => ⟨inOrder_perm perm distinct,applied_perm perm distinct⟩⟩
    · by_cases ok : Fallible.Succeeds (update_models s.rows updates now)
      · obtain ⟨rows,isRows⟩ := ok
        refine .inl ⟨⟨rows,isRows⟩,?_⟩
        rw [ModelStore.step,isRows]
        exact ((update_models_ok unique given distinct).mp isRows).2
      · refine .inr ⟨ok,?_⟩
        rw [ModelStore.step]
        cases isResult : update_models s.rows updates now with
        | ok rows => exact absurd ⟨rows,isResult⟩ ok
        | error error => rfl
    · rw [succeeds]
      exact ⟨And.left,fun inOrder => ⟨inOrder,notEarly inOrder⟩⟩

/-- In every state that a run reaches, a list of updates is treated as it should be exactly
    when it is refused anyway or no update takes the hash of a model updated after it; and a
    request to sort leaves the models as requested exactly when the models that are stored
    by then are the requested ones. -/
theorem batch_exact (unique : Unique rows) (actions : List Action) : (∀ updates now, updates ≠ [] → (updates.map (·.model_hash)).Nodup →
      (Batch (after ModelStore.step ⟨rows,[]⟩ actions) updates now ↔ (InOrder (after ModelStore.step ⟨rows,[]⟩ actions).rows updates now →
          ¬ TakesEarly (after ModelStore.step ⟨rows,[]⟩ actions).rows updates))) ∧
    ∀ model_hashes now, model_hashes ∈ (after ModelStore.step ⟨rows,[]⟩ actions).sorting →
      ((models (after ModelStore.step ⟨rows,[]⟩ (actions ++ [.SortModels model_hashes now])).rows).map (·.model_hash) = model_hashes ↔
        ((after ModelStore.step ⟨rows,[]⟩ actions).rows.map (·.model_hash)).Perm model_hashes) := by
  have inv : Inv (after ModelStore.step ⟨rows,[]⟩ actions) :=
    invariant (P := Inv) ⟨unique,List.forall_mem_nil _⟩ (fun _ action inv => inv.step action) actions
  refine ⟨fun updates now given distinct => batch_iff inv.unique given distinct,fun model_hashes now waits => ?_⟩
  have sorted : (after ModelStore.step ⟨rows,[]⟩ (actions ++ [.SortModels model_hashes now])).rows =
      sortModels (after ModelStore.step ⟨rows,[]⟩ actions).rows model_hashes now := by
    rw [after_append,after_cons,after_nil,ModelStore.step,if_pos waits]
  rw [sorted]
  exact sorted_iff (inv.sorting model_hashes waits)

end Runs

end Operations

/-- The url crate at urls that name a host, and a digest that keeps the whole text. -/
@[reducible] def hostUrls : Urls where
  parse text := if text = "http://h" then .ok ⟨"http",some "h",none,"/"⟩ else .error "empty host"
  set_path text _ := text
  to_lowercase := to_ascii_lowercase
@[reducible] def wholeText : Sha256 := ⟨id⟩

def namedInput (display_name : String) : ModelConfigInput :=
  { customInput with
    base_url := "http://h"
    api_key := "k"
    tooltip_data := "t"
    model_id := "m"
    model_type := .Anthropic
    supports_thinking := false
    openai_endpoint := ""
    display_name }
def namedHash (display_name : String) : String := "http://h\nm\nk\n" ++ display_name
def namedRow (model_hash display_name : String) : ModelConfig := ⟨namedInput display_name,model_hash,namedHash display_name,0,0⟩
def pair : List ModelConfig := [namedRow "byok:1" "A",namedRow "byok:2" "B"]
def exchange : List ModelUpdate := [⟨"byok:1",namedInput "B"⟩,⟨"byok:2",namedInput "A"⟩]

theorem pair_unique : Unique pair := ⟨by decide +kernel,by decide +kernel⟩

section Example
local instance : Urls := hostUrls
local instance : Sha256 := wholeText

theorem succeeds_iff {α : Type} {x : Except Error α} : Fallible.Succeeds x ↔ x.toOption.isSome = true := by
  cases x with
  | error error => exact ⟨nofun,nofun⟩
  | ok a => exact ⟨fun _ => rfl,fun _ => ⟨a,rfl⟩⟩

/-- An exchange is refused though nothing speaks against it, and models that are created
    after the check are not in the order that is committed. -/
theorem exchange_refused : (InOrder pair exchange 1 ∧ ¬ Fallible.Succeeds (update_models pair exchange 1)) ∧
    ["byok:2","byok:1"] ∈ (after step ⟨pair,[]⟩ [.CheckOrder ["byok:2","byok:1"],
      .CreateModels [namedInput "C"] (fun _ => "byok:3") 1]).sorting ∧
    (models (after step ⟨pair,[]⟩ [.CheckOrder ["byok:2","byok:1"],.CreateModels [namedInput "C"] (fun _ => "byok:3") 1,
      .SortModels ["byok:2","byok:1"] 2]).rows).map (·.model_hash) = ["byok:3","byok:2","byok:1"] := by
  refine ⟨⟨⟨?_,by decide +kernel⟩,?_⟩,by decide +kernel,by decide +kernel⟩
  · have first : Valid pair ⟨"byok:1",namedInput "B"⟩ :=
      ⟨namedRow "byok:1" "A",List.mem_cons_self,rfl,succeeds_iff.mpr (by decide +kernel)⟩
    have second : Valid pair ⟨"byok:2",namedInput "A"⟩ :=
      ⟨namedRow "byok:2" "B",List.mem_cons_of_mem _ List.mem_cons_self,rfl,succeeds_iff.mpr (by decide +kernel)⟩
    exact List.forall_mem_cons.mpr ⟨first,List.forall_mem_singleton.mpr second⟩
  · rw [succeeds_iff]
    decide +kernel

/-- The second model gives its name up before the first one takes it. -/
theorem rename_batch : Unique pair ∧ Batch ⟨pair,[]⟩ [⟨"byok:2",namedInput "C"⟩,⟨"byok:1",namedInput "B"⟩] 1 := by
  have apart : ∀ row ∈ pair, ∀ other ∈ pair, row.model_hash = "byok:2" → other.model_hash ∈ ["byok:1"] →
      (prepared row (namedInput "C")).toOption.map (·.2) ≠ some other.config_hash := by decide +kernel
  refine ⟨pair_unique,((batch_exact pair_unique []).1 _ 1 (List.cons_ne_nil _ _) (by decide)).mpr fun _ => ?_⟩
  rintro ⟨before,update,later,split,row,member,isRow,input,config_hash,isPrepared,other,otherMember,behind,taken⟩
  cases before with
  | nil =>
    obtain ⟨rfl,rfl⟩ := List.cons.inj split
    exact apart row member other otherMember isRow behind (by rw [isPrepared,taken]; rfl)
  | cons first rest =>
    obtain ⟨-,tail⟩ := List.cons.inj split
    obtain ⟨-,last⟩ | ⟨rest,-,tail⟩ := List.cons_eq_append_iff.mp tail
    · obtain ⟨-,rfl⟩ := List.cons.inj last
      cases behind
    · exact absurd tail.symm (List.append_ne_nil_of_right_ne_nil _ (List.cons_ne_nil _ _))

end Example

end MyCursor.ModelStore
