import MyCursor.ModelStore

/-!
# Importing a legacy configuration

`store/legacy_config.rs` with `create_models_if_missing` of `store/models.rs`: the models
of a configuration of v0.0.49 are turned into inputs, and those whose hash is not stored
yet are inserted. YAML is read by its crate.
-/
namespace MyCursor.ModelImport
open Message Text ModelCatalog ModelIdentity ModelStore Transitions
set_option linter.unusedSectionVars false

/-- An entry of `modelAdapters`; what is not there has its default. -/
structure LegacyModel where
  sort : Int := 0
  display_name : String := ""
  model_type : String := ""
  base_url : String := ""
  api_key : String := ""
  tooltip_data : String := ""
  model_id : String := ""
  reasoning_effort : String := ""
  openai_endpoint : String := ""
  openai_extra_params_enabled : Bool := false
  openai_extra_params_json : String := ""
  custom_headers_enabled : Bool := false
  custom_headers_json : String := ""
  anthropic_extra_params_enabled : Bool := false
  anthropic_extra_params_json : String := ""
  context_window_tokens : UInt64 := 0
  max_completion_tokens : UInt64 := 0
  anthropic_max_tokens : UInt64 := 0
  anthropic_thinking_effort : String := ""
  thinking_budget_tokens : UInt64 := 0

/-- `serde_json::from_str` for the parameters of a model. -/
class ParamsText where
  from_str : String → Except String Value

def nonzero (value : UInt64) : Option UInt64 := if 0 < value then some value else none
def optional_string (value : String) : Option String := if trim value = "" then none else some value

def endsWith (path suffix : String) : Bool := suffix.toList.isSuffixOf (to_ascii_lowercase (trim_end_slashes path)).toList

section Reading
variable [Urls] [ParamsText]

def openai_protocol_from_url (value : String) : Option String :=
  match Urls.parse value with
  | .error _ => none
  | .ok url =>
    if endsWith url.path "/responses" then some OPENAI_RESPONSES_ENDPOINT
    else if endsWith url.path "/chat/completions" then some OPENAI_CHAT_ENDPOINT
    else none
def url_path_ends_with (value suffix : String) : Bool :=
  match Urls.parse value with
  | .error _ => false
  | .ok url => endsWith url.path suffix

def configuredEndpoint (openai_endpoint : String) : Except Error String :=
  let value := trim openai_endpoint
  if value = "" ∨ value = OPENAI_RESPONSES_ENDPOINT then .ok OPENAI_RESPONSES_ENDPOINT
  else if value = OPENAI_CHAT_ENDPOINT ∨ value = "/custom" then .ok OPENAI_CHAT_ENDPOINT
  else .error (.Config s!"unsupported v0.0.49 OpenAI endpoint: {value}")
def legacy_request_configuration (model_type : ModelType) (base_url openai_endpoint : String) :
    Except Error (String × String × Bool) := do
  let base_url ← normalize_request_url base_url
  match model_type with
  | .Anthropic => .ok (base_url,"",url_path_ends_with base_url "/messages")
  | .OpenAi =>
    let detected := openai_protocol_from_url base_url
    let configured ← configuredEndpoint openai_endpoint
    .ok (base_url,detected.getD configured,detected.isSome || trim openai_endpoint = "/custom")

def json_object (value : String) : Except Error Value :=
  if trim value = "" then .ok (.Object [])
  else do
    let value ← (ParamsText.from_str value).mapError .Json
    match value with
    | .Object members => .ok (.Object members)
    | _ => .error (.Config "v0.0.49 model JSON fields must be objects")
def enabled_json_object (enabled : Bool) (value : String) : Except Error Value := if enabled then json_object value else .ok (.Object [])

def legacyType (model_type : String) : Except Error ModelType :=
  let value := to_ascii_lowercase (trim model_type)
  if value = "openai" then .ok .OpenAi
  else if value = "anthropic" then .ok .Anthropic
  else .error (.Config s!"unsupported v0.0.49 model type: {value}")
def model_input (model : LegacyModel) : Except Error ModelConfigInput := do
  let model_type ← legacyType model.model_type
  let (base_url,openai_endpoint,use_full_url) ← legacy_request_configuration model_type model.base_url model.openai_endpoint
  let openai_extra_params ←
    enabled_json_object (model_type = .OpenAi && model.openai_extra_params_enabled) model.openai_extra_params_json
  let custom_headers ← enabled_json_object model.custom_headers_enabled model.custom_headers_json
  let anthropic_extra_params ←
    enabled_json_object (model_type = .Anthropic && model.anthropic_extra_params_enabled) model.anthropic_extra_params_json
  .ok {
    sort_order := model.sort
    display_name := model.display_name
    group_name := none
    model_type, base_url, use_full_url
    api_key := model.api_key
    tooltip_data := if trim model.tooltip_data = "" then model.display_name else model.tooltip_data
    model_id := model.model_id
    supports_thinking :=
      trim model.reasoning_effort ≠ "" || trim model.anthropic_thinking_effort ≠ "" || 0 < model.thinking_budget_tokens
    supports_images := false
    supports_fast := false
    reasoning_effort := optional_string model.reasoning_effort
    openai_endpoint
    openai_extra_params_enabled := model.openai_extra_params_enabled
    openai_extra_params
    custom_headers_enabled := model.custom_headers_enabled
    custom_headers
    anthropic_extra_params_enabled := model.anthropic_extra_params_enabled
    anthropic_extra_params
    context_window_tokens := nonzero model.context_window_tokens
    max_completion_tokens := nonzero model.max_completion_tokens
    anthropic_max_tokens := nonzero model.anthropic_max_tokens
    anthropic_thinking_effort := optional_string model.anthropic_thinking_effort
    thinking_budget_tokens := nonzero model.thinking_budget_tokens }
def load_v0049_model_config (model_adapters : List LegacyModel) : Except Error (List ModelConfigInput) :=
  if model_adapters = [] then .error (.Config "v0.0.49 config contains no model adapters") else model_adapters.mapM model_input

end Reading

structure LegacyModelImportEntry where
  model_hash : String
  input : ModelConfigInput
  existing : Bool

structure LegacyModelImportOutcome where
  imported : Nat
  skipped : Nat
  total : Nat
deriving DecidableEq

section Importing
variable [Urls] [Sha256] [ParamsText]

/-- One turn of the loop of the preview; a hash that was seen is passed over. -/
def previewModel (existing : List String) (models : List LegacyModelImportEntry) (input : ModelConfigInput) :
    Except Error (List LegacyModelImportEntry) := do
  let input ← normalize_model_input input
  let hash ← model_config_hash input
  if hash ∈ models.map (·.model_hash) then .ok models else .ok (models ++ [⟨hash,input,hash ∈ existing⟩])
def preview_v0049_model_config (rows : List ModelConfig) (model_adapters : List LegacyModel) :
    Except Error (List LegacyModelImportEntry) := do
  let inputs ← load_v0049_model_config model_adapters
  inputs.foldlM (previewModel ((models rows).map (·.config_hash))) []

/-- One turn of the first loop of `create_models_if_missing`. -/
def addMissing (normalized : List (String × ModelConfigInput)) (input : ModelConfigInput) :
    Except Error (List (String × ModelConfigInput)) := do
  let input ← normalize_model_input input
  let config_hash ← model_config_hash input
  if config_hash ∈ normalized.map (·.1) then .ok normalized else .ok (normalized ++ [(config_hash,input)])
def insertMissing (now : Int) (state : List ModelConfig × Nat) (model : (String × ModelConfigInput) × String) :
    Except Error (List ModelConfig × Nat) := do
  let (rows,inserted) ← insert_model_with_conflict state.1 model.2 model.1.1 model.1.2 now true
  .ok (rows,state.2 + inserted.toNat)
/-- `new_model_id` gives each model of the batch an id. -/
def create_models_if_missing (rows : List ModelConfig) (inputs : List ModelConfigInput) (new_model_id : Nat → String) (now : Int) :
    Except Error (List ModelConfig × Nat) := do
  let normalized ← inputs.foldlM addMissing []
  (normalized.zipIdx.map fun (model,index) => (model,new_model_id index)).foldlM (insertMissing now) (rows,0)

def import_v0049_model_config (rows : List ModelConfig) (model_adapters : List LegacyModel) (new_model_id : Nat → String) (now : Int) :
    Except Error (List ModelConfig × LegacyModelImportOutcome) := do
  let models ← preview_v0049_model_config rows model_adapters
  let missing := (models.filter fun model => !model.existing).map (·.input)
  let (rows,imported) ← create_models_if_missing rows missing new_model_id now
  .ok (rows,⟨imported,models.length - imported,models.length⟩)

/-- A table that requests and imports have made. -/
inductive Stored : List ModelConfig → Prop
  | empty : Stored []
  | step {s : Store} (action : Action) (stored : Stored s.rows) (waits : ∀ model_hashes ∈ s.sorting, model_hashes.Nodup) :
    Stored (step s action).rows
  | imported {rows after : List ModelConfig} {outcome : LegacyModelImportOutcome} (model_adapters : List LegacyModel)
    (new_model_id : Nat → String) (now : Int) (stored : Stored rows)
    (isImport : import_v0049_model_config rows model_adapters new_model_id now = .ok (after,outcome)) : Stored after

inductive Named (rows : List ModelConfig) (inputs : List ModelConfigInput) : Identity → Prop
  | stored {row : ModelConfig} {model : Identity} (member : row ∈ rows)
    (isModel : identityOf row.toModelConfigInput = .ok model) : Named rows inputs model
  | given {input : ModelConfigInput} {model : Identity} (member : input ∈ inputs) (isModel : identity input = .ok model) :
    Named rows inputs model
/-- No stored row stands for two of them. -/
def MergesNothing (rows : List ModelConfig) (inputs : List ModelConfigInput) (after : List ModelConfig) : Prop :=
  ∀ a b, Named rows inputs a → Named rows inputs b → a ≠ b → ¬ ∃ row ∈ after, row.config_hash = hashOf a ∧ row.config_hash = hashOf b

end Importing

section Kept
variable [Urls] [Sha256] [ParamsText] {rows after : List ModelConfig} {now : Int}

variable {input : ModelConfigInput} {config_hash : String}

theorem normalized_hash {normalized : ModelConfigInput}
    (accepted : normalize_model_input input = .ok normalized) (hashed : model_config_hash normalized = .ok config_hash) :
    ∃ model, identityOf normalized = .ok model ∧ identity input = .ok model ∧ config_hash = hashOf model := by
  rw [model_config_hash_eq,identity,normalize_twice accepted] at hashed
  obtain ⟨model,isModel,rfl⟩ := Fallible.map_ok.mp hashed
  refine ⟨model,isModel,?_,rfl⟩
  rw [identity,accepted]
  exact isModel

def Hashed (input : ModelConfigInput) (config_hash : String) : Prop :=
  ∃ model, identityOf input = .ok model ∧ config_hash = hashOf model
def Kept (rows : List ModelConfig) : Prop := ∀ row ∈ rows, Hashed row.toModelConfigInput row.config_hash

theorem hashed_of {normalized : ModelConfigInput} (accepted : normalize_model_input input = .ok normalized)
    (hashed : model_config_hash normalized = .ok config_hash) : Hashed normalized config_hash := by
  obtain ⟨model,isModel,-,isHash⟩ := normalized_hash accepted hashed
  exact ⟨model,isModel,isHash⟩

theorem Kept.insert (kept : Kept rows) {model_hash : String} {ignore_existing : Bool}
    {result : List ModelConfig × Bool} (hashed : Hashed input config_hash)
    (written : insert_model_with_conflict rows model_hash config_hash input now ignore_existing = .ok result) : Kept result.1 := by
  rw [insert_model_with_conflict,Fallible.bind_ok] at written
  obtain ⟨_,-,written⟩ := written
  split_ifs at written
  · rw [← Except.ok.inj written]
    exact kept
  · rw [← Except.ok.inj written]
    exact List.forall_mem_append.mpr ⟨kept,List.forall_mem_singleton.mpr hashed⟩
def AllHashed (normalized : List (String × ModelConfigInput)) : Prop := ∀ model ∈ normalized, Hashed model.2 model.1

theorem AllHashed.concat {normalized : List (String × ModelConfigInput)} (known : AllHashed normalized)
    (hashed : Hashed input config_hash) :
    AllHashed (normalized ++ [(config_hash,input)]) := List.forall_mem_append.mpr ⟨known,List.forall_mem_singleton.mpr hashed⟩
theorem AllHashed.addModel {normalized next : List (String × ModelConfigInput)} (known : AllHashed normalized)
    (added : addModel normalized input = .ok next) : AllHashed next := by
  simp only [ModelStore.addModel,Fallible.bind_ok] at added
  obtain ⟨model,accepted,config_hash,hashed,added⟩ := added
  split_ifs at added
  rw [← Except.ok.inj added]
  exact known.concat (hashed_of accepted hashed)
theorem addModel_hashed {inputs : List ModelConfigInput} {normalized : List (String × ModelConfigInput)}
    (collected : inputs.foldlM addModel [] = .ok normalized) : AllHashed normalized :=
  foldlM_keeps (fun _ _ _ _ known added => known.addModel added) (List.forall_mem_nil _) collected
theorem Kept.create_models (kept : Kept rows) {inputs : List ModelConfigInput} {new_model_id : Nat → String}
    (written : create_models rows inputs new_model_id now = .ok after) : Kept after := by
  rw [ModelStore.create_models] at written
  split_ifs at written
  obtain ⟨normalized,collected,written⟩ := Fallible.bind_ok.mp written
  refine foldlM_keeps (fun rows model member after kept inserted => ?_) kept written
  obtain ⟨result,isResult,rfl⟩ := Fallible.map_ok.mp inserted
  obtain ⟨⟨entry,index⟩,isEntry,rfl⟩ := List.mem_map.mp member
  exact kept.insert (addModel_hashed collected entry (List.fst_mem_of_mem_zipIdx isEntry)) isResult
theorem Kept.updateModel (kept : Kept rows) {update : ModelUpdate} (written : updateModel now rows update = .ok after) : Kept after := by
  rw [ModelStore.updateModel] at written
  cases found : rows.find? (·.model_hash = update.model_hash) with
  | none =>
    rw [found] at written
    cases written
  | some current =>
    rw [found] at written
    simp only [Fallible.bind_ok] at written
    obtain ⟨normalized,accepted,config_hash,hashed,written⟩ := written
    have exists_ : update.model_hash ∈ rows.map (·.model_hash) :=
      List.mem_map.mpr ⟨current,List.mem_of_find?_eq_some found,by simpa using List.find?_some found⟩
    obtain ⟨-,-,rfl⟩ := (update_in_transaction exists_).mp written
    refine List.forall_mem_map.mpr fun row member => ?_
    split
    · exact hashed_of accepted hashed
    · exact kept row member
theorem Kept.sort (kept : Kept rows) {model_hashes : List String} (distinct : model_hashes.Nodup) :
    Kept (sortModels rows model_hashes now) := by
  rw [sortModels_eq distinct]
  refine List.forall_mem_map.mpr fun row member => ?_
  rw [placed]
  split
  · exact kept row member
  · exact kept row member
theorem Kept.commit {s : Store} (kept : Kept s.rows) {result : Except Error (List ModelConfig)}
    (one : ∀ rows, result = .ok rows → Kept rows) : Kept (s.commit result).rows := by
  cases result with
  | error error => exact kept
  | ok rows => exact one rows rfl
theorem Kept.step {s : Store} (kept : Kept s.rows) (waits : ∀ model_hashes ∈ s.sorting, model_hashes.Nodup) (action : Action) :
    Kept (step s action).rows := by
  cases action with
  | CreateModels inputs new_model_id now => exact kept.commit fun rows => kept.create_models
  | UpdateModels updates now =>
    refine kept.commit fun rows written => ?_
    rw [update_models] at written
    split_ifs at written
    exact foldlM_keeps (fun rows update _ after kept written => kept.updateModel written) kept written
  | DeleteModel hash =>
    refine kept.commit fun rows written => ?_
    rw [delete_model] at written
    split_ifs at written
    rw [← Except.ok.inj written]
    exact fun row member => kept row (List.mem_of_mem_filter member)
  | CheckOrder model_hashes =>
    rw [ModelStore.step]
    split_ifs <;> exact kept
  | SortModels model_hashes now =>
    rw [ModelStore.step]
    split_ifs with isWaiting
    · exact kept.sort (waits model_hashes isWaiting)
    · exact kept

end Kept

section Imports
variable [Urls] [Sha256] [ParamsText] {rows after : List ModelConfig} {now : Int}

structure Previewed (existing : List String) (models : List LegacyModelImportEntry) : Prop where
  normal : ∀ model ∈ models, normalize_model_input model.input = .ok model.input
  hashed : ∀ model ∈ models, model_config_hash model.input = .ok model.model_hash
  existing : ∀ model ∈ models, model.existing = decide (model.model_hash ∈ existing)

theorem Previewed.next {existing : List String} {models next : List LegacyModelImportEntry} (previewed : Previewed existing models)
    {input : ModelConfigInput} (read : previewModel existing models input = .ok next) : Previewed existing next := by
  simp only [previewModel,Fallible.bind_ok] at read
  obtain ⟨normalized,accepted,hash,hashed,read⟩ := read
  split_ifs at read
  · rw [← Except.ok.inj read]
    exact previewed
  · rw [← Except.ok.inj read]
    exact ⟨List.forall_mem_append.mpr ⟨previewed.normal,List.forall_mem_singleton.mpr (normalize_twice accepted)⟩,
      List.forall_mem_append.mpr ⟨previewed.hashed,List.forall_mem_singleton.mpr hashed⟩,
      List.forall_mem_append.mpr ⟨previewed.existing,List.forall_mem_singleton.mpr rfl⟩⟩

variable {inputs : List ModelConfigInput}

theorem previewed {existing : List String} {models : List LegacyModelImportEntry}
    (read : inputs.foldlM (previewModel existing) [] = .ok models) : Previewed existing models :=
  foldlM_keeps (fun _ _ _ _ known read => known.next read) ⟨List.forall_mem_nil _,List.forall_mem_nil _,List.forall_mem_nil _⟩ read

theorem preview_covers {existing : List String} {first models : List LegacyModelImportEntry}
    (read : inputs.foldlM (previewModel existing) first = .ok models) :
    first.map (·.model_hash) ⊆ models.map (·.model_hash) ∧
      ∀ input ∈ inputs, ∀ model, identity input = .ok model → hashOf model ∈ models.map (·.model_hash) := by
  induction inputs generalizing first with
  | nil =>
    rw [Except.ok.inj read]
    exact ⟨List.Subset.refl _,List.forall_mem_nil _⟩
  | cons input rest ih =>
    rw [List.foldlM_cons,Fallible.bind_ok] at read
    obtain ⟨next,here,read⟩ := read
    obtain ⟨kept,covers⟩ := ih read
    simp only [previewModel,Fallible.bind_ok] at here
    obtain ⟨normalized,accepted,hash,hashed,here⟩ := here
    obtain ⟨model,-,isModel,rfl⟩ := normalized_hash accepted hashed
    have both : first.map (·.model_hash) ⊆ next.map (·.model_hash) ∧ hashOf model ∈ next.map (·.model_hash) := by
      split_ifs at here with known
      · rw [← Except.ok.inj here]
        exact ⟨List.Subset.refl _,known⟩
      · rw [← Except.ok.inj here,List.map_append]
        exact ⟨List.subset_append_left _ _,List.mem_append_right _ List.mem_cons_self⟩
    refine ⟨List.Subset.trans both.1 kept,List.forall_mem_cons.mpr ⟨fun other isOther => ?_,covers⟩⟩
    rw [isModel] at isOther
    obtain rfl := Except.ok.inj isOther
    exact kept both.2

def reflag (existing : List String) (model : LegacyModelImportEntry) : LegacyModelImportEntry :=
  { model with existing := model.model_hash ∈ existing }

theorem preview_again {existing : List String} (later : List String)
    {first models : List LegacyModelImportEntry} (read : inputs.foldlM (previewModel existing) first = .ok models) :
    inputs.foldlM (previewModel later) (first.map (reflag later)) = .ok (models.map (reflag later)) := by
  induction inputs generalizing first with
  | nil =>
    rw [Except.ok.inj read]
    rfl
  | cons input rest ih =>
    rw [List.foldlM_cons,Fallible.bind_ok] at read
    obtain ⟨next,here,read⟩ := read
    rw [List.foldlM_cons,Fallible.bind_ok]
    refine ⟨next.map (reflag later),?_,ih read⟩
    simp only [previewModel,Fallible.bind_ok] at here ⊢
    obtain ⟨normalized,accepted,hash,hashed,here⟩ := here
    refine ⟨normalized,accepted,hash,hashed,?_⟩
    have sameHashes : (first.map (reflag later)).map (·.model_hash) = first.map (·.model_hash) := by
      rw [List.map_map]
      rfl
    rw [sameHashes]
    split_ifs at here ⊢
    · rw [Except.ok.inj here]
    · rw [← Except.ok.inj here,List.map_append]
      rfl

theorem insert_leaves {model_hash config_hash : String} {input : ModelConfigInput} {ignore_existing : Bool}
    {result : List ModelConfig × Bool}
    (written : insert_model_with_conflict rows model_hash config_hash input now ignore_existing = .ok result) :
    rows ⊆ result.1 ∧ config_hash ∈ result.1.map (·.config_hash) := by
  rw [insert_model_with_conflict,Fallible.bind_ok] at written
  obtain ⟨_,-,written⟩ := written
  split_ifs at written with _ known _
  · rw [← Except.ok.inj written]
    obtain ⟨row,member,same⟩ := List.any_eq_true.mp known
    exact ⟨List.Subset.refl _,List.mem_map.mpr ⟨row,member,of_decide_eq_true same⟩⟩
  · rw [← Except.ok.inj written]
    refine ⟨List.subset_append_left _ _,?_⟩
    rw [List.map_append]
    exact List.mem_append_right _ List.mem_cons_self
theorem insertMissing_leaves {models : List ((String × ModelConfigInput) × String)} {first last : List ModelConfig × Nat}
    (written : models.foldlM (insertMissing now) first = .ok last) :
    first.1 ⊆ last.1 ∧ ∀ model ∈ models, model.1.1 ∈ last.1.map (·.config_hash) := by
  induction models generalizing first with
  | nil =>
    rw [Except.ok.inj written]
    exact ⟨List.Subset.refl _,List.forall_mem_nil _⟩
  | cons model rest ih =>
    rw [List.foldlM_cons,Fallible.bind_ok] at written
    obtain ⟨next,here,written⟩ := written
    obtain ⟨kept,others⟩ := ih written
    rw [insertMissing,Fallible.bind_ok] at here
    obtain ⟨result,inserted,here⟩ := here
    obtain ⟨before,isThere⟩ := insert_leaves inserted
    rw [← Except.ok.inj here] at kept
    exact ⟨List.Subset.trans before kept,List.forall_mem_cons.mpr ⟨(List.map_subset _ kept) isThere,others⟩⟩
theorem addMissing_covers {first normalized : List (String × ModelConfigInput)}
    (collected : inputs.foldlM addMissing first = .ok normalized) :
    first ⊆ normalized ∧ ∀ input ∈ inputs, ∀ config_hash, model_config_hash input = .ok config_hash →
      config_hash ∈ normalized.map (·.1) := by
  induction inputs generalizing first with
  | nil =>
    rw [Except.ok.inj collected]
    exact ⟨List.Subset.refl _,List.forall_mem_nil _⟩
  | cons input rest ih =>
    rw [List.foldlM_cons,Fallible.bind_ok] at collected
    obtain ⟨next,here,collected⟩ := collected
    obtain ⟨kept,covers⟩ := ih collected
    simp only [addMissing,Fallible.bind_ok] at here
    obtain ⟨model,accepted,config_hash,hashed,here⟩ := here
    have sameHash : model_config_hash input = .ok config_hash := by
      obtain ⟨named,-,isNamed,rfl⟩ := normalized_hash accepted hashed
      rw [model_config_hash_eq,isNamed]
      rfl
    have both : first ⊆ next ∧ config_hash ∈ next.map (·.1) := by
      split_ifs at here with known
      · rw [← Except.ok.inj here]
        exact ⟨List.Subset.refl _,known⟩
      · rw [← Except.ok.inj here,List.map_append]
        exact ⟨List.subset_append_left _ _,List.mem_append_right _ List.mem_cons_self⟩
    refine ⟨List.Subset.trans both.1 kept,List.forall_mem_cons.mpr ⟨fun other isOther => ?_,covers⟩⟩
    rw [sameHash] at isOther
    rw [← Except.ok.inj isOther]
    exact (List.map_subset _ kept) both.2

theorem AllHashed.addMissing {normalized next : List (String × ModelConfigInput)} (known : AllHashed normalized)
    {input : ModelConfigInput} (added : addMissing normalized input = .ok next) : AllHashed next := by
  simp only [ModelImport.addMissing,Fallible.bind_ok] at added
  obtain ⟨model,accepted,config_hash,hashed,added⟩ := added
  split_ifs at added
  · rw [← Except.ok.inj added]
    exact known
  · rw [← Except.ok.inj added]
    exact known.concat (hashed_of accepted hashed)
theorem create_leaves {new_model_id : Nat → String} {result : List ModelConfig × Nat}
    (written : create_models_if_missing rows inputs new_model_id now = .ok result) :
    (Kept rows → Kept result.1) ∧ rows ⊆ result.1 ∧ ∀ input ∈ inputs, ∀ config_hash, model_config_hash input = .ok config_hash →
      config_hash ∈ result.1.map (·.config_hash) := by
  rw [create_models_if_missing,Fallible.bind_ok] at written
  obtain ⟨normalized,collected,written⟩ := written
  obtain ⟨kept,there⟩ := insertMissing_leaves written
  refine ⟨fun stored => ?_,kept,fun input member config_hash hashed => ?_⟩
  · have allHashed : AllHashed normalized :=
      foldlM_keeps (fun _ _ _ _ known added => known.addMissing added) (List.forall_mem_nil _) collected
    refine foldlM_keeps (P := fun state => Kept state.1) (fun state model member next kept inserted => ?_) stored written
    rw [insertMissing,Fallible.bind_ok] at inserted
    obtain ⟨result,isResult,inserted⟩ := inserted
    obtain ⟨⟨entry,index⟩,isEntry,rfl⟩ := List.mem_map.mp member
    rw [← Except.ok.inj inserted]
    exact kept.insert (allHashed entry (List.fst_mem_of_mem_zipIdx isEntry)) isResult
  · obtain ⟨entry,isEntry,rfl⟩ := List.mem_map.mp ((addMissing_covers collected).2 input member config_hash hashed)
    obtain ⟨index,inside,same⟩ := List.mem_iff_getElem.mp isEntry
    refine there (entry,new_model_id index) (List.mem_map.mpr ⟨(entry,index),?_,rfl⟩)
    exact List.mk_mem_zipIdx_iff_getElem?.mpr (List.getElem?_eq_some_iff.mpr ⟨inside,same⟩)

theorem models_hashes (config_hash : String) : config_hash ∈ (models rows).map (·.config_hash) ↔ config_hash ∈ rows.map (·.config_hash) :=
  ((List.perm_insertionSort _ rows).map _).mem_iff

section One
variable {model_adapters : List LegacyModel} {new_model_id : Nat → String} {outcome : LegacyModelImportOutcome}

section
variable (isImport : import_v0049_model_config rows model_adapters new_model_id now = .ok (after,outcome))
include isImport

theorem import_leaves : ∃ inputs entries, load_v0049_model_config model_adapters = .ok inputs ∧
      inputs.foldlM (previewModel ((models rows).map (·.config_hash))) [] = .ok entries ∧ outcome.total = entries.length ∧
      (Kept rows → Kept after) ∧ rows ⊆ after ∧ ∀ entry ∈ entries, entry.model_hash ∈ after.map (·.config_hash) := by
  simp only [import_v0049_model_config,preview_v0049_model_config,Fallible.bind_ok] at isImport
  obtain ⟨entries,⟨inputs,loaded,read⟩,result,created,isResult⟩ := isImport
  obtain ⟨rfl,rfl⟩ := Prod.mk.inj (Except.ok.inj isResult)
  obtain ⟨keeps,stays,there⟩ := create_leaves created
  have previewed := previewed read
  refine ⟨inputs,entries,loaded,read,rfl,keeps,stays,fun entry member => ?_⟩
  cases isExisting : entry.existing with
  | true =>
    rw [previewed.existing entry member,decide_eq_true_eq,models_hashes] at isExisting
    exact (List.map_subset _ stays) isExisting
  | false =>
    refine there entry.input (List.mem_map.mpr ⟨entry,List.mem_filter.mpr ⟨member,?_⟩,rfl⟩) _ (previewed.hashed entry member)
    rw [isExisting]
    rfl

theorem import_again (later_id : Nat → String) (later : Int) :
    import_v0049_model_config after model_adapters later_id later = .ok (after,⟨0,outcome.total,outcome.total⟩) := by
  obtain ⟨inputs,entries,loaded,read,total,-,-,there⟩ := import_leaves isImport
  have again := preview_again ((models after).map (·.config_hash)) read
  have nothing : (entries.map (reflag ((models after).map (·.config_hash)))).filter (fun model => !model.existing) = [] := by
    rw [List.filter_eq_nil_iff]
    intro entry member
    obtain ⟨old,isOld,rfl⟩ := List.mem_map.mp member
    have isExisting : (reflag ((models after).map (·.config_hash)) old).existing = true :=
      decide_eq_true ((models_hashes _).mpr (there old isOld))
    simp [isExisting]
  simp only [import_v0049_model_config,preview_v0049_model_config,Fallible.bind_ok]
  refine ⟨_,⟨inputs,loaded,again⟩,(after,0),?_,?_⟩
  · rw [nothing]
    rfl
  · rw [List.length_map,total]
    rfl

end

end One

theorem Stored.kept (stored : Stored rows) : Kept rows := by
  induction stored with
  | empty => exact List.forall_mem_nil _
  | step action _ waits kept => exact kept.step waits action
  | imported model_adapters new_model_id now _ isImport kept =>
    obtain ⟨-,-,-,-,-,keeps,-⟩ := import_leaves isImport
    exact keeps kept

theorem hashes_tell (injective : Function.Injective Sha256.short) {a b : ModelConfigInput} {first second : Identity}
    (isFirst : identity a = .ok first) (isSecond : identity b = .ok second) :
    (model_config_hash a = model_config_hash b ↔ first = second) ↔ ¬ Shifted first second := by
  rw [model_config_hash_eq,model_config_hash_eq,isFirst,isSecond,← hashOf_iff injective]
  have same : (Except.map hashOf (.ok first : Except Error Identity) = Except.map hashOf (.ok second)) ↔ hashOf first = hashOf second := by
    simp [Except.map]
  rw [same]

/-- An accepted input is accepted as it is; the hashes tell two accepted inputs apart exactly
    when they are not shifted; and a second import adds nothing, while the first one merges
    nothing exactly when no two of the models that are stored or in the file are shifted. -/
theorem identity_exact (injective : Function.Injective Sha256.short) :
    (∀ input normalized, normalize_model_input input = .ok normalized → normalize_model_input normalized = .ok normalized) ∧
    (∀ a b, Fallible.Succeeds (normalize_model_input a) → Fallible.Succeeds (normalize_model_input b) →
      ∃ first second, identity a = .ok first ∧ identity b = .ok second ∧
        ((model_config_hash a = model_config_hash b ↔ first = second) ↔ ¬ Shifted first second)) ∧
    ∀ rows after model_adapters inputs new_model_id now outcome, Stored rows → load_v0049_model_config model_adapters = .ok inputs →
      import_v0049_model_config rows model_adapters new_model_id now = .ok (after,outcome) →
      (∀ later_id later,
        import_v0049_model_config after model_adapters later_id later = .ok (after,⟨0,outcome.total,outcome.total⟩)) ∧
      (MergesNothing rows inputs after ↔ ∀ a b, Named rows inputs a → Named rows inputs b → ¬ Shifted a b) := by
  refine ⟨fun input normalized => normalize_twice,fun a b ⟨_,accepted⟩ ⟨_,accepted'⟩ => ?_,
    fun rows after model_adapters inputs new_model_id now outcome stored loaded isImport => ⟨import_again isImport,?_⟩⟩
  · obtain ⟨first,-,isFirst⟩ := accepted_identity accepted
    obtain ⟨second,-,isSecond⟩ := accepted_identity accepted'
    exact ⟨first,second,isFirst,isSecond,hashes_tell injective isFirst isSecond⟩
  obtain ⟨inputs',entries,loaded',read,-,-,stays,there⟩ := import_leaves isImport
  rw [loaded] at loaded'
  obtain rfl := Except.ok.inj loaded'
  have present {model : Identity} (named : Named rows inputs model) : hashOf model ∈ after.map (·.config_hash) := by
    cases named with
    | @stored row _ member isModel =>
      obtain ⟨own,isOwn,isHash⟩ := stored.kept row member
      rw [isModel] at isOwn
      obtain rfl := Except.ok.inj isOwn
      exact List.mem_map.mpr ⟨row,stays member,isHash⟩
    | given member isModel =>
      obtain ⟨entry,isEntry,isHash⟩ := List.mem_map.mp ((preview_covers read).2 _ member _ isModel)
      exact isHash ▸ there entry isEntry
  constructor
  · intro merges a b isA isB shifted
    have same : hashOf a = hashOf b := (hashOf_inj injective).mpr shifted.1
    have different : a ≠ b := fun one => shifted.2 (one ▸ rfl)
    obtain ⟨row,member,isHash⟩ := List.mem_map.mp (present isA)
    exact merges a b isA isB different ⟨row,member,isHash,isHash.trans same⟩
  · rintro unshifted a b isA isB different ⟨row,member,first,second⟩
    exact different (((hashOf_iff injective).mpr (unshifted a b isA isB)).mp (first.symm.trans second))

end Imports

@[reducible] def messagesUrls : Urls where
  parse text := if text = "http://h/messages" then .ok ⟨"http",some "h",none,"/messages"⟩ else .error "empty host"
  set_path text _ := text
  to_lowercase := to_ascii_lowercase

def legacyModel (api_key display_name : String) : LegacyModel :=
  { display_name, model_type := "anthropic", base_url := "http://h/messages", api_key, model_id := "m" }
/-- A line of the key of the first model is a line of the name of the second one. -/
def shiftedFile : List LegacyModel := [legacyModel "k\nx" "A",legacyModel "k" "x\nA"]

section Example
local instance : Urls := messagesUrls
local instance : Sha256 := wholeText
local instance : ParamsText := ⟨fun _ => .error "expected value at line 1 column 1"⟩

def shiftedInput (api_key display_name : String) : ModelConfigInput :=
  { namedInput display_name with base_url := "http://h/messages", api_key }

/-- Two models have one hash, and an import of both stores one of them. -/
theorem shifted_merged : model_config_hash (shiftedInput "k\nx" "A") = model_config_hash (shiftedInput "k" "x\nA") ∧
    identity (shiftedInput "k\nx" "A") ≠ identity (shiftedInput "k" "x\nA") ∧
    (import_v0049_model_config [] shiftedFile (fun _ => "byok:1") 0).toOption.map (·.2) = some ⟨1,0,1⟩ :=
  ⟨by decide +kernel,by decide +kernel,by decide +kernel⟩

/-- Two models that differ in a name without line breaks have two hashes. -/
theorem plain_told_apart : Function.Injective Sha256.short ∧ Fallible.Succeeds (normalize_model_input (shiftedInput "k" "A")) ∧
    Fallible.Succeeds (normalize_model_input (shiftedInput "k" "B")) ∧
    ∃ first second, identity (shiftedInput "k" "A") = .ok first ∧ identity (shiftedInput "k" "B") = .ok second ∧
      ((model_config_hash (shiftedInput "k" "A") = model_config_hash
        (shiftedInput "k" "B") ↔ first = second) ↔ ¬ Shifted first second) := by
  have accepted : Fallible.Succeeds (normalize_model_input (shiftedInput "k" "A")) := succeeds_iff.mpr (by decide +kernel)
  have other : Fallible.Succeeds (normalize_model_input (shiftedInput "k" "B")) := succeeds_iff.mpr (by decide +kernel)
  have injective : Function.Injective Sha256.short := Function.injective_id
  exact ⟨injective,accepted,other,(identity_exact injective).2.1 _ _ accepted other⟩

end Example

end MyCursor.ModelImport
