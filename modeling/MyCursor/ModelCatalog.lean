import MyCursor.Error
import MyCursor.Message
import MyCursor.Text
import Mathlib.Data.List.Nodup
import Mathlib.Data.List.ProdSigma

/-!
# The model catalog

`model/configuration.rs`, `model/token_count.rs`, `cursor/compile/model.rs` and
`cursor/services/model_catalog.rs`: a model configuration is checked and kept,
its catalog entry offers a grid of variants, and the parameters of the variant
that the user chose come back with the run and are applied to its model.
Urls are parsed by the url crate.
-/
namespace MyCursor.ModelCatalog
open Message Text

def unsigned : List Char → List Char
  | '+' :: rest => rest
  | text => text

/-- `str::parse::<u64>`. -/
def parseU64 (text : List Char) : Option UInt64 :=
  let digits := unsigned text
  if !digits.isEmpty && digits.all Char.isDigit && decide (Nat.ofDigitChars 10 digits 0 < 2 ^ 64) then
    some (UInt64.ofNat (Nat.ofDigitChars 10 digits 0))
  else none

/-- `u64::checked_mul`. -/
def checked_mul (a b : UInt64) : Option UInt64 :=
  if a.toNat * b.toNat < 2 ^ 64 then some (a * b) else none

def parse_token_count (value : String) : Option UInt64 :=
  let value := (to_ascii_lowercase (trim value)).toList
  match value.getLast? with
  | none => none
  | some last =>
    let (number,multiplier) := if last = 'k' then (value.dropLast,1000) else if last = 'm' then (value.dropLast,1000000)
      else (value,1)
    (parseU64 number).bind (checked_mul · multiplier)

/-- `u64::to_string`. -/
def printed (tokens : UInt64) : String := String.ofList (Nat.toDigits 10 tokens.toNat)

def format_token_count (tokens : UInt64) : String :=
  if 1000000 ≤ tokens ∧ tokens % 1000000 = 0 then printed (tokens / 1000000) ++ "M"
  else if 1000 ≤ tokens ∧ tokens % 1000 = 0 then printed (tokens / 1000) ++ "K"
  else printed tokens

inductive ModelType where
  | OpenAi
  | Anthropic
deriving DecidableEq

structure ModelConfigInput where
  sort_order : Int
  display_name : String
  group_name : Option String
  model_type : ModelType
  base_url : String
  use_full_url : Bool
  api_key : String
  tooltip_data : String
  model_id : String
  supports_thinking : Bool
  supports_images : Bool
  supports_fast : Bool
  reasoning_effort : Option String
  openai_endpoint : String
  openai_extra_params_enabled : Bool
  openai_extra_params : Value
  custom_headers_enabled : Bool
  custom_headers : Value
  anthropic_extra_params_enabled : Bool
  anthropic_extra_params : Value
  context_window_tokens : Option UInt64
  max_completion_tokens : Option UInt64
  anthropic_max_tokens : Option UInt64
  anthropic_thinking_effort : Option String
  thinking_budget_tokens : Option UInt64

structure ModelConfig extends ModelConfigInput where
  model_hash : String
  config_hash : String
  created_at_ms : Int
  updated_at_ms : Int

structure Url where
  scheme : String
  host_str : Option String
  fragment : Option String
  path : String

class Urls where
  parse : String → Except String Url
  /-- The text of a url with another path. -/
  set_path : String → String → String
  to_lowercase : String → String

def OPENAI_RESPONSES_ENDPOINT : String := "/v1/responses"
def OPENAI_CHAT_ENDPOINT : String := "/v1/chat/completions"

def required (value label : String) : Except Error String :=
  let value := trim value
  if value.isEmpty then .error (.Config s!"{label} cannot be empty") else .ok value

def positive (value : Option UInt64) (label : String) : Except Error (Option UInt64) :=
  match value with
  | some 0 => .error (.Config s!"{label} must be greater than zero")
  | value => .ok value

def normalize_effort (value : Option String) (allow_empty : Bool) : Except Error (Option String) :=
  let value := to_ascii_lowercase (trim (value.getD ""))
  if value.isEmpty && allow_empty then .ok none
  else if value ∈ ["low","medium","high","xhigh","max"] then .ok (some value)
  else .error (.Config s!"unsupported reasoning effort: {value}")

def normalize_openai_endpoint (value : String) : Except Error String :=
  let value := trim value
  if value = "" ∨ value = OPENAI_RESPONSES_ENDPOINT then .ok OPENAI_RESPONSES_ENDPOINT
  else if value = OPENAI_CHAT_ENDPOINT then .ok OPENAI_CHAT_ENDPOINT
  else .error (.Config s!"unsupported OpenAI endpoint: {value}")

def validate_object (value : Value) (label : String) : Except Error Unit :=
  match value with
  | .Object _ => .ok ()
  | _ => .error (.Config s!"{label} must be a JSON object")

def isString : Value → Bool
  | .String _ => true
  | _ => false

def validate_headers (value : Value) : Except Error Unit :=
  match value with
  | .Object members =>
    if members.all fun (name,value) => !(trim name).isEmpty && isString value then .ok ()
    else .error (.Config "custom headers must have non-empty names and string values")
  | _ => .error (.Config "custom headers must be a JSON object")

section Urls
variable [Urls]

def normalize_request_url (value : String) : Except Error String :=
  let value := trim value
  match Urls.parse value with
  | .error error => .error (.Config s!"invalid model request URL: {error}")
  | .ok url =>
    if (url.scheme ≠ "http" ∧ url.scheme ≠ "https") ∨ url.host_str = none then
      .error (.Config "model request URL must be an HTTP(S) URL with a host")
    else if url.fragment.isSome then .error (.Config "model request URL cannot contain a fragment")
    else .ok value

def lastSegment (path : String) : List Char := (path.toList.reverse.takeWhile (· ≠ '/')).reverse
def has_trailing_version (path : String) : Bool :=
  match lastSegment path with
  | 'v' :: digits => !digits.isEmpty && digits.all Char.isDigit
  | _ => false

def trim_end_slashes (path : String) : String := String.ofList (path.toList.reverse.dropWhile (· = '/')).reverse
/-- `endpoint.strip_prefix("/v1").unwrap_or(endpoint)`. -/
def unversioned (endpoint : String) : String :=
  if "/v1".toList <+: endpoint.toList then String.ofList (endpoint.toList.drop 3) else endpoint

def append_standard_endpoint (base_url endpoint : String) : Except Error String :=
  match Urls.parse base_url with
  | .error error => .error (.Config s!"invalid model server URL: {error}")
  | .ok url =>
    let base_path := trim_end_slashes url.path
    let endpoint := if has_trailing_version base_path then unversioned endpoint else endpoint
    normalize_request_url (Urls.set_path base_url (base_path ++ endpoint))

def resolve_request_url (model_type : ModelType) (base_url openai_endpoint : String) (use_full_url : Bool) : Except Error String := do
  let base_url ← normalize_request_url base_url
  let endpoint ← match model_type with
    | .OpenAi => normalize_openai_endpoint openai_endpoint
    | .Anthropic => .ok "/v1/messages"
  if use_full_url then .ok base_url else append_standard_endpoint base_url endpoint

def check_budget (normalized : ModelConfigInput) : Except Error Unit :=
  match normalized.model_type, normalized.thinking_budget_tokens with
  | .Anthropic, some budget =>
    let limit := (normalized.anthropic_max_tokens.or normalized.max_completion_tokens).getD 65000
    if budget < 1024 ∨ limit ≤ budget then
      .error (.Config "Anthropic thinking budget must be at least 1024 and below max output tokens")
    else .ok ()
  | _, _ => .ok ()

def reasoningEffort (input : ModelConfigInput) : Except Error (Option String) :=
  if input.supports_thinking = true ∧ input.model_type = .OpenAi then normalize_effort input.reasoning_effort true
  else .ok none
def anthropicEffort (input : ModelConfigInput) : Except Error (Option String) :=
  if input.supports_thinking = true ∧ input.model_type = .Anthropic then
    normalize_effort (input.anthropic_thinking_effort.or (some "xhigh")) false
  else .ok none
def openaiEndpoint (input : ModelConfigInput) : Except Error String :=
  match input.model_type with
  | .OpenAi => normalize_openai_endpoint input.openai_endpoint
  | .Anthropic => .ok ""
def thinkingBudget (input : ModelConfigInput) : Except Error (Option UInt64) :=
  if input.supports_thinking then positive input.thinking_budget_tokens "thinking budget" else .ok none

def normalize_model_input (input : ModelConfigInput) : Except Error ModelConfigInput := do
  let display_name ← required input.display_name "model display name"
  let group_name := (input.group_name.map trim).filter fun value => !value.isEmpty
  let base_url ← normalize_request_url input.base_url
  let api_key ← required input.api_key "model API key"
  let tooltip_data ← required input.tooltip_data "model tooltip"
  let model_id ← required input.model_id "model id"
  let reasoning_effort ← reasoningEffort input
  let anthropic_thinking_effort ← anthropicEffort input
  let openai_endpoint ← openaiEndpoint input
  validate_object input.openai_extra_params "OpenAI extra params"
  validate_object input.anthropic_extra_params "Anthropic extra params"
  validate_headers input.custom_headers
  let context_window_tokens ← positive input.context_window_tokens "context window"
  let max_completion_tokens ← positive input.max_completion_tokens "max completion tokens"
  let anthropic_max_tokens ← positive input.anthropic_max_tokens "Anthropic max tokens"
  let thinking_budget_tokens ← thinkingBudget input
  let normalized : ModelConfigInput := {
    sort_order := max input.sort_order 0
    display_name, group_name
    model_type := input.model_type
    base_url
    use_full_url := input.use_full_url
    api_key, tooltip_data, model_id
    supports_thinking := input.supports_thinking
    supports_images := input.supports_images
    supports_fast := input.model_type = .OpenAi && input.supports_fast
    reasoning_effort, openai_endpoint
    openai_extra_params_enabled := input.model_type = .OpenAi && input.openai_extra_params_enabled
    openai_extra_params := if input.model_type = .OpenAi then input.openai_extra_params else .Object []
    custom_headers_enabled := input.custom_headers_enabled
    custom_headers := input.custom_headers
    anthropic_extra_params_enabled := input.model_type = .Anthropic && input.anthropic_extra_params_enabled
    anthropic_extra_params := if input.model_type = .Anthropic then input.anthropic_extra_params else .Object []
    context_window_tokens, max_completion_tokens, anthropic_max_tokens, anthropic_thinking_effort, thinking_budget_tokens }
  check_budget normalized
  let _ ← resolve_request_url normalized.model_type normalized.base_url normalized.openai_endpoint normalized.use_full_url
  .ok normalized

end Urls

structure ReasoningSpec where
  enabled : Bool
  effort : Option String
  budget_tokens : Option UInt64
deriving DecidableEq

inductive ModelLatency where
  | Standard
  | Fast
deriving DecidableEq

structure ModelSpec where
  model_id : String
  display_name : Option String
  reasoning : ReasoningSpec
  latency : ModelLatency
  max_output_tokens : Option UInt64
  context_window_tokens : Option UInt64
  supports_image_generation : Bool
  extra_params : Value
deriving DecidableEq

structure ModelParameterValue where
  id : String
  value : String
deriving DecidableEq

/-- The fields of `RequestedModel` that the server reads. -/
structure RequestedModel where
  model_id : String
  max_mode : Bool
  parameters : List ModelParameterValue

/-- The fields of `ModelDetails` that the server reads; `thinking_details` is
    only asked for. -/
structure ModelDetails where
  model_id : String
  display_name : String
  thinking_details : Bool

structure AgentRunRequest where
  model_details : Option ModelDetails
  requested_model : Option RequestedModel

def parse_bool (parameter : ModelParameterValue) : Except Error Bool :=
  if parameter.value = "true" then .ok true
  else if parameter.value = "false" then .ok false
  else .error (.Protocol s!"invalid Cursor boolean model parameter {parameter.id}={parameter.value}")

/-- The effort of a parameter: nothing where the configuration's is meant. -/
def requestedEffort (value : String) : Option String :=
  let effort := trim value
  if effort ≠ "none" ∧ effort ≠ "default" ∧ effort ≠ "" then some effort else none

/-- One step of the loop of `from_requested`. -/
def readParameter (spec : ModelSpec) (parameter : ModelParameterValue) : Except Error ModelSpec :=
  if parameter.id = "effort" ∨ parameter.id = "reasoning" then
    let effort := requestedEffort parameter.value
    .ok { spec with reasoning.effort := effort, reasoning.enabled := spec.reasoning.enabled || effort.isSome }
  else if parameter.id = "thinking" then do
    let thinking ← parse_bool parameter
    .ok { spec with reasoning.enabled := spec.reasoning.enabled || thinking }
  else if parameter.id = "fast" then do
    let fast ← parse_bool parameter
    .ok (if fast then { spec with latency := .Fast } else spec)
  else if parameter.id = "context" then
    match parse_token_count parameter.value with
    | some tokens => .ok { spec with context_window_tokens := some tokens }
    | none => .error (.Protocol s!"invalid Cursor context token count: {parameter.value}")
  else .ok spec

def shownName (details : Option ModelDetails) : Option String :=
  (details.map (·.display_name)).filter fun name => !name.isEmpty
def hasThinking (details : Option ModelDetails) : Bool := details.any (·.thinking_details)

/-- What `requested_model` and `from_requested` build before they read parameters. -/
def plainSpec (model_id : String) (details : Option ModelDetails) (enabled : Bool) : ModelSpec where
  model_id
  display_name := shownName details
  reasoning := ⟨enabled,none,none⟩
  latency := .Standard
  max_output_tokens := none
  context_window_tokens := none
  supports_image_generation := false
  extra_params := .Object []

def from_requested (model : RequestedModel) (details : Option ModelDetails) : Except Error ModelSpec :=
  model.parameters.foldlM readParameter (plainSpec model.model_id details (model.max_mode || hasThinking details))

def requested_model (request : AgentRunRequest) : Except Error ModelSpec :=
  let details := request.model_details
  match request.requested_model with
  | some requested => from_requested requested details
  | none =>
    match (details.map (·.model_id)).filter fun model => !model.isEmpty with
    | some model_id => .ok (plainSpec model_id details (hasThinking details))
    | none => .error (.Protocol "Cursor Run does not select a model")

def ModelConfig.max_output_tokens (config : ModelConfig) : Option UInt64 :=
  match config.model_type with
  | .OpenAi => config.max_completion_tokens
  | .Anthropic => config.anthropic_max_tokens.or config.max_completion_tokens

def ModelSpec.limit_output_tokens (spec : ModelSpec) : Option UInt64 → ModelSpec
  | some limit => { spec with max_output_tokens := some (spec.max_output_tokens.elim limit (min · limit)) }
  | none => spec

def ModelConfig.effort (config : ModelConfig) : Option String :=
  match config.model_type with
  | .OpenAi => config.reasoning_effort
  | .Anthropic => config.anthropic_thinking_effort

/-- The reasoning of `configure`. -/
def ModelConfig.configureReasoning (config : ModelConfig) (reasoning : ReasoningSpec) : ReasoningSpec :=
  if config.supports_thinking then
    let effort := reasoning.effort.or config.effort
    let budget_tokens := if config.model_type = .Anthropic then config.thinking_budget_tokens else none
    ⟨reasoning.enabled || effort.isSome || budget_tokens.isSome,effort,budget_tokens⟩
  else ⟨false,none,none⟩

def ModelConfig.configure (config : ModelConfig) (model : ModelSpec) : ModelSpec :=
  let model := ModelSpec.limit_output_tokens { model with display_name := some config.display_name } config.max_output_tokens
  { model with
    -- a context that the request names wins over the configured one
    context_window_tokens := model.context_window_tokens.or config.context_window_tokens
    reasoning := config.configureReasoning model.reasoning
    latency := if config.supports_fast then model.latency else .Standard }

structure TooltipData where
  markdown_content : Option String

structure EnumParameterValue where
  value : String
  display_name : Option String

structure BooleanParameterValue where
  value : String
  display_name : Option String
  increases_model_cost : Option Bool

structure ModelParameterType where
  boolean_parameter : Option (List BooleanParameterValue)
  enum_parameter : Option (List EnumParameterValue)

structure ModelParameterDefinition where
  id : String
  name : String
  markdown_tooltip : Option String
  parameter_type : Option ModelParameterType
  is_cycleable_by_hotkey : Option Bool

structure ModelVariant where
  parameter_values : List ModelParameterValue
  display_name : String
  is_max_mode : Bool
  is_default_max_config : Option Bool
  is_default_non_max_config : Option Bool
  tooltip_data : Option TooltipData
  display_name_outside_picker : Option String
  variant_string_representation : Option String
  legacy_slug : Option String

structure ModelPickerBadge where
  label : String
  variant : Int
  dismiss_on_selection : Bool

structure AvailableModelVendor where
  id : Int
  display_name : String

structure AvailableModel where
  name : String
  default_on : Bool
  supports_agent : Option Bool
  degradation_status : Option Int
  tooltip_data : Option TooltipData
  supports_thinking : Option Bool
  supports_images : Option Bool
  supports_max_mode : Option Bool
  client_display_name : Option String
  server_model_name : Option String
  supports_non_max_mode : Option Bool
  tooltip_data_for_max_mode : Option TooltipData
  is_recommended_for_background_composer : Option Bool
  supports_plan_mode : Option Bool
  inputbox_short_model_name : Option String
  supports_sandboxing : Option Bool
  supports_cmd_k : Option Bool
  parameter_definitions : List ModelParameterDefinition
  variants : List ModelVariant
  legacy_slugs : List String
  named_model_section_index : Option Int
  vendor_name : Option String
  vendor : Option AvailableModelVendor
  model_picker_badges : List ModelPickerBadge

def CONTEXTS : List (String × String) := [("200k","200K"),("356k","356K"),("500k","500K"),("800k","800K"),("1m","1M")]
def EFFORTS : List (String × String) :=
  [("low","Low"),("medium","Medium"),("high","High"),("xhigh","Extra High"),("max","Max"),("default","Default")]
def DEFAULT_CONTEXT : String := "200k"

def context_options (context_window_tokens : Option UInt64) : List (String × String) :=
  match context_window_tokens with
  | some tokens =>
    let duplicate := CONTEXTS.any fun existing => parse_token_count existing.1 = some tokens
    if duplicate then CONTEXTS else CONTEXTS ++ [(printed tokens,s!"{format_token_count tokens} (Custom)")]
  | none => CONTEXTS

def boolText (value : Bool) : String := if value then "true" else "false"

def model_parameters (contexts : List (String × String)) (thinking fast : Bool) : List ModelParameterDefinition :=
  let options (values : List (String × String)) : Option ModelParameterType :=
    some ⟨none,some (values.map fun (value,name) => ⟨value,some name⟩)⟩
  [⟨"context","Context",some "Context size used to trigger conversation compaction.",options contexts,some false⟩] ++ (if thinking then
      [⟨"reasoning","Effort",some "Effort the model uses to generate its response.",options EFFORTS,some true⟩] else []) ++
    (if fast then
      [⟨"fast","Fast",some "Significantly faster but consumes more usage",
        some ⟨some [⟨"false",none,none⟩,⟨"true",some "Fast",some true⟩],none⟩,some false⟩] else [])

def parameterValues (context : String) (effort : Option (String × String)) (fast : Option Bool) : List ModelParameterValue :=
  [⟨"context",context⟩] ++ (effort.map fun (effort,_) => ⟨"reasoning",effort⟩).toList ++
    (fast.map fun fast => ⟨"fast",boolText fast⟩).toList

def representation (name context : String) (effort : Option (String × String)) (fast : Option Bool) : String :=
  match effort, fast with
  | some (effort,_), some fast => s!"{name}[context={context},reasoning={effort},fast={boolText fast}]"
  | some (effort,_), none => s!"{name}[context={context},reasoning={effort}]"
  | none, some fast => s!"{name}[context={context},fast={boolText fast}]"
  | none, none => s!"{name}[context={context}]"

def legacySlug (name context : String) (effort : Option (String × String)) (fast : Option Bool) : String :=
  s!"{name}-{context}" ++ (effort.map fun (effort,_) => s!"-{effort}").getD "" ++ if fast = some true then "-fast" else ""

def model_variant (name display_name : String) (tooltip : TooltipData) (context context_name : String)
    (effort : Option (String × String)) (fast : Option Bool) : ModelVariant :=
  let suffix := (if context ≠ DEFAULT_CONTEXT then [context_name] else []) ++ (effort.map (·.2)).toList ++
    if fast = some true then ["Fast"] else []
  let suffix := String.intercalate " " suffix
  let display_name := if suffix.isEmpty then display_name
    else s!"{display_name} <span style=\"color: var(--cursor-text-tertiary);\">{suffix}</span>"
  let is_default := context = DEFAULT_CONTEXT ∧ fast ≠ some true ∧ effort.all (·.1 = "high")
  { parameter_values := parameterValues context effort fast
    display_name
    is_max_mode := false
    is_default_max_config := if is_default then some true else none
    is_default_non_max_config := if is_default then some true else none
    tooltip_data := some tooltip
    display_name_outside_picker := some display_name
    variant_string_representation := some (representation name context effort fast)
    legacy_slug := some (legacySlug name context effort fast) }

def effortGrid (thinking : Bool) : List (Option (String × String)) := if thinking then EFFORTS.map some else [none]
def fastGrid (supports_fast : Bool) : List (Option Bool) := if supports_fast then [some false,some true] else [none]

def model_variants (name display_name : String) (tooltip : TooltipData) (contexts : List (String × String))
    (thinking supports_fast : Bool) : List ModelVariant :=
  contexts.flatMap fun context => (effortGrid thinking).flatMap fun effort => (fastGrid supports_fast).map fun fast =>
    model_variant name display_name tooltip context.1 context.2 effort fast

def model_tooltip (model : ModelConfig) : TooltipData := ⟨some model.tooltip_data⟩

def isDefault (default_context : UInt64) (default_effort : String) (variant : ModelVariant) : Bool :=
  variant.parameter_values.all fun parameter =>
    if parameter.id = "context" then parse_token_count parameter.value = some default_context
    else if parameter.id = "reasoning" then parameter.value = default_effort
    else if parameter.id = "fast" then parameter.value = "false"
    else true

def markDefault (is_default : Bool) (variant : ModelVariant) : ModelVariant :=
  let mark := if is_default then some true else none
  { variant with is_default_max_config := mark, is_default_non_max_config := mark }

def provider_host [Urls] (base_url : String) : String :=
  match Urls.parse (trim base_url) with
  | .ok url => (url.host_str.map Urls.to_lowercase).getD (trim base_url)
  | .error _ => trim base_url

def available_model [Urls] (model : ModelConfig) : AvailableModel :=
  let contexts := context_options model.context_window_tokens
  let tooltip := model_tooltip model
  let default_context := model.context_window_tokens.getD 200000
  let default_effort := model.effort.getD "default"
  let variants :=
    (model_variants model.model_hash model.display_name tooltip contexts model.supports_thinking model.supports_fast).map
      fun variant => markDefault (isDefault default_context default_effort variant) variant
  { name := model.model_hash
    default_on := true
    supports_agent := some true
    degradation_status := some 0
    tooltip_data := some tooltip
    supports_thinking := some model.supports_thinking
    supports_images := some model.supports_images
    supports_max_mode := some model.supports_thinking
    client_display_name := some model.display_name
    server_model_name := some model.model_hash
    supports_non_max_mode := some true
    tooltip_data_for_max_mode := some tooltip
    is_recommended_for_background_composer := some false
    supports_plan_mode := some true
    inputbox_short_model_name := some model.display_name
    supports_sandboxing := some true
    supports_cmd_k := some false
    parameter_definitions := model_parameters contexts model.supports_thinking model.supports_fast
    variants
    legacy_slugs := variants.filterMap (·.legacy_slug)
    named_model_section_index := some 1
    vendor_name := some "cursor"
    vendor := some ⟨6,"Cursor"⟩
    model_picker_badges := [⟨model.group_name.getD (provider_host model.base_url),1,false⟩] }

/-! ## Reading back what was printed -/

theorem no_blank {c : Char} (shown : c.isAlphanum = true) : is_whitespace c = false := by
  have range : (0x30 ≤ c.toNat ∧ c.toNat ≤ 0x39) ∨ (0x41 ≤ c.toNat ∧ c.toNat ≤ 0x5A) ∨ (0x61 ≤ c.toNat ∧ c.toNat ≤ 0x7A) := by
    have parts : (decide ('A'.val ≤ c.val ∧ c.val ≤ 'Z'.val) || (decide ('a'.val ≤ c.val) && decide (c.val ≤ 'z'.val)) ||
        (decide ('0'.val ≤ c.val) && decide (c.val ≤ '9'.val))) = true := shown
    simp only [Bool.or_eq_true,Bool.and_eq_true,decide_eq_true_eq,UInt32.le_iff_toNat_le] at parts
    change (((65 ≤ c.toNat ∧ c.toNat ≤ 90) ∨ 97 ≤ c.toNat ∧ c.toNat ≤ 122) ∨ 48 ≤ c.toNat ∧ c.toNat ≤ 57) at parts
    omega
  unfold is_whitespace
  simp only [Bool.or_eq_false_iff,Bool.and_eq_false_iff,decide_eq_false_iff_not]
  omega

theorem trim_plain {text : String} (plain : ∀ c ∈ text.toList, c.isAlphanum = true) : trim text = text := by
  have kept : ∀ l : List Char, (∀ c ∈ l, c.isAlphanum = true) → l.dropWhile is_whitespace = l := by
    intro l shown
    cases l with
    | nil => rfl
    | cons c rest => exact List.dropWhile_cons_of_neg (by simp [no_blank (shown c List.mem_cons_self)])
  rw [trim,kept _ plain,kept _ fun c member => plain c (List.mem_reverse.mp member),List.reverse_reverse,String.ofList_toList]

theorem lower_digits {text : String} (digits : ∀ c ∈ text.toList, c.isDigit = true) : to_ascii_lowercase text = text := by
  have same : text.toList.map (fun c => if 'A' ≤ c ∧ c ≤ 'Z' then Char.ofNat (c.toNat + 32) else c) = text.toList := by
    refine (List.map_congr_left fun c member => ?_).trans (List.map_id _)
    have isDigit := digits c member
    refine if_neg fun upper => ?_
    simp only [Char.isDigit,Bool.and_eq_true,decide_eq_true_eq] at isDigit
    have between : 65 ≤ c.val.toNat ∧ c.val.toNat ≤ 57 := ⟨UInt32.le_iff_toNat_le.mp upper.1,UInt32.le_iff_toNat_le.mp isDigit.2⟩
    omega
  rw [to_ascii_lowercase,same,String.ofList_toList]

theorem printed_digits (tokens : UInt64) : ∀ c ∈ (printed tokens).toList, c.isDigit = true := by
  intro c member
  rw [printed,String.toList_ofList] at member
  exact Nat.isDigit_of_mem_toDigits (by decide) (by decide) member

theorem parseU64_printed (tokens : UInt64) : parseU64 (printed tokens).toList = some tokens := by
  have digits := printed_digits tokens
  have filled : (printed tokens).toList ≠ [] := by
    rw [printed,String.toList_ofList]
    exact Nat.toDigits_ne_nil
  have isUnsigned : unsigned (printed tokens).toList = (printed tokens).toList := by
    unfold unsigned
    split
    · rename_i rest isText
      rw [isText] at digits
      exact absurd (digits _ List.mem_cons_self) (by decide)
    · rfl
  have value : Nat.ofDigitChars 10 (printed tokens).toList 0 = tokens.toNat := by
    rw [printed,String.toList_ofList]
    exact Nat.ofDigitChars_ten_toDigits
  have allDigits : (printed tokens).toList.all Char.isDigit = true := List.all_eq_true.mpr digits
  have small := tokens.toNat_lt
  rw [parseU64,isUnsigned,value,allDigits]
  simp [filled,small]

theorem parse_printed (tokens : UInt64) : parse_token_count (printed tokens) = some tokens := by
  have digits := printed_digits tokens
  have trimmed : trim (printed tokens) = printed tokens := trim_plain fun c member => by
    simp [Char.isAlphanum,digits c member]
  have once : checked_mul tokens 1 = some tokens := by
    have small := tokens.toNat_lt
    rw [checked_mul,if_pos (by simpa using small),UInt64.mul_one]
  unfold parse_token_count
  rw [trimmed,lower_digits digits]
  dsimp only
  cases isLast : (printed tokens).toList.getLast? with
  | none =>
    have read := parseU64_printed tokens
    rw [List.getLast?_eq_none_iff.mp isLast] at read
    cases read
  | some last =>
    have isDigit := digits last (List.mem_of_getLast? isLast)
    have notK : last ≠ 'k' := fun same => absurd isDigit (by rw [same]; decide)
    have notM : last ≠ 'm' := fun same => absurd isDigit (by rw [same]; decide)
    dsimp only
    rw [if_neg notK,if_neg notM,parseU64_printed]
    exact once

def Names (context : String) (tokens : UInt64) : Prop :=
  (context,tokens) ∈ [("200k",200000),("356k",356000),("500k",500000),("800k",800000),("1m",1000000)] ∨ context = printed tokens

def listed : List UInt64 := [200000,356000,500000,800000,1000000]

theorem listed_counts : CONTEXTS.map (fun context => parse_token_count context.1) = listed.map some := by decide +kernel
theorem listed_names : ∀ context ∈ CONTEXTS, ∃ tokens, parse_token_count context.1 = some tokens ∧ Names context.1 tokens := by
  intro context member
  simp only [CONTEXTS,List.mem_cons,List.not_mem_nil,or_false] at member
  rcases member with rfl | rfl | rfl | rfl | rfl
  · exact ⟨200000,by decide +kernel,.inl (by simp)⟩
  · exact ⟨356000,by decide +kernel,.inl (by simp)⟩
  · exact ⟨500000,by decide +kernel,.inl (by simp)⟩
  · exact ⟨800000,by decide +kernel,.inl (by simp)⟩
  · exact ⟨1000000,by decide +kernel,.inl (by simp)⟩

theorem is_duplicate (tokens : UInt64) :
    (CONTEXTS.any fun existing => parse_token_count existing.1 = some tokens) = decide (tokens ∈ listed) := by
  rw [Bool.eq_iff_iff,List.any_eq_true,decide_eq_true_eq]
  constructor
  · rintro ⟨context,member,same⟩
    have isCount := List.mem_map_of_mem (f := fun context : String × String => parse_token_count context.1) member
    rw [listed_counts,of_decide_eq_true same] at isCount
    obtain ⟨_,isListed,isSome⟩ := List.mem_map.mp isCount
    cases isSome
    exact isListed
  · intro isListed
    have isCount := List.mem_map_of_mem (f := some) isListed
    rw [← listed_counts] at isCount
    obtain ⟨context,member,same⟩ := List.mem_map.mp isCount
    exact ⟨context,member,decide_eq_true same⟩

theorem options_listed {tokens : UInt64} (isListed : tokens ∈ listed) : context_options (some tokens) = CONTEXTS :=
  if_pos (by rw [is_duplicate]; exact decide_eq_true isListed)
theorem options_custom {tokens : UInt64} (custom : tokens ∉ listed) :
    context_options (some tokens) = CONTEXTS ++ [(printed tokens,s!"{format_token_count tokens} (Custom)")] :=
  if_neg (by rw [is_duplicate]; exact fun isListed => custom (of_decide_eq_true isListed))

/-- The contexts on offer have different counts, and the configured one is among them. -/
theorem options_counts (configured : Option UInt64) : ∃ counts : List UInt64, counts.Nodup ∧ configured.getD 200000 ∈ counts ∧
    (context_options configured).map (fun context => parse_token_count context.1) = counts.map some := by
  have distinct : listed.Nodup := by decide
  cases configured with
  | none => exact ⟨listed,distinct,by decide,listed_counts⟩
  | some tokens =>
    by_cases isListed : tokens ∈ listed
    · refine ⟨listed,distinct,isListed,?_⟩
      rw [options_listed isListed]
      exact listed_counts
    · refine ⟨listed ++ [tokens],?_,List.mem_append_right _ (List.mem_singleton.mpr rfl),?_⟩
      · exact List.nodup_append.mpr ⟨distinct,List.nodup_singleton _,fun a member b single same =>
          isListed (by rw [← List.mem_singleton.mp single,← same]; exact member)⟩
      · rw [options_custom isListed,List.map_append,List.map_append,listed_counts,List.map_singleton,parse_printed]
        rfl

variable {configured : Option UInt64} {context : String × String}

theorem options_cases (member : context ∈ context_options configured) : context ∈ CONTEXTS ∨ ∃ tokens, context.1 = printed tokens := by
  cases configured with
  | none => exact .inl member
  | some tokens =>
    by_cases isListed : tokens ∈ listed
    · rw [options_listed isListed] at member
      exact .inl member
    · rw [options_custom isListed,List.mem_append,List.mem_singleton] at member
      exact member.imp id fun same => ⟨tokens,by rw [same]⟩

theorem options_named (member : context ∈ context_options configured) :
    ∃ tokens, parse_token_count context.1 = some tokens ∧ Names context.1 tokens := by
  rcases options_cases member with known | ⟨tokens,same⟩
  · exact listed_names context known
  · exact ⟨tokens,by rw [same]; exact parse_printed tokens,.inr same⟩

/-- The texts of the grid's parameters hold no separator. -/
def Plain (text : String) : Prop := ∀ c ∈ text.toList, c.isAlphanum = true
instance (text : String) : Decidable (Plain text) :=
  @List.decidableBAll Char (fun c => c.isAlphanum = true) (fun _ => inferInstance) text.toList

theorem options_plain (member : context ∈ context_options configured) : Plain context.1 := by
  rcases options_cases member with known | ⟨tokens,same⟩
  · have all : ∀ context ∈ CONTEXTS, Plain context.1 := by decide +kernel
    exact all context known
  · intro c isChar
    rw [same] at isChar
    simp [Char.isAlphanum,printed_digits tokens c isChar]

/-- A point of the grid: a context, an effort and a speed. -/
abbrev Choice := (String × String) × Option (String × String) × Option Bool

def grid (configured : Option UInt64) (thinking supports_fast : Bool) : List Choice :=
  context_options configured ×ˢ effortGrid thinking ×ˢ fastGrid supports_fast

theorem variants_grid (name display_name : String) (tooltip : TooltipData) (configured : Option UInt64) (thinking supports_fast : Bool) :
    model_variants name display_name tooltip (context_options configured) thinking supports_fast =
      (grid configured thinking supports_fast).map fun choice : Choice =>
        model_variant name display_name tooltip choice.1.1 choice.1.2 choice.2.1 choice.2.2 := by
  simp only [model_variants,grid,SProd.sprod,List.product,List.map_flatMap,List.map_map]
  rfl

section Choices
variable {configured : Option UInt64} {thinking supports_fast : Bool} {choice other : Choice}

theorem mem_grid : choice ∈ grid configured thinking supports_fast ↔
    choice.1 ∈ context_options configured ∧ choice.2.1 ∈ effortGrid thinking ∧ choice.2.2 ∈ fastGrid supports_fast := by
  obtain ⟨context,effort,fast⟩ := choice
  rw [grid,List.mem_product,List.mem_product]

theorem options_inj {context other : String × String} (member : context ∈ context_options configured)
    (member' : other ∈ context_options configured) (same : parse_token_count context.1 = parse_token_count other.1) :
    context = other := by
  obtain ⟨counts,distinct,_,isCounts⟩ := options_counts configured
  have once := distinct.map (Option.some_injective _)
  rw [← isCounts] at once
  exact List.inj_on_of_nodup_map once member member' same

theorem grid_nodup : (grid configured thinking supports_fast).Nodup := by
  obtain ⟨counts,distinct,_,isCounts⟩ := options_counts configured
  have once := distinct.map (Option.some_injective _)
  rw [← isCounts] at once
  have efforts : ∀ thinking, (effortGrid thinking).Nodup := by decide +kernel
  have speeds : ∀ supports_fast, (fastGrid supports_fast).Nodup := by decide
  exact once.of_map.product ((efforts thinking).product (speeds supports_fast))

end Choices

/-! ## The texts of the variants -/

/-- A text that begins with a separator, if with anything. -/
def Apart (text : List Char) : Prop := ∀ c ∈ text.head?, c.isAlphanum = false

theorem word_inj {word other rest rest' : List Char} (plain : ∀ c ∈ word, c.isAlphanum = true)
    (plain' : ∀ c ∈ other, c.isAlphanum = true) (apart : Apart rest) (apart' : Apart rest')
    (same : word ++ rest = other ++ rest') : word = other ∧ rest = rest' := by
  induction word generalizing other with
  | nil =>
    cases other with
    | nil => exact ⟨rfl,same⟩
    | cons c other =>
      rw [List.nil_append] at same
      rw [same] at apart
      exact absurd (plain' c List.mem_cons_self) (by simp [apart c rfl])
  | cons c word ih =>
    cases other with
    | nil =>
      rw [List.nil_append] at same
      rw [← same] at apart'
      exact absurd (plain c List.mem_cons_self) (by simp [apart' c rfl])
    | cons d other =>
      rw [List.cons_append,List.cons_append] at same
      obtain ⟨rfl,isSame⟩ := List.cons.inj same
      obtain ⟨rfl,isRest⟩ := ih (fun c member => plain c (List.mem_cons_of_mem _ member))
        (fun c member => plain' c (List.mem_cons_of_mem _ member)) isSame
      exact ⟨rfl,isRest⟩

def representationTail : Option (String × String) × Option Bool → String
  | (some effort,some fast) => ",reasoning=" ++ effort.1 ++ ",fast=" ++ boolText fast ++ "]"
  | (some effort,none) => ",reasoning=" ++ effort.1 ++ "]"
  | (none,some fast) => ",fast=" ++ boolText fast ++ "]"
  | (none,none) => "]"

theorem representation_text (name context : String) (effort : Option (String × String)) (fast : Option Bool) :
    representation name context effort fast = name ++ "[context=" ++ context ++ representationTail (effort,fast) := by
  match effort, fast with
  | some effort, some fast =>
    have isText : representation name context (some effort) (some fast) =
      name ++ "[context=" ++ context ++ ",reasoning=" ++ effort.1 ++ ",fast=" ++ boolText fast ++ "]" := rfl
    have isTail : representationTail (some effort,some fast) = ",reasoning=" ++ effort.1 ++ ",fast=" ++ boolText fast ++ "]" := rfl
    simp only [isText,isTail,String.append_assoc]
  | some effort, none =>
    have isText : representation name context (some effort) none =
      name ++ "[context=" ++ context ++ ",reasoning=" ++ effort.1 ++ "]" := rfl
    have isTail : representationTail (some effort,none) = ",reasoning=" ++ effort.1 ++ "]" := rfl
    simp only [isText,isTail,String.append_assoc]
  | none, some fast =>
    have isText : representation name context none (some fast) = name ++ "[context=" ++ context ++ ",fast=" ++ boolText fast ++ "]" := rfl
    have isTail : representationTail (none,some fast) = ",fast=" ++ boolText fast ++ "]" := rfl
    simp only [isText,isTail,String.append_assoc]
  | none, none => rfl

def slugTail (point : Option (String × String) × Option Bool) : String :=
  (point.1.map fun effort => "-" ++ effort.1).getD "" ++ if point.2 = some true then "-fast" else ""

theorem slug_text (name context : String) (effort : Option (String × String)) (fast : Option Bool) :
    legacySlug name context effort fast = name ++ "-" ++ context ++ slugTail (effort,fast) := by
  have isText : legacySlug name context effort fast =
    name ++ "-" ++ context ++ (effort.map fun effort => "-" ++ effort.1).getD "" ++ if fast = some true then "-fast" else "" := rfl
  rw [isText,slugTail,String.append_assoc]

section Texts
variable {configured : Option UInt64} {thinking supports_fast : Bool} {choice other : Choice}

def points (thinking supports_fast : Bool) : List (Option (String × String) × Option Bool) :=
  effortGrid thinking ×ˢ fastGrid supports_fast

/-- The tails tell the efforts and speeds apart, and begin with a separator. -/
structure Tells (tail : Option (String × String) × Option Bool → String) : Prop where
  apart : ∀ thinking supports_fast, ∀ point ∈ points thinking supports_fast, Apart (tail point).toList
  distinct : ∀ thinking supports_fast, ((points thinking supports_fast).map tail).Nodup

instance (text : List Char) : Decidable (Apart text) :=
  @Option.decidableForallMem Char (fun c => c.isAlphanum = false) (fun _ => inferInstance) text.head?

theorem representationTail_tells : Tells representationTail := ⟨by decide +kernel,by decide +kernel⟩
theorem slugTail_tells : Tells slugTail := ⟨by decide +kernel,by decide +kernel⟩

theorem texts_distinct (text : Choice → String) (front : String) {tail : Option (String × String) × Option Bool → String}
    (isText : ∀ choice, text choice = front ++ choice.1.1 ++ tail choice.2) (tells : Tells tail) :
    ((grid configured thinking supports_fast).map text).Nodup := by
  refine grid_nodup.map_on fun choice member other member' same => ?_
  obtain ⟨isContext,isPoint⟩ := List.mem_product.mp member
  obtain ⟨isContext',isPoint'⟩ := List.mem_product.mp member'
  have chars := congrArg String.toList same
  rw [isText,isText] at chars
  simp only [String.toList_append,List.append_assoc,List.append_cancel_left_eq] at chars
  obtain ⟨context,rest⟩ := word_inj (options_plain isContext) (options_plain isContext') (tells.apart _ _ _ isPoint)
    (tells.apart _ _ _ isPoint') chars
  have samePoint := List.inj_on_of_nodup_map (tells.distinct thinking supports_fast) isPoint isPoint' (String.toList_injective rest)
  exact Prod.ext (options_inj isContext isContext' (by rw [String.toList_injective context])) samePoint

end Texts

section Default
variable {configured : Option UInt64} {thinking supports_fast : Bool} {choice : Choice} {effort : Option String}

def configuredPoint (configured : Option UInt64) (effort : String) (choice : Choice) : Bool :=
  decide (parse_token_count choice.1.1 = some (configured.getD 200000)) && choice.2.1.all (·.1 = effort) && choice.2.2.all (! ·)

theorem isDefault_variant (name display_name : String) (tooltip : TooltipData) (effort : String) (choice : Choice) :
    isDefault (configured.getD 200000) effort
        (model_variant name display_name tooltip choice.1.1 choice.1.2 choice.2.1 choice.2.2) =
      configuredPoint configured effort choice := by
  obtain ⟨context,some_effort,fast⟩ := choice
  cases some_effort <;> cases fast <;>
    simp [isDefault,model_variant,parameterValues,configuredPoint,boolText,Bool.and_assoc]

theorem filter_single {α : Type} [DecidableEq α] {l : List α} {keep : α → Bool} {a : α} (distinct : l.Nodup) (member : a ∈ l)
    (only : ∀ b ∈ l, keep b = true ↔ b = a) : l.filter keep = [a] := by
  refine List.perm_singleton.mp ((List.perm_ext_iff_of_nodup (distinct.filter _) (List.nodup_singleton a)).mpr fun b => ?_)
  rw [List.mem_filter,List.mem_singleton]
  constructor
  · exact fun ⟨isMember,kept⟩ => (only b isMember).mp kept
  · rintro rfl
    exact ⟨member,(only b member).mpr rfl⟩

theorem effort_point {effort : Option (String × String)} {named : String × String} (isNamed : named ∈ EFFORTS)
    (member : effort ∈ effortGrid thinking) :
    effort.all (·.1 = named.1) = true ↔ effort = if thinking then some named else none := by
  cases thinking with
  | false =>
    obtain rfl := List.mem_singleton.mp member
    simp
  | true =>
    have distinct : (EFFORTS.map (·.1)).Nodup := by decide +kernel
    obtain ⟨one,isOne,rfl⟩ := List.mem_map.mp member
    rw [Option.all_some,decide_eq_true_eq,if_pos rfl,Option.some_inj]
    exact ⟨List.inj_on_of_nodup_map distinct isOne isNamed,fun same => by rw [same]⟩
theorem fast_point : ∀ supports_fast, ∀ fast ∈ fastGrid supports_fast,
    fast.all (! ·) = true ↔ fast = if supports_fast then some false else none := by decide

theorem one_configured (configured : Option UInt64) (thinking supports_fast : Bool)
    (offered : effort.getD "default" ∈ EFFORTS.map (·.1)) :
    ∃ choice, (grid configured thinking supports_fast).filter (configuredPoint configured (effort.getD "default")) = [choice] := by
  obtain ⟨counts,_,known,isCounts⟩ := options_counts configured
  have isCount := List.mem_map_of_mem (f := some) known
  rw [← isCounts] at isCount
  obtain ⟨context,isContext,isDefault_⟩ := List.mem_map.mp isCount
  obtain ⟨named,isEffort,sameName⟩ := List.mem_map.mp offered
  have isSlow : ∀ supports_fast, (if supports_fast then some false else none) ∈ fastGrid supports_fast := by decide
  refine ⟨(context,if thinking then some named else none,if supports_fast then some false else none),
    filter_single grid_nodup (mem_grid.mpr ⟨isContext,?_,isSlow supports_fast⟩) fun ⟨context',effort',fast'⟩ member => ?_⟩
  · cases thinking with
    | false => exact List.mem_singleton.mpr rfl
    | true => exact List.mem_map_of_mem isEffort
  · obtain ⟨isContext',isEffort',isFast'⟩ := mem_grid.mp member
    have sameContext : decide (parse_token_count context'.1 = some (configured.getD 200000)) = true ↔ context' = context := by
      rw [decide_eq_true_eq,← isDefault_]
      exact ⟨options_inj isContext' isContext,fun same => by rw [same]⟩
    rw [configuredPoint,Bool.and_eq_true,Bool.and_eq_true,sameContext,← sameName,effort_point isEffort isEffort',
      fast_point _ _ isFast',and_assoc]
    exact ⟨fun ⟨one,two,three⟩ => Prod.ext one (Prod.ext two three),fun same => by cases same; exact ⟨rfl,rfl,rfl⟩⟩

end Default

theorem requested_effort : ∀ effort ∈ EFFORTS, requestedEffort effort.1 = if effort.1 = "default" then none else some effort.1 := by
  decide +kernel

section Selection
variable {configured : Option UInt64} {thinking supports_fast : Bool} {choice : Choice} {request : AgentRunRequest}
variable {requested : RequestedModel}

theorem context_read {context : String} {tokens : UInt64} (isCount : parse_token_count context = some tokens) (spec : ModelSpec) :
    readParameter spec ⟨"context",context⟩ = .ok { spec with context_window_tokens := some tokens } := by
  unfold readParameter
  simp [isCount]

def withEffort (spec : ModelSpec) (effort : Option (String × String)) : ModelSpec :=
  { spec with
    reasoning.effort := effort.elim spec.reasoning.effort (requestedEffort ·.1)
    reasoning.enabled := spec.reasoning.enabled || effort.any fun effort => (requestedEffort effort.1).isSome }
def withSpeed (spec : ModelSpec) (fast : Option Bool) : ModelSpec :=
  if fast = some true then { spec with latency := .Fast } else spec

section
variable (spec : ModelSpec)
include spec

theorem withSpeed_context (fast : Option Bool) : (withSpeed spec fast).context_window_tokens = spec.context_window_tokens := by
  unfold withSpeed
  split <;> rfl
theorem withSpeed_effort (fast : Option Bool) : (withSpeed spec fast).reasoning.effort = spec.reasoning.effort := by
  unfold withSpeed
  split <;> rfl
theorem withSpeed_latency (fast : Option Bool) : (withSpeed spec fast).latency = if fast = some true then .Fast else spec.latency := by
  unfold withSpeed
  split <;> rfl
theorem withEffort_effort (effort : Option (String × String)) :
    (withEffort spec effort).reasoning.effort = effort.elim spec.reasoning.effort (requestedEffort ·.1) := rfl

theorem effort_read (effort : Option (String × String)) :
    (effort.map fun effort => (⟨"reasoning",effort.1⟩ : ModelParameterValue)).toList.foldlM readParameter spec =
      .ok (withEffort spec effort) := by
  cases effort with
  | none => simp [withEffort,pure,Except.pure]
  | some effort => simp [withEffort,readParameter,pure,Except.pure,bind,Except.bind]
theorem speed_read (fast : Option Bool) :
    (fast.map fun fast => (⟨"fast",boolText fast⟩ : ModelParameterValue)).toList.foldlM readParameter spec =
      .ok (withSpeed spec fast) := by
  match fast with
  | none => simp [withSpeed,pure,Except.pure]
  | some false => simp [withSpeed,readParameter,parse_bool,boolText,pure,Except.pure,bind,Except.bind]
  | some true => simp [withSpeed,readParameter,parse_bool,boolText,pure,Except.pure,bind,Except.bind]

theorem choice_read {tokens : UInt64} (isCount : parse_token_count choice.1.1 = some tokens)
    (standard : spec.latency = .Standard) (unset : spec.reasoning.effort = none) :
    ∃ read, (parameterValues choice.1.1 choice.2.1 choice.2.2).foldlM readParameter spec = .ok read ∧
      read.context_window_tokens = some tokens ∧ read.reasoning.effort = choice.2.1.bind (requestedEffort ·.1) ∧
      read.latency = if choice.2.2 = some true then .Fast else .Standard := by
  have isRead : ∀ (first second third : List ModelParameterValue) {a b c d : ModelSpec},
      first.foldlM readParameter a = .ok b → second.foldlM readParameter b = .ok c → third.foldlM readParameter c = .ok d →
        (first ++ second ++ third).foldlM readParameter a = .ok d := by
    intro first second third a b c d one two three
    rw [List.foldlM_append,List.foldlM_append,one]
    change (second.foldlM readParameter b >>= fun c => third.foldlM readParameter c) = .ok d
    rw [two]
    exact three
  refine ⟨withSpeed (withEffort { spec with context_window_tokens := some tokens } choice.2.1) choice.2.2,
    isRead _ _ _ ?_ (effort_read _ _) (speed_read _ _),?_,?_,?_⟩
  · rw [List.foldlM_cons,context_read isCount]
    rfl
  · rw [withSpeed_context]
    rfl
  · rw [withSpeed_effort,withEffort_effort,unset]
    cases choice.2.1 <;> rfl
  · rw [withSpeed_latency]
    exact congrArg (fun latency => if choice.2.2 = some true then _ else latency) standard

end

end Selection

def CONFIGURABLE : List String := ["low","medium","high","xhigh","max"]

theorem bind_ok {α β : Type} {x : Except Error α} {f : α → Except Error β} {b : β} :
    (x >>= f) = .ok b ↔ ∃ a, x = .ok a ∧ f a = .ok b := by
  cases x with
  | error e => exact ⟨nofun,fun ⟨_,failed,_⟩ => nomatch failed⟩
  | ok a => exact ⟨fun same => ⟨a,rfl,same⟩,fun ⟨_,isA,same⟩ => by cases isA; exact same⟩

theorem normalized_effort {value : Option String} {allow_empty : Bool} {effort : Option String}
    (normalized : normalize_effort value allow_empty = .ok effort) : ∀ e ∈ effort, e ∈ CONFIGURABLE := by
  unfold normalize_effort at normalized
  dsimp only at normalized
  split at normalized
  · obtain rfl := Except.ok.inj normalized
    nofun
  · split at normalized
    · rename_i known
      obtain rfl := Except.ok.inj normalized
      intro e isEffort
      obtain rfl := Option.some.inj isEffort
      exact known
    · simp only [reduceCtorEq] at normalized

theorem optional_effort {thinking : Bool} {model_type wanted : ModelType} {value effort : Option String} {allow_empty : Bool}
    (read : (if thinking = true ∧ model_type = wanted then normalize_effort value allow_empty else .ok none) = .ok effort) :
    (∀ e ∈ effort, e ∈ CONFIGURABLE) ∧ (thinking = false → effort = none) := by
  split at read
  · rename_i both
    exact ⟨normalized_effort read,fun off => by rw [both.1] at off; cases off⟩
  · obtain rfl := Except.ok.inj read
    exact ⟨nofun,fun _ => rfl⟩

theorem accepted_efforts [Urls] {input normalized : ModelConfigInput} (accepted : normalize_model_input input = .ok normalized) :
    ((∀ e ∈ normalized.reasoning_effort, e ∈ CONFIGURABLE) ∧
      (normalized.supports_thinking = false → normalized.reasoning_effort = none)) ∧
    (∀ e ∈ normalized.anthropic_thinking_effort, e ∈ CONFIGURABLE) ∧
      (normalized.supports_thinking = false → normalized.anthropic_thinking_effort = none) := by
  simp only [normalize_model_input,bind_ok] at accepted
  obtain ⟨_,-,_,-,_,-,_,-,_,-,reasoning,isReasoning,anthropic,isAnthropic,_,-,_,-,_,-,_,-,_,-,_,-,_,-,_,-,_,-,_,-,isNormal⟩ := accepted
  obtain rfl := Except.ok.inj isNormal
  exact ⟨optional_effort isReasoning,optional_effort isAnthropic⟩

theorem configurable_offered : ∀ e ∈ CONFIGURABLE, e ∈ EFFORTS.map (·.1) ∧ e ≠ "default" := by decide +kernel

section Accepted
variable [Urls] {input : ModelConfigInput} {model : ModelConfig}

section
variable (accepted : normalize_model_input input = .ok model.toModelConfigInput)
include accepted

theorem effort_known : ∀ e ∈ model.effort, e ∈ CONFIGURABLE := by
  obtain ⟨⟨reasoning,_⟩,anthropic,_⟩ := accepted_efforts accepted
  unfold ModelConfig.effort
  split
  · exact reasoning
  · exact anthropic
theorem effort_offered : model.effort.getD "default" ∈ EFFORTS.map (·.1) := by
  cases isEffort : model.effort with
  | none => decide +kernel
  | some e => exact (configurable_offered e (effort_known accepted e isEffort)).1
theorem effort_named {e : String} (isEffort : model.effort = some e) : e ≠ "default" :=
  (configurable_offered e (effort_known accepted e isEffort)).2
theorem effort_off (off : model.supports_thinking = false) : model.effort = none := by
  obtain ⟨⟨_,reasoning⟩,_,anthropic⟩ := accepted_efforts accepted
  unfold ModelConfig.effort
  split
  · exact reasoning off
  · exact anthropic off

end

end Accepted

def ModelVariant.parameter (variant : ModelVariant) (id : String) : Option String :=
  (variant.parameter_values.find? (·.id = id)).map (·.value)

/-- A run of the variant has the context, effort and latency that the variant names. -/
structure Selects (model : ModelConfig) (variant : ModelVariant) (spec : ModelSpec) : Prop where
  context : ∃ context tokens, variant.parameter "context" = some context ∧ Names context tokens ∧ spec.context_window_tokens = some tokens
  effort : spec.reasoning.effort =
    (variant.parameter "reasoning").bind fun effort => if effort = "default" then model.effort else some effort
  latency : spec.latency = if variant.parameter "fast" = some "true" then .Fast else .Standard

/-- A run of the default variant has the configured values. -/
structure Configured (model : ModelConfig) (spec : ModelSpec) : Prop where
  context : spec.context_window_tokens = some (model.context_window_tokens.getD 200000)
  effort : spec.reasoning.effort = model.effort
  latency : spec.latency = .Standard

structure RoundTrips [Urls] (model : ModelConfig) : Prop where
  one_default : ∃ variant, (available_model model).variants.filter (·.is_default_non_max_config = some true) = [variant]
  marks : ∀ variant ∈ (available_model model).variants, variant.is_default_max_config = variant.is_default_non_max_config
  representations : ∃ texts : List String, texts.Nodup ∧
    (available_model model).variants.map (·.variant_string_representation) = texts.map some
  slugs : (available_model model).legacy_slugs.Nodup ∧
    (available_model model).variants.map (·.legacy_slug) = (available_model model).legacy_slugs.map some
  selected : ∀ variant ∈ (available_model model).variants, ∀ request requested, request.requested_model = some requested →
    requested.parameters = variant.parameter_values →
      ∃ spec, requested_model request = .ok spec ∧ Selects model variant (model.configure spec) ∧
        (variant.is_default_non_max_config = some true → Configured model (model.configure spec))

def variantOf (model : ModelConfig) (choice : Choice) : ModelVariant :=
  markDefault (configuredPoint model.context_window_tokens (model.effort.getD "default") choice)
    (model_variant model.model_hash model.display_name (model_tooltip model) choice.1.1 choice.1.2 choice.2.1 choice.2.2)
def gridOf (model : ModelConfig) : List Choice :=
  grid model.context_window_tokens model.supports_thinking model.supports_fast

def representationOf (model : ModelConfig) (choice : Choice) : String :=
  representation model.model_hash choice.1.1 choice.2.1 choice.2.2
def slugOf (model : ModelConfig) (choice : Choice) : String := legacySlug model.model_hash choice.1.1 choice.2.1 choice.2.2

section Variant
variable {model : ModelConfig} {choice : Choice}

theorem marked_iff : (variantOf model choice).is_default_non_max_config = some true ↔
    configuredPoint model.context_window_tokens (model.effort.getD "default") choice = true := by
  cases isPoint : configuredPoint model.context_window_tokens (model.effort.getD "default") choice <;>
    simp [variantOf,markDefault,isPoint]

theorem variant_parameters (model : ModelConfig) (choice : Choice) : (variantOf model choice).parameter "context" = some choice.1.1 ∧
    (variantOf model choice).parameter "reasoning" = choice.2.1.map (·.1) ∧
    (variantOf model choice).parameter "fast" = choice.2.2.map boolText := by
  obtain ⟨context,effort,fast⟩ := choice
  cases effort <;> cases fast <;> exact ⟨rfl,rfl,rfl⟩

theorem configured_context (model : ModelConfig) (spec : ModelSpec) {tokens : UInt64} (known : spec.context_window_tokens = some tokens) :
    (model.configure spec).context_window_tokens = some tokens := by
  cases isLimit : model.max_output_tokens <;> simp [ModelConfig.configure,ModelSpec.limit_output_tokens,isLimit,known]
theorem configured_effort (model : ModelConfig) (spec : ModelSpec) : (model.configure spec).reasoning.effort =
    if model.supports_thinking then spec.reasoning.effort.or model.effort else none := by
  cases isLimit : model.max_output_tokens <;>
    simp only [ModelConfig.configure,ModelSpec.limit_output_tokens,isLimit,ModelConfig.configureReasoning] <;> split <;> rfl
theorem configured_latency (model : ModelConfig) (spec : ModelSpec) :
    (model.configure spec).latency = if model.supports_fast then spec.latency else .Standard := by
  cases isLimit : model.max_output_tokens <;> simp [ModelConfig.configure,ModelSpec.limit_output_tokens,isLimit]

theorem representations_distinct : ((gridOf model).map (representationOf model)).Nodup :=
  texts_distinct _ _ (fun choice => representation_text model.model_hash choice.1.1 choice.2.1 choice.2.2) representationTail_tells
theorem slugs_distinct : ((gridOf model).map (slugOf model)).Nodup :=
  texts_distinct _ _ (fun choice => slug_text model.model_hash choice.1.1 choice.2.1 choice.2.2) slugTail_tells

/-- The effort of a point of the grid is the one that it names, or the configured one. -/
theorem effort_selected (isChoice : choice ∈ gridOf model) :
    (if model.supports_thinking then (choice.2.1.bind (requestedEffort ·.1)).or model.effort else none) =
      (choice.2.1.map (·.1)).bind fun effort => if effort = "default" then model.effort else some effort := by
  obtain ⟨_,isEffort,_⟩ := mem_grid.mp isChoice
  cases thinks : model.supports_thinking with
  | false =>
    rw [thinks] at isEffort
    rw [List.mem_singleton.mp isEffort]
    rfl
  | true =>
    rw [thinks] at isEffort
    obtain ⟨effort,known,same⟩ := List.mem_map.mp isEffort
    rw [← same,if_pos rfl,Option.bind_some,Option.map_some,Option.bind_some,requested_effort effort known]
    by_cases plain : effort.1 = "default"
    · rw [if_pos plain,if_pos plain,Option.none_or]
    · rw [if_neg plain,if_neg plain,Option.some_or]
theorem speed_selected (isChoice : choice ∈ gridOf model) :
    (if model.supports_fast then if choice.2.2 = some true then ModelLatency.Fast else .Standard else .Standard) =
      if choice.2.2.map boolText = some "true" then .Fast else .Standard := by
  obtain ⟨_,_,isFast⟩ := mem_grid.mp isChoice
  have all : ∀ supports_fast, ∀ fast ∈ fastGrid supports_fast,
      (if supports_fast then if fast = some true then ModelLatency.Fast else .Standard else .Standard) =
        if fast.map boolText = some "true" then .Fast else .Standard := by decide
  exact all _ _ isFast

theorem speed_configured (slow : choice.2.2.all (! ·) = true) :
    (if choice.2.2.map boolText = some "true" then ModelLatency.Fast else .Standard) = .Standard := by
  refine if_neg fun isFast => ?_
  match choice.2.2, slow, isFast with
  | some false, _, isFast => exact absurd isFast (by decide)

end Variant

section RoundTrip
variable [Urls] {input : ModelConfigInput} {model : ModelConfig} {choice : Choice}

theorem available_variants (model : ModelConfig) : (available_model model).variants = (gridOf model).map (variantOf model) := by
  rw [available_model]
  dsimp only
  rw [variants_grid,List.map_map]
  refine List.map_congr_left fun choice _ => ?_
  rw [Function.comp_apply,isDefault_variant]
  rfl

theorem available_slugs (model : ModelConfig) : (available_model model).legacy_slugs = (gridOf model).map (slugOf model) := by
  have isSlugs : (available_model model).legacy_slugs = (available_model model).variants.filterMap (·.legacy_slug) := rfl
  rw [isSlugs,available_variants,List.filterMap_map,← List.filterMap_eq_map]
  rfl

theorem effort_configured (accepted : normalize_model_input input = .ok model.toModelConfigInput) (isChoice : choice ∈ gridOf model)
    (same : choice.2.1.all (·.1 = model.effort.getD "default") = true) :
    ((choice.2.1.map (·.1)).bind fun effort => if effort = "default" then model.effort else some effort) = model.effort := by
  obtain ⟨_,isEffort,_⟩ := mem_grid.mp isChoice
  cases effort : choice.2.1 with
  | none =>
    rw [effort] at isEffort
    have off : model.supports_thinking = false := by
      cases thinks : model.supports_thinking with
      | false => rfl
      | true =>
        rw [thinks] at isEffort
        obtain ⟨_,_,isSome⟩ := List.mem_map.mp isEffort
        cases isSome
    exact (effort_off accepted off).symm
  | some one =>
    rw [effort,Option.all_some,decide_eq_true_eq] at same
    rw [Option.map_some,Option.bind_some,same]
    cases isConfigured : model.effort with
    | none => exact if_pos rfl
    | some e => exact if_neg (effort_named accepted isConfigured)

theorem choice_selected {request : AgentRunRequest} {requested : RequestedModel}
    (accepted : normalize_model_input input = .ok model.toModelConfigInput) (isChoice : choice ∈ gridOf model)
    (isRequested : request.requested_model = some requested)
    (isParameters : requested.parameters = (variantOf model choice).parameter_values) :
    ∃ spec, requested_model request = .ok spec ∧ Selects model (variantOf model choice) (model.configure spec) ∧
      ((variantOf model choice).is_default_non_max_config = some true → Configured model (model.configure spec)) := by
  obtain ⟨isContext,_,_⟩ := mem_grid.mp isChoice
  obtain ⟨tokens,isCount,named⟩ := options_named isContext
  obtain ⟨hasContext,hasEffort,hasSpeed⟩ := variant_parameters model choice
  obtain ⟨spec,isRead,context,effort,speed⟩ := choice_read (plainSpec requested.model_id request.model_details
    (requested.max_mode || hasThinking request.model_details)) isCount rfl rfl
  have isContext_ := configured_context model spec context
  have isEffort := configured_effort model spec
  have isLatency := configured_latency model spec
  rw [effort,effort_selected isChoice] at isEffort
  rw [speed,speed_selected isChoice] at isLatency
  refine ⟨spec,?_,⟨⟨_,tokens,hasContext,named,isContext_⟩,by rw [isEffort,hasEffort],by rw [isLatency,hasSpeed]⟩,
    fun marked => ?_⟩
  · rw [requested_model,isRequested]
    dsimp only
    rw [from_requested,isParameters]
    exact isRead
  · have point := marked_iff.mp marked
    rw [configuredPoint,Bool.and_eq_true,Bool.and_eq_true,decide_eq_true_eq,isCount] at point
    obtain ⟨⟨sameContext,sameEffort⟩,slow⟩ := point
    exact ⟨isContext_.trans sameContext,isEffort.trans (effort_configured accepted isChoice sameEffort),
      isLatency.trans (speed_configured slow)⟩

/-- The variants of an accepted configuration are told apart, one is the default, and each is selected as it is named. -/
theorem selection_round_trips (accepted : normalize_model_input input = .ok model.toModelConfigInput) : RoundTrips model := by
  have variants := available_variants model
  refine ⟨?_,?_,?_,?_,?_⟩
  · obtain ⟨choice,single⟩ := one_configured model.context_window_tokens model.supports_thinking model.supports_fast
      (effort_offered accepted)
    refine ⟨variantOf model choice,?_⟩
    have isMark : (fun variant : ModelVariant => decide (variant.is_default_non_max_config = some true)) ∘ variantOf model =
        configuredPoint model.context_window_tokens (model.effort.getD "default") := by
      funext other
      rw [Bool.eq_iff_iff,Function.comp_apply,decide_eq_true_eq]
      exact marked_iff
    rw [variants,List.filter_map,isMark,gridOf,single,List.map_singleton]
  · intro variant member
    rw [variants] at member
    obtain ⟨choice,_,rfl⟩ := List.mem_map.mp member
    rfl
  · refine ⟨(gridOf model).map (representationOf model),representations_distinct,?_⟩
    rw [variants,List.map_map,List.map_map]
    exact List.map_congr_left fun _ _ => rfl
  · rw [available_slugs]
    refine ⟨slugs_distinct,?_⟩
    rw [variants,List.map_map,List.map_map]
    exact List.map_congr_left fun _ _ => rfl
  · intro variant member request requested isRequested isParameters
    rw [variants] at member
    obtain ⟨choice,isChoice,rfl⟩ := List.mem_map.mp member
    exact choice_selected accepted isChoice isRequested isParameters

end RoundTrip

@[reducible] def providerUrls : Urls where
  parse text :=
    if text = "https://provider.example/v1/chat/completions" then .ok ⟨"https",some "provider.example",none,"/v1/chat/completions"⟩
    else .error "relative URL without a base"
  set_path text _ := text
  to_lowercase := to_ascii_lowercase

def customInput : ModelConfigInput where
  sort_order := 0
  display_name := "Local Model"
  group_name := none
  model_type := .OpenAi
  base_url := "https://provider.example/v1/chat/completions"
  use_full_url := true
  api_key := "provider-secret"
  tooltip_data := "Local Model"
  model_id := "upstream-model"
  supports_thinking := true
  supports_images := false
  supports_fast := true
  reasoning_effort := some "xhigh"
  openai_endpoint := OPENAI_CHAT_ENDPOINT
  openai_extra_params_enabled := false
  openai_extra_params := .Object []
  custom_headers_enabled := false
  custom_headers := .Object []
  anthropic_extra_params_enabled := false
  anthropic_extra_params := .Object []
  context_window_tokens := some 123456
  max_completion_tokens := some 8192
  anthropic_max_tokens := none
  anthropic_thinking_effort := none
  thinking_budget_tokens := none

theorem custom_round_trips : @RoundTrips providerUrls ⟨customInput,"local-model-hash","config-hash",0,0⟩ :=
  @selection_round_trips providerUrls customInput ⟨customInput,"local-model-hash","config-hash",0,0⟩ (by rfl)

end MyCursor.ModelCatalog
