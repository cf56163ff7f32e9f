import MyCursor.CommitMessage
import MyCursor.Fallible
import MyCursor.ModelCatalog

/-!
# The identity of a model

`model_config_hash` of `model/configuration.rs` over `normalize_model_input`: the hash of
a configuration is that of some of its fields, written one below the other. The fields
may have lines of their own.
-/
namespace MyCursor.ModelIdentity
open Text ModelCatalog
set_option linter.unusedSectionVars false

class Sha256 where
  short : String → String

/-- What tells two models apart; Anthropic models have no endpoint. -/
structure Identity where
  request_url : String
  model_id : String
  api_key : String
  display_name : String
  openai_endpoint : Option String
deriving DecidableEq

def Identity.parts (self : Identity) : List String :=
  [self.request_url,self.model_id,self.api_key,self.display_name] ++ self.openai_endpoint.toList

section Hash
variable [Urls] [Sha256]

def model_config_hash (input : ModelConfigInput) : Except Error String := do
  let normalized ← normalize_model_input input
  let request_url ← resolve_request_url normalized.model_type normalized.base_url normalized.openai_endpoint normalized.use_full_url
  let parts := [request_url,normalized.model_id,normalized.api_key,normalized.display_name]
  let parts := if normalized.model_type = .OpenAi then parts ++ [normalized.openai_endpoint] else parts
  .ok (Sha256.short ("\n".intercalate parts))

/-- What the hash of a normalised input is computed from. -/
def identityOf (normalized : ModelConfigInput) : Except Error Identity := do
  let request_url ← resolve_request_url normalized.model_type normalized.base_url normalized.openai_endpoint normalized.use_full_url
  .ok {
    request_url
    model_id := normalized.model_id
    api_key := normalized.api_key
    display_name := normalized.display_name
    openai_endpoint := if normalized.model_type = .OpenAi then some normalized.openai_endpoint else none }
def identity (input : ModelConfigInput) : Except Error Identity := do
  let normalized ← normalize_model_input input
  identityOf normalized
def hashOf (identity : Identity) : String := Sha256.short ("\n".intercalate identity.parts)

theorem model_config_hash_eq (input : ModelConfigInput) : model_config_hash input = (identity input).map hashOf := by
  rw [model_config_hash,identity]
  cases normalize_model_input input with
  | error error => rfl
  | ok normalized =>
    show (resolve_request_url _ _ _ _ >>= _) = (identityOf normalized).map hashOf
    rw [identityOf]
    cases resolve_request_url normalized.model_type normalized.base_url normalized.openai_endpoint normalized.use_full_url with
    | error error => rfl
    | ok request_url =>
      show Except.ok _ = Except.ok _
      cases normalized.model_type <;> rfl

end Hash

def linesOf (part : String) : List (List Char) := part.toList.splitOn '\n'

/-- Read line by line both are the same, but their fields have different numbers of lines. -/
def Shifted (a b : Identity) : Prop :=
  a.parts.flatMap linesOf = b.parts.flatMap linesOf ∧
    a.parts.map (fun part => (linesOf part).length) ≠ b.parts.map fun part => (linesOf part).length

theorem splitOn_intercalate {parts : List (List Char)} (given : parts ≠ []) :
    (['\n'].intercalate parts).splitOn '\n' = parts.flatMap (·.splitOn '\n') := by
  induction parts with
  | nil => exact absurd rfl given
  | cons part rest ih =>
    cases rest with
    | nil => rw [List.intercalate_singleton,List.flatMap_singleton]
    | cons next rest =>
      rw [List.intercalate_cons_cons,List.append_assoc,List.singleton_append,List.splitOn_append_cons_self,ih (List.cons_ne_nil _ _)]
      rfl
theorem splitOn_inj {first second : List Char} : first.splitOn '\n' = second.splitOn '\n' ↔ first = second := by
  constructor
  · intro same
    have joined := congrArg (['\n'].intercalate ·) same
    rwa [List.intercalate_splitOn,List.intercalate_splitOn] at joined
  · exact congrArg _
theorem joined_inj {first second : List String} (given : first ≠ []) (given' : second ≠ []) :
    "\n".intercalate first = "\n".intercalate second ↔ first.flatMap linesOf = second.flatMap linesOf := by
  rw [← String.toList_inj,String.toList_intercalate,String.toList_intercalate,← splitOn_inj]
  have mapped (parts : List String) (given : parts ≠ []) :
      (("\n".toList).intercalate (parts.map String.toList)).splitOn '\n' = parts.flatMap linesOf := by
    refine (splitOn_intercalate ?_).trans ?_
    · exact fun empty => given (List.map_eq_nil_iff.mp empty)
    · rw [List.flatMap_map]
      rfl
  rw [mapped first given,mapped second given']
theorem parts_ne (a : Identity) : a.parts ≠ [] := List.cons_ne_nil _ _
theorem parts_inj {a b : Identity} : a.parts = b.parts ↔ a = b := by
  constructor
  · intro same
    obtain ⟨url,id,key,name,endpoint⟩ := a
    obtain ⟨url',id',key',name',endpoint'⟩ := b
    simp only [Identity.parts,List.cons_append,List.nil_append,List.cons.injEq] at same
    obtain ⟨rfl,rfl,rfl,rfl,same⟩ := same
    obtain rfl : endpoint = endpoint' := by
      cases endpoint <;> cases endpoint' <;> simp_all
    rfl
  · exact congrArg _

theorem lines_inj {a b : Identity} : (a.parts.flatMap linesOf = b.parts.flatMap linesOf ∧
    a.parts.map (fun part => (linesOf part).length) = b.parts.map fun part => (linesOf part).length) ↔ a = b := by
  rw [← parts_inj]
  constructor
  · rintro ⟨lines,counts⟩
    have same : a.parts.map linesOf = b.parts.map linesOf := by
      rw [List.eq_iff_flatten_eq,List.map_map,List.map_map]
      exact ⟨by simpa only [List.flatMap_def] using lines,counts⟩
    refine List.map_injective_iff.mpr (fun first second lines => ?_) same
    exact String.toList_inj.mp (splitOn_inj.mp lines)
  · intro same
    rw [same]
    exact ⟨rfl,rfl⟩

section Hash
variable [Sha256] {a b : Identity}

theorem hashOf_inj (injective : Function.Injective Sha256.short) :
    hashOf a = hashOf b ↔ a.parts.flatMap linesOf = b.parts.flatMap linesOf :=
  injective.eq_iff.trans (joined_inj (parts_ne a) (parts_ne b))
theorem hashOf_iff (injective : Function.Injective Sha256.short) : (hashOf a = hashOf b ↔ a = b) ↔ ¬ Shifted a b := by
  rw [hashOf_inj injective,Shifted]
  constructor
  · rintro same ⟨lines,counts⟩
    exact counts (lines_inj.mpr (same.mp lines)).2
  · intro unshifted
    constructor
    · intro lines
      by_contra other
      exact unshifted ⟨lines,fun counts => other (lines_inj.mp ⟨lines,counts⟩)⟩
    · rintro rfl
      rfl

end Hash

variable {label : String} {value effort : Option String}

theorem required_twice {value text : String} (read : required value label = .ok text) : required text label = .ok text := by
  rw [required] at read ⊢
  split_ifs at read with empty
  obtain rfl := Except.ok.inj read
  rw [trim_trim,if_neg empty]
theorem positive_twice {value count : Option UInt64} (read : positive value label = .ok count) : positive count label = .ok count := by
  unfold positive at read ⊢
  split at read
  · cases read
  · rename_i isPositive
    obtain rfl := Except.ok.inj read
    split
    · exact absurd rfl isPositive
    · rfl
theorem configurable_kept : ∀ effort ∈ CONFIGURABLE, to_ascii_lowercase (trim effort) = effort ∧ effort.isEmpty = false := by
  decide +kernel
theorem no_effort : normalize_effort none true = .ok none := by decide +kernel
theorem effort_read {effort : String} (known : effort ∈ CONFIGURABLE) (allow_empty : Bool) :
    normalize_effort (some effort) allow_empty = .ok (some effort) := by
  obtain ⟨same,given⟩ := configurable_kept effort known
  unfold normalize_effort
  rw [Option.getD_some,same]
  dsimp only
  rw [given,Bool.false_and,if_neg Bool.false_ne_true]
  exact if_pos known
theorem effort_twice {allow_empty : Bool} (read : normalize_effort value allow_empty = .ok effort) :
    normalize_effort effort allow_empty = .ok effort := by
  cases effort with
  | some effort => exact effort_read (normalized_effort read effort rfl) allow_empty
  | none =>
    cases allow_empty with
    | true => exact no_effort
    | false =>
      unfold normalize_effort at read
      extract_lets at read
      rw [Bool.and_false,if_neg Bool.false_ne_true] at read
      split_ifs at read
      cases read
theorem effort_given (read : normalize_effort value false = .ok effort) : effort.isSome = true := by
  unfold normalize_effort at read
  extract_lets at read
  rw [Bool.and_false,if_neg Bool.false_ne_true] at read
  split_ifs at read
  rw [← Except.ok.inj read]
  rfl
theorem endpoints_kept : normalize_openai_endpoint OPENAI_RESPONSES_ENDPOINT = .ok OPENAI_RESPONSES_ENDPOINT ∧
    normalize_openai_endpoint OPENAI_CHAT_ENDPOINT = .ok OPENAI_CHAT_ENDPOINT := by decide +kernel
theorem endpoint_twice {value endpoint : String} (read : normalize_openai_endpoint value = .ok endpoint) :
    normalize_openai_endpoint endpoint = .ok endpoint := by
  unfold normalize_openai_endpoint at read
  extract_lets at read
  split_ifs at read
  · rw [← Except.ok.inj read]
    exact endpoints_kept.1
  · rw [← Except.ok.inj read]
    exact endpoints_kept.2
theorem optional_twice {condition : Prop} [Decidable condition] {allow_empty : Bool}
    (read : (if condition then normalize_effort value allow_empty else .ok none) = .ok effort) :
    (if condition then normalize_effort effort allow_empty else .ok none) = .ok effort := by
  split_ifs at read ⊢
  · exact effort_twice read
  · exact read
theorem params_kept {condition : Prop} [Decidable condition] {value : MyCursor.Message.Value} {accepted : Unit}
    (read : validate_object value label = .ok accepted) :
    validate_object (if condition then value else .Object []) label = .ok () := by
  split_ifs
  · exact read
  · rfl
theorem group_twice (group_name : Option String) :
    ((((group_name.map trim).filter fun value => !value.isEmpty).map trim).filter fun value => !value.isEmpty) =
      (group_name.map trim).filter fun value => !value.isEmpty := by
  cases group_name with
  | none => rfl
  | some group =>
    cases empty : (trim group).isEmpty with
    | true => simp only [Option.map_some,Option.filter_some,empty,Bool.not_true,Bool.false_eq_true,if_false,Option.map_none,
        Option.filter_none]
    | false => simp only [Option.map_some,Option.filter_some,empty,Bool.not_false,if_true,trim_trim]

section Twice
variable [Urls] {input normalized : ModelConfigInput}

theorem url_twice {value url : String} (read : normalize_request_url value = .ok url) : normalize_request_url url = .ok url := by
  have isUrl : url = trim value := by
    rw [normalize_request_url] at read
    split at read
    · cases read
    · split_ifs at read
      exact (Except.ok.inj read).symm
  rw [normalize_request_url] at read ⊢
  rw [isUrl,trim_trim]
  rw [isUrl] at read
  exact read

theorem anthropic_twice {effort : Option String} (read : anthropicEffort input = .ok effort)
    (thinking : normalized.supports_thinking = input.supports_thinking) (type : normalized.model_type = input.model_type)
    (kept : normalized.anthropic_thinking_effort = effort) : anthropicEffort normalized = .ok effort := by
  unfold anthropicEffort at read ⊢
  rw [thinking,type,kept]
  split_ifs at read ⊢
  · obtain ⟨effort,rfl⟩ := Option.isSome_iff_exists.mp (effort_given read)
    exact effort_twice read
  · exact read
theorem endpoint_kept {endpoint : String} (read : openaiEndpoint input = .ok endpoint)
    (type : normalized.model_type = input.model_type) (kept : normalized.openai_endpoint = endpoint) :
    openaiEndpoint normalized = .ok endpoint := by
  unfold openaiEndpoint at read ⊢
  rw [type,kept]
  cases isType : input.model_type with
  | OpenAi =>
    rw [isType] at read
    exact endpoint_twice read
  | Anthropic =>
    rw [isType] at read
    exact read
theorem budget_twice {budget : Option UInt64} (read : thinkingBudget input = .ok budget)
    (thinking : normalized.supports_thinking = input.supports_thinking) (kept : normalized.thinking_budget_tokens = budget) :
    thinkingBudget normalized = .ok budget := by
  unfold thinkingBudget at read ⊢
  rw [thinking,kept]
  split_ifs at read ⊢
  · exact positive_twice read
  · exact read

theorem normalize_twice (accepted : normalize_model_input input = .ok normalized) :
    normalize_model_input normalized = .ok normalized := by
  simp only [normalize_model_input,Fallible.bind_ok] at accepted
  obtain ⟨display_name,isName,base_url,isUrl,api_key,isKey,tooltip_data,isTooltip,model_id,isId,reasoning,isReasoning,
    anthropic,isAnthropic,endpoint,isEndpoint,_,isParams,_,areParams,_,areHeaders,context,isContext,completion,isCompletion,
    tokens,areTokens,budget,isBudget,_,inBudget,url,resolved,isNormal⟩ := accepted
  obtain rfl := Except.ok.inj isNormal
  simp only [normalize_model_input,Fallible.bind_ok]
  refine ⟨_,required_twice isName,_,url_twice isUrl,_,required_twice isKey,_,required_twice isTooltip,_,required_twice isId,
    reasoning,optional_twice isReasoning,anthropic,anthropic_twice isAnthropic rfl rfl rfl,endpoint,endpoint_kept isEndpoint rfl rfl,
    (),params_kept isParams,(),params_kept areParams,(),areHeaders,_,positive_twice isContext,_,positive_twice isCompletion,
    _,positive_twice areTokens,budget,budget_twice isBudget rfl rfl,(),inBudget,url,resolved,?_⟩
  rw [max_eq_left (le_max_right input.sort_order 0),group_twice]
  cases input.model_type <;> rfl

theorem accepted_identity [Sha256] (accepted : normalize_model_input input = .ok normalized) :
    ∃ model, identityOf normalized = .ok model ∧ identity input = .ok model := by
  have resolves : ∃ url, resolve_request_url normalized.model_type normalized.base_url normalized.openai_endpoint
      normalized.use_full_url = .ok url := by
    simp only [normalize_model_input,Fallible.bind_ok] at accepted
    obtain ⟨_,-,_,-,_,-,_,-,_,-,_,-,_,-,_,-,_,-,_,-,_,-,_,-,_,-,_,-,_,-,_,-,url,resolved,isNormal⟩ := accepted
    obtain rfl := Except.ok.inj isNormal
    exact ⟨url,resolved⟩
  obtain ⟨url,resolved⟩ := resolves
  have isModel : ∃ model, identityOf normalized = .ok model := by
    rw [identityOf,resolved]
    exact ⟨_,rfl⟩
  obtain ⟨model,isModel⟩ := isModel
  refine ⟨model,isModel,?_⟩
  rw [identity,accepted]
  exact isModel

end Twice

end MyCursor.ModelIdentity
