import MyCursor.ToolStarts

/-!
# Integer arguments

The way of an integer from the arguments of a call: into the request that the
client executes (`request.rs`), into the card of the call (`render.rs`) and, for
the time of a shell call, through `normalize_block_until_ms`. Each narrows it to
32 bits by itself.
-/
namespace MyCursor.IntegerArguments
open Message Text ToolRequests ToolCards ToolStarts
open Compaction (SerdeText)
open Fallible (Succeeds)

inductive Field where
  | ReadOffset
  | ReadLimit
  | GrepBefore
  | GrepAfter
  | GrepContext
  | GrepHeadLimit
  | GrepOffset
  | BlockUntilMs
deriving DecidableEq

def Field.name : Field → String
  | .ReadOffset => "offset"
  | .ReadLimit => "limit"
  | .GrepBefore => "-B"
  | .GrepAfter => "-A"
  | .GrepContext => "-C"
  | .GrepHeadLimit => "head_limit"
  | .GrepOffset => "offset"
  | .BlockUntilMs => "block_until_ms"
/-- The normalized names of the tools that have the argument. -/
def Field.tools : Field → List String
  | .ReadOffset | .ReadLimit => ["read"]
  | .BlockUntilMs => ["shell","bash"]
  | _ => ["grep"]

/-- What serde_json reads of `-0`. -/
def negativeZero : Value := .Number (.Float 0x8000000000000000)

/-- The value is read from an integer literal. One of more than 64 bits is read as a
    float, which is whole and on the same side of the bound. -/
inductive Literal : Value → Int → Prop where
  | NegZero : Literal negativeZero 0
  | PosInt {value : Nat} (fits : value < 2 ^ 64) : Literal (.Number (.PosInt value)) value
  | NegInt {value : Int} (fits : -2 ^ 63 ≤ value) (negative : value < 0) : Literal (.Number (.NegInt value)) value
  | Above {bits : UInt64} {value rounded : Int} (isWhole : wholeFloat bits = some rounded) (above : 2 ^ 64 ≤ value)
      (rounds : 2 ^ 64 ≤ rounded) : Literal (.Number (.Float bits)) value
  | Below {bits : UInt64} {value rounded : Int} (isWhole : wholeFloat bits = some rounded) (below : value < -2 ^ 63)
      (rounds : rounded ≤ -2 ^ 63) : Literal (.Number (.Float bits)) value

def sent : Field → ExecMessage → Option Int
  | .ReadOffset, .ReadArgs args => args.offset.map (·.toInt)
  | .ReadLimit, .ReadArgs args => args.limit.map fun limit => (limit.toNat : Int)
  | .GrepBefore, .GrepArgs args => args.context_before.map (·.toInt)
  | .GrepAfter, .GrepArgs args => args.context_after.map (·.toInt)
  | .GrepContext, .GrepArgs args => args.context.map (·.toInt)
  | .GrepHeadLimit, .GrepArgs args => args.head_limit.map (·.toInt)
  | .GrepOffset, .GrepArgs args => args.offset.map (·.toInt)
  | .BlockUntilMs, .ShellStreamArgs args => some args.timeout.toInt
  | _, _ => none
/-- The integer of the card. The card of a shell call leaves the time at its default,
    that of a search all of its numbers. -/
def shown : Field → Card → Option Int
  | .ReadOffset, .ReadToolCall _ offset _ _ => offset.map (·.toInt)
  | .ReadLimit, .ReadToolCall _ _ limit _ => limit.map (·.toInt)
  | .BlockUntilMs, .ShellToolCall _ _ _ => some 0
  | _, _ => none

section Property
variable [Paths]

/-- An error about the arguments: from the check of the time, or from the encoding of
    the request. -/
def ArgumentError (name : String) (call : ToolCall) (context : ExecContext) (error : Error) : Prop :=
  normalize_block_until_ms name call = .error error ∨
    ∃ id normal, normalize_block_until_ms name call = .ok normal ∧ request name id normal context = .error error

/-- The call is not started: for its arguments, or for want of an id. -/
def Rejected (r : Runtime) (name : String) (call : ToolCall) (context : ExecContext) (outcome : Except Error ToolStart) : Prop :=
  ∃ error, outcome = .error error ∧ (ArgumentError name call context error ∨ u32Max ≤ r.next_id ∧ error = exhausted)

/-- The request that is sent and the card of the call have the integer. -/
structure Carried (name : String) (call : ToolCall) (field : Field) (value : Int) (outcome : Except Error ToolStart) : Prop where
  request : ∃ started message, outcome = .ok started ∧ .ExecServerMessage message ∈ started.messages ∧
    sent field message.message = some value
  card : ∃ card, tool_started name call none = .ok card ∧ shown field card = some value

/-- The call is rejected, or its integer reaches the client and the card. -/
def Unaltered (r : Runtime) (name : String) (call : ToolCall) (context : ExecContext) (field : Field) (value : Int)
    (outcome : Except Error ToolStart) : Prop :=
  Rejected r name call context outcome ∨ Carried name call field value outcome

end Property

/-- When it is so, where there is an id for the call. -/
def Fits (call : ToolCall) (given : Value) (value : Int) : Field → Prop
  | .ReadOffset => HasAny call PATHS → given ≠ negativeZero ∧ -2 ^ 31 ≤ value ∧ value < 2 ^ 31
  | .ReadLimit => HasAny call PATHS → given ≠ negativeZero ∧ 0 ≤ value ∧ value < 2 ^ 31
  | .BlockUntilMs => Has call "command" → NotificationGiven call →
      ApprovalGiven call "request_smart_mode_approval" "smart_mode_block_reason" → value ≤ 0 ∨ 2 ^ 31 ≤ value
  | _ => ¬ Has call "pattern"

section Literals
variable {value : Value} {v : Int}

theorem as_i64_literal (literal : Literal value v) (signed : value ≠ negativeZero) :
    as_i64 value = if -2 ^ 63 ≤ v ∧ v < 2 ^ 63 then some v else none := by
  cases literal with
  | NegZero => exact absurd rfl signed
  | @PosInt n fits =>
    rw [as_i64]
    by_cases small : n < 2 ^ 63
    · rw [if_pos small,if_pos (by omega)]
    · rw [if_neg small,if_neg (by omega)]
  | NegInt fits negative => rw [as_i64,if_pos ⟨fits,by omega⟩]
  | Above isWhole above rounds => rw [if_neg (by omega)]; rfl
  | Below isWhole below rounds => rw [if_neg (by omega)]; rfl
theorem as_u64_literal (literal : Literal value v) (signed : value ≠ negativeZero) :
    Json.as_u64 value = if 0 ≤ v ∧ v < 2 ^ 64 then some v.toNat else none := by
  cases literal with
  | NegZero => exact absurd rfl signed
  | @PosInt n fits => rw [if_pos (by omega)]; rfl
  | NegInt fits negative => rw [if_neg (by omega)]; rfl
  | Above isWhole above rounds => rw [if_neg (by omega)]; rfl
  | Below isWhole below rounds => rw [if_neg (by omega)]; rfl

theorem zero_literal (literal : Literal negativeZero v) : v = 0 := by
  have whole : wholeFloat 0x8000000000000000 = some 0 := by decide +kernel
  generalize given : negativeZero = value at literal
  cases literal with
  | NegZero => rfl
  | PosInt | NegInt => cases given
  | Above isWhole above rounds | Below isWhole below rounds =>
    cases given
    cases whole.symm.trans isWhole
    omega

theorem int32_exact : (Int32.ofInt v).toInt = v ↔ -2 ^ 31 ≤ v ∧ v < 2 ^ 31 := by
  constructor
  · intro same
    have low := Int32.le_toInt (Int32.ofInt v)
    have high := Int32.toInt_lt (Int32.ofInt v)
    rw [same] at low high
    exact ⟨low,high⟩
  · rintro ⟨low,high⟩
    exact Int32.toInt_ofInt_of_le low high
theorem uint32_exact (positive : 0 ≤ v) : ((UInt32.ofNat v.toNat).toNat : Int) = v ↔ v < 2 ^ 32 := by
  rw [UInt32.toNat_ofNat']
  constructor
  · intro same
    omega
  · intro small
    omega

theorem narrowed (literal : Literal value v) :
    ((as_i64 value).map Int32.ofInt).map (·.toInt) = some v ↔ value ≠ negativeZero ∧ -2 ^ 31 ≤ v ∧ v < 2 ^ 31 := by
  by_cases zero : value = negativeZero
  · exact iff_of_false (by rw [zero]; nofun) fun fits => fits.1 zero
  rw [as_i64_literal literal zero,and_iff_right zero]
  by_cases wide : -2 ^ 63 ≤ v ∧ v < 2 ^ 63
  · rw [if_pos wide,Option.map_some,Option.map_some,Option.some_inj,int32_exact]
  · rw [if_neg wide]
    refine iff_of_false nofun fun fits => wide ?_
    omega
theorem narrowed_unsigned (literal : Literal value v) :
    ((Json.as_u64 value).map UInt32.ofNat).map (fun limit => (limit.toNat : Int)) = some v ↔
      value ≠ negativeZero ∧ 0 ≤ v ∧ v < 2 ^ 32 := by
  by_cases zero : value = negativeZero
  · exact iff_of_false (by rw [zero]; nofun) fun fits => fits.1 zero
  rw [as_u64_literal literal zero,and_iff_right zero]
  by_cases wide : 0 ≤ v ∧ v < 2 ^ 64
  · rw [if_pos wide,Option.map_some,Option.map_some,Option.some_inj,uint32_exact wide.1]
    exact (and_iff_right wide.1).symm
  · rw [if_neg wide]
    refine iff_of_false nofun fun fits => wide ?_
    omega

end Literals

section Start
variable {r : Runtime} {name : String} {call : ToolCall} {context : ExecContext} {field : Field} {value : Value} {v : Int}

theorem task_normalized (task : eq_ignore_ascii_case name "Task" = true) : normalized name = "task" := by
  have lower : to_ascii_lowercase name = "task" := of_decide_eq_true task
  have folded : name.toList.map (fun c => if 'A' ≤ c ∧ c ≤ 'Z' then Char.ofNat (c.toNat + 32) else c) = ['t','a','s','k'] := by
    rw [← String.toList_ofList (l := name.toList.map _)]
    exact congrArg String.toList lower
  have letters : name.toList.filter is_ascii_alphanumeric = name.toList := by
    refine List.filter_eq_self.mpr fun c member => ?_
    by_cases capital : 'A' ≤ c ∧ c ≤ 'Z'
    · simp [is_ascii_alphanumeric,capital]
    · have low := List.mem_map_of_mem (f := fun c => if 'A' ≤ c ∧ c ≤ 'Z' then Char.ofNat (c.toNat + 32) else c) member
      rw [folded,if_neg capital] at low
      simp only [List.mem_cons,List.not_mem_nil,or_false] at low
      rcases low with rfl | rfl | rfl | rfl <;> rfl
  rw [normalized,letters,String.ofList_toList,lower]

def TOOLS : List String := ["read","grep","shell","bash"]

theorem tool_plain (listed : normalized name ∈ TOOLS) : eq_ignore_ascii_case name "Task" = false ∧
    (∀ call, is_mcp_auth name call = false) ∧ normalized name ∈ EXECUTED ∧ normalized name ≠ "getmcptools" ∧
      normalized name ≠ "callmcptool" := by
  have direct : normalized name ≠ "callmcptool" := fun same => by
    rw [same] at listed
    exact absurd listed (by decide)
  refine ⟨?_,fun call => by rw [is_mcp_auth,decide_eq_false direct,Bool.false_and],?_,fun same => ?_,direct⟩
  · refine Bool.eq_false_iff.mpr fun task => ?_
    rw [task_normalized task] at listed
    exact absurd listed (by decide)
  · simp only [TOOLS,List.mem_cons,List.not_mem_nil,or_false] at listed
    rcases listed with key | key | key | key <;> simp [EXECUTED,key]
  · rw [same] at listed
    exact absurd listed (by decide)

def cardsShown (call : ToolCall) (publish_started : Bool) (card : Card) : List ServerMessage :=
  if publish_started then [.ToolCallStarted call.call_id card call.model_call_id] else []

/-- The start of a call with integer arguments: the time is checked, an id is taken
    and the request is encoded. -/
theorem start_executes [Paths] [SerdeText] {dynamic_mcp : String → Option McpToolDefinition} {message_index : Nat}
    {publish_started : Bool} {card : Card} (builtin : dynamic_mcp name = none) (listed : normalized name ∈ TOOLS)
    (isCard : knownCard name call = some card) :
    (start r name call message_index publish_started dynamic_mcp context).1 = (normalize_block_until_ms name call).bind fun normal =>
        if r.next_id < u32Max then (request name (r.next_id + 1) normal context).map fun message =>
          { messages := cardsShown call publish_started card ++ [.ExecServerMessage message] }
        else .error exhausted := by
  obtain ⟨noTask,noAuth,executed,state,direct⟩ := tool_plain listed
  have isShown : shownFirst name call publish_started dynamic_mcp = .ok (cardsShown call publish_started card) := by
    rw [shownFirst,builtin,tool_started,render_tool_call,render_builtin,noAuth call,isCard]
    cases publish_started <;> rfl
  have isPrepared : prepare_call context name call = .ok call := by rw [prepare_call,noTask]; rfl
  have enabled : task_disabled context name = false := by rw [task_disabled,noTask,Bool.false_and]
  rw [start,isPrepared]
  dsimp only
  rw [isShown]
  dsimp only
  cases isNormal : normalize_block_until_ms name call with
  | error error =>
    have dispatched : dispatch_start r name call message_index dynamic_mcp context = (.error error,r) := by
      rw [dispatch_start,builtin]
      dsimp only
      rw [noAuth call,enabled,if_neg Bool.false_ne_true,if_neg Bool.false_ne_true,isNormal]
    rw [dispatched]
    rfl
  | ok normal =>
    have dispatched : dispatch_start r name call message_index dynamic_mcp context =
        sendReserved (fun id => (request name id normal context).map .ExecServerMessage) (reserve_exec_stage r normal context .Direct) := by
      rw [dispatch_start,builtin]
      dsimp only
      rw [noAuth call,enabled,if_neg Bool.false_ne_true,if_neg Bool.false_ne_true,isNormal]
      dsimp only
      rw [dispatch]
      rw [if_pos executed,exec_start,if_neg state,if_neg direct]
    rw [dispatched]
    dsimp only [Except.bind]
    rw [reserve_exec_stage]
    by_cases room : r.next_id < u32Max
    · rw [if_pos room,if_pos room,sendReserved]
      cases request name (r.next_id + 1) normal context with
      | error error => rfl
      | ok message => rfl
    · rw [if_neg room,if_neg room]
      rfl

/-! ## What is sent and what is shown -/

theorem normalize_other (plain : is_shell_tool name = false) : normalize_block_until_ms name call = .ok call := by
  rw [normalize_block_until_ms,plain]
  rfl

theorem read_message {message : ExecMessage} (isRead : readMessage call = .ok message) :
    sent .ReadOffset message = (int call "offset").map (·.toInt) ∧
      sent .ReadLimit message = (((argument call "limit").bind Json.as_u64).map UInt32.ofNat).map fun limit => (limit.toNat : Int) := by
  obtain ⟨path,-,same⟩ := Fallible.bind_ok.mp isRead
  cases same
  exact ⟨rfl,rfl⟩

theorem shell_message {message : ExecMessage} (isShell : shellMessage call context = .ok message) :
    sent .BlockUntilMs message = (shell_timeout call).toOption.map (·.toInt) := by
  obtain ⟨command,-,isShell⟩ := Fallible.bind_ok.mp isShell
  obtain ⟨timeout,isTimeout,isShell⟩ := Fallible.bind_ok.mp isShell
  obtain ⟨notification,-,isShell⟩ := Fallible.bind_ok.mp isShell
  obtain ⟨approval,-,same⟩ := Fallible.bind_ok.mp isShell
  cases same
  rw [isTimeout]
  rfl

theorem blockInteger_wide {integer : Int} (literal : Literal value v) (wide : ¬ (-2 ^ 63 ≤ v ∧ v < 2 ^ 63))
    (isInteger : blockInteger call value = .ok integer) : integer < 0 ∨ 2 ^ 31 ≤ integer := by
  have unread : as_i64 value = none := by
    by_cases zero : value = negativeZero
    · rw [zero]; rfl
    · rw [as_i64_literal literal zero,if_neg wide]
  have rounded : ∃ float, floatOf value = some float ∧ (float < 0 ∨ 2 ^ 63 ≤ float) := by
    cases literal with
    | NegZero => omega
    | @PosInt n fits =>
      refine ⟨nearestFloat n,rfl,.inr ?_⟩
      have large : 2 ^ 63 ≤ n := by omega
      have nearest : 2 ^ 63 ≤ nearestFloat n := by
        rw [nearestFloat]
        split <;> omega
      exact_mod_cast nearest
    | NegInt fits negative => omega
    | @Above _ _ rounded isWhole above rounds => exact ⟨rounded,isWhole,.inr (by omega)⟩
    | @Below _ _ rounded isWhole below rounds => exact ⟨rounded,isWhole,.inl (by omega)⟩
  obtain ⟨float,isFloat,outside⟩ := rounded
  rw [blockInteger,unread] at isInteger
  dsimp only at isInteger
  rw [isFloat] at isInteger
  dsimp only at isInteger
  split at isInteger
  · cases isInteger
  · cases isInteger
    omega

theorem get_insert (members : List (String × Value)) (name : String) (value : Value) :
    Json.get (.Object (CheckpointCodec.insert members name value)) name = some value := by
  rw [CheckpointCodec.insert,Json.get]
  split
  · rename_i has
    obtain ⟨member,isMember,isName⟩ := List.any_eq_true.mp has
    have known : (members.find? fun member => decide (member.1 = name)).isSome = true := List.find?_isSome.mpr ⟨member,isMember,isName⟩
    obtain ⟨first,isFirst⟩ := Option.isSome_iff_exists.mp known
    have same : ((fun member : String × Value => decide (member.1 = name)) ∘
        fun member => if member.1 = name then (name,value) else member) = fun member => decide (member.1 = name) := by
      funext member
      by_cases isName : member.1 = name <;> simp [isName]
    rw [List.find?_map,same,isFirst,Option.map_some,Option.map_some,if_pos (of_decide_eq_true (List.find?_some isFirst :))]
  · rename_i new
    have none : members.find? (fun member => decide (member.1 = name)) = none :=
      List.find?_eq_none.mpr fun member isMember isName => new (List.any_eq_true.mpr ⟨member,isMember,isName⟩)
    rw [List.find?_append,none]
    simp

theorem normal_wide {normal : ToolCall} (shell : is_shell_tool name = true) (given : argument call "block_until_ms" = some value)
    (literal : Literal value v) (wide : ¬ (-2 ^ 63 ≤ v ∧ v < 2 ^ 63))
    (isNormal : normalize_block_until_ms name call = .ok normal) : ¬ TimeInRange normal := by
  have unread : (as_i64 value).isSome = false := by
    by_cases zero : value = negativeZero
    · rw [zero]; rfl
    · rw [as_i64_literal literal zero,if_neg wide]; rfl
  rw [normalize_block_until_ms,if_pos shell] at isNormal
  simp only [given] at isNormal
  obtain ⟨integer,isInteger,isNormal⟩ := Fallible.bind_ok.mp isNormal
  have outside := blockInteger_wide literal wide isInteger
  rw [unread,if_neg Bool.false_ne_true] at isNormal
  split at isNormal
  · cases isNormal
  · split at isNormal
    · cases isNormal
      intro inRange
      obtain ⟨time,isTime,-,short⟩ := inRange _ (get_insert _ _ _)
      rw [as_i64] at isTime
      split at isTime
      · cases isTime
        omega
      · cases isTime
    · cases isNormal

theorem normal_zero (shell : is_shell_tool name = true) (given : argument call "block_until_ms" = some negativeZero) :
    ∃ normal, normalize_block_until_ms name call = .ok normal ∧ (shell_timeout normal).toOption.map (·.toInt) = some 0 := by
  have isInteger : blockInteger call negativeZero = .ok 0 := by
    have float : floatOf negativeZero = some 0 := by decide +kernel
    rw [blockInteger,show as_i64 negativeZero = none from rfl]
    simp only [float]
    rfl
  rw [normalize_block_until_ms,if_pos shell]
  simp only [given,isInteger,bind,Except.bind]
  cases isObject : call.arguments with
  | Object members =>
    refine ⟨_,rfl,?_⟩
    rw [shell_timeout,blockTime,argument,get_insert]
    rfl
  | _ => simp [argument,isObject,Json.get] at given

variable [Paths] [SerdeText] {dynamic_mcp : String → Option McpToolDefinition} {message_index : Nat} {publish_started : Bool}
  {card : Card}

theorem unaltered_refused {error : Error} (builtin : dynamic_mcp name = none) (listed : normalized name ∈ TOOLS)
    (isCard : knownCard name call = some card) (refused : normalize_block_until_ms name call = .error error) :
    Unaltered r name call context field v (start r name call message_index publish_started dynamic_mcp context).1 := by
  refine .inl ⟨error,?_,.inl (.inl refused)⟩
  rw [start_executes builtin listed isCard,refused]
  rfl

theorem unaltered_iff {normal : ToolCall} {carried : Option Int} (builtin : dynamic_mcp name = none)
    (listed : normalized name ∈ TOOLS) (isCard : knownCard name call = some card)
    (isNormal : normalize_block_until_ms name call = .ok normal)
    (carries : ∀ message, execMessage name normal context = .ok message → sent field message = carried) :
    Unaltered r name call context field v (start r name call message_index publish_started dynamic_mcp context).1 ↔
      (r.next_id < u32Max → Succeeds (execMessage name normal context) → carried = some v ∧ shown field card = some v) := by
  rw [start_executes builtin listed isCard,isNormal]
  dsimp only [Except.bind]
  by_cases room : r.next_id < u32Max
  · rw [if_pos room]
    cases encoded : execMessage name normal context with
    | error error =>
      have failed : request name (r.next_id + 1) normal context = .error error := by rw [request,encoded]; rfl
      refine iff_of_true (.inl ⟨error,by rw [failed]; rfl,.inl (.inr ⟨_,normal,isNormal,failed⟩)⟩) ?_
      rintro - ⟨message,isMessage⟩
      cases isMessage
    | ok message =>
      have isRequest : request name (r.next_id + 1) normal context =
          .ok ⟨r.next_id + 1,normal.call_id,some (!isSubagent message),message⟩ := by
        rw [request,encoded]
        rfl
      have isStarted : tool_started name call none = .ok card := by
        rw [tool_started,render_tool_call,render_builtin,(tool_plain listed).2.1 call,isCard]
        rfl
      rw [isRequest]
      constructor
      · rintro (⟨error,failed,-⟩ | ⟨⟨started,request,isOk,member,isSent⟩,shownCard,isShown,same⟩) _ _
        · cases failed
        · cases isOk
          cases isStarted.symm.trans isShown
          refine ⟨?_,same⟩
          rw [← isSent,← carries message encoded]
          rcases List.mem_append.mp member with early | last
          · rw [cardsShown] at early
            split at early
            · simp at early
            · cases early
          · simp only [List.mem_singleton,ServerMessage.ExecServerMessage.injEq] at last
            rw [last]
      · intro holds
        obtain ⟨isSent,isShown⟩ := holds room ⟨message,rfl⟩
        refine .inr ⟨⟨_,_,rfl,List.mem_append_right _ List.mem_cons_self,?_⟩,card,isStarted,isShown⟩
        exact (carries message encoded).trans isSent
  · rw [if_neg room]
    refine iff_of_true (.inl ⟨exhausted,rfl,.inr ⟨Nat.le_of_not_lt room,rfl⟩⟩) fun has => absurd has room

theorem read_unaltered (key : normalized name = "read") (builtin : dynamic_mcp name = none)
    (isField : field = .ReadOffset ∨ field = .ReadLimit) (given : argument call field.name = some value) (literal : Literal value v) :
    Unaltered r name call context field v (start r name call message_index publish_started dynamic_mcp context).1 ↔
      (r.next_id < u32Max → Fits call value v field) := by
  have listed : normalized name ∈ TOOLS := by rw [key]; decide
  have plain : is_shell_tool name = false := by rw [is_shell_tool,key]; rfl
  have isCard : knownCard name call =
      some (.ReadToolCall (aliased call PATHS) (int call "offset") (int call "limit") (boolArgument call "include_line_numbers")) := by
    simp [knownCard,key]
  have isExec : execMessage name call context = readMessage call := by simp [execMessage,key]
  rcases isField with rfl | rfl
  · have offset : int call "offset" = (as_i64 value).map Int32.ofInt := by
      rw [int]
      exact congrArg (fun found => (found.bind as_i64).map Int32.ofInt) given
    rw [unaltered_iff builtin listed isCard (normalize_other plain) fun message isMessage => (read_message (isExec ▸ isMessage)).1,
      isExec,read_succeeds,shown,offset,narrowed literal,and_self_iff]
    exact Iff.rfl
  · have limit : int call "limit" = (as_i64 value).map Int32.ofInt := by
      rw [int]
      exact congrArg (fun found => (found.bind as_i64).map Int32.ofInt) given
    have asked : (argument call "limit").bind Json.as_u64 = Json.as_u64 value := congrArg (·.bind Json.as_u64) given
    rw [unaltered_iff builtin listed isCard (normalize_other plain) fun message isMessage => (read_message (isExec ▸ isMessage)).2,
      isExec,read_succeeds,shown,limit,asked,narrowed literal,narrowed_unsigned literal]
    refine imp_congr_right fun _ => imp_congr_right fun _ => ?_
    constructor
    · rintro ⟨⟨signed,positive,-⟩,-,-,small⟩
      exact ⟨signed,positive,small⟩
    · rintro ⟨signed,positive,small⟩
      refine ⟨⟨signed,positive,?_⟩,signed,?_,small⟩ <;> omega

theorem grep_unaltered (key : normalized name = "grep") (builtin : dynamic_mcp name = none) (isField : field.tools = ["grep"]) :
    Unaltered r name call context field v (start r name call message_index publish_started dynamic_mcp context).1 ↔
      (r.next_id < u32Max → Fits call value v field) := by
  have listed : normalized name ∈ TOOLS := by rw [key]; decide
  have plain : is_shell_tool name = false := by rw [is_shell_tool,key]; rfl
  have isCard : knownCard name call = some (.GrepToolCall (stringOrEmpty call "pattern") (optional_string call "path")
      (optional_string call "glob") (optional_string call "output_mode")) := by
    simp [knownCard,key]
  have isExec : execMessage name call context = grepMessage call := by simp [execMessage,key]
  have carries : ∀ message, execMessage name call context = .ok message →
      sent field message = (grepMessage call).toOption.bind (sent field) := by
    intro message isMessage
    rw [← isExec,isMessage]
    rfl
  rw [unaltered_iff builtin listed isCard (normalize_other plain) carries,isExec,grep_succeeds]
  refine imp_congr_right fun _ => ?_
  cases field with
  | ReadOffset => exact absurd isField (by decide)
  | ReadLimit => exact absurd isField (by decide)
  | BlockUntilMs => exact absurd isField (by decide)
  | GrepBefore | GrepAfter | GrepContext | GrepHeadLimit | GrepOffset =>
    constructor
    · intro holds has
      cases (holds has).2
    · exact fun without has => absurd has without

theorem shell_unaltered (key : normalized name = "shell" ∨ normalized name = "bash") (builtin : dynamic_mcp name = none)
    (given : argument call "block_until_ms" = some value) (literal : Literal value v) :
    Unaltered r name call context .BlockUntilMs v (start r name call message_index publish_started dynamic_mcp context).1 ↔
      (r.next_id < u32Max → Fits call value v .BlockUntilMs) := by
  have listed : normalized name ∈ TOOLS := by rcases key with key | key <;> rw [key] <;> decide
  have shell : is_shell_tool name = true := by rcases key with key | key <;> rw [is_shell_tool,key] <;> rfl
  have isCard : knownCard name call = some (.ShellToolCall (stringOrEmpty call "command") (stringOrEmpty call "working_directory")
      (optional_string call "description")) := by
    rcases key with key | key <;> simp [knownCard,key]
  have isExec : ∀ call, execMessage name call context = shellMessage call context := by
    intro call
    rcases key with key | key <;> simp [execMessage,key]
  by_cases zero : value = negativeZero
  · subst zero
    obtain rfl := zero_literal literal
    obtain ⟨normal,isNormal,isTime⟩ := normal_zero shell given
    exact iff_of_true ((unaltered_iff builtin listed isCard isNormal fun message isMessage =>
      shell_message (isExec normal ▸ isMessage)).mpr fun _ _ => ⟨isTime,rfl⟩) fun _ _ _ _ => .inl le_rfl
  by_cases narrow : -2 ^ 63 ≤ v ∧ v < 2 ^ 63
  · have isTime : as_i64 value = some v := by rw [as_i64_literal literal zero,if_pos narrow]
    have isBlock : blockInteger call value = .ok v := by rw [blockInteger,isTime]
    by_cases negative : v < 0
    · have refused : normalize_block_until_ms name call = .error (.Protocol s!"{call.name} block_until_ms is out of range") := by
        rw [normalize_block_until_ms,if_pos shell]
        simp only [given,isBlock]
        exact if_pos negative
      exact iff_of_true (unaltered_refused builtin listed isCard refused) fun _ _ _ _ => .inl negative.le
    · have isNormal : normalize_block_until_ms name call = .ok call := by
        rw [normalize_block_until_ms,if_pos shell]
        simp only [given,isBlock]
        exact (if_neg negative).trans (if_pos (by rw [isTime]; rfl))
      have ranged : TimeInRange call ↔ v < 2 ^ 31 := by
        constructor
        · intro inRange
          obtain ⟨time,same,-,short⟩ := inRange value given
          cases isTime.symm.trans same
          exact short
        · intro short other same
          cases given.symm.trans same
          exact ⟨v,isTime,by omega,short⟩
      have carried : v < 2 ^ 31 → (shell_timeout call).toOption.map (·.toInt) = some v := by
        intro short
        have taken : shell_timeout call = .ok (Int32.ofInt v) := by
          rw [shell_timeout,blockTime]
          simp only [given,isTime]
          exact if_pos ⟨by omega,short⟩
        rw [taken]
        exact congrArg some (int32_exact.mpr ⟨by omega,short⟩)
      rw [unaltered_iff builtin listed isCard isNormal fun message isMessage => shell_message (isExec call ▸ isMessage),
        isExec,shell_succeeds,ranged]
      refine imp_congr_right fun _ => ?_
      constructor
      · intro holds command notification approval
        by_cases short : v < 2 ^ 31
        · obtain ⟨-,same⟩ := holds ⟨command,short,notification,approval⟩
          exact .inl (Option.some.inj same).ge
        · exact .inr (by omega)
      · rintro fits ⟨command,short,notification,approval⟩
        refine ⟨carried short,?_⟩
        have isZero : (0 : Int) = v := by
          rcases fits command notification approval with small | large <;> omega
        exact congrArg some isZero
  · refine iff_of_true ?_ fun _ _ _ _ => by omega
    cases isNormal : normalize_block_until_ms name call with
    | error error => exact unaltered_refused builtin listed isCard isNormal
    | ok normal =>
      rw [unaltered_iff builtin listed isCard isNormal fun message isMessage => shell_message (isExec normal ▸ isMessage),
        isExec,shell_succeeds]
      exact fun _ accepted => absurd accepted.2.1 (normal_wide shell given literal narrow isNormal)

/-- An integer argument of a tool of the server stays as it is just when it fits, or
    the call is rejected. -/
theorem integers_exact (isTool : normalized name ∈ field.tools) (builtin : dynamic_mcp name = none)
    (given : argument call field.name = some value) (literal : Literal value v) :
    Unaltered r name call context field v (start r name call message_index publish_started dynamic_mcp context).1 ↔
      (r.next_id < u32Max → Fits call value v field) := by
  cases field with
  | ReadOffset => exact read_unaltered (List.mem_singleton.mp isTool) builtin (.inl rfl) given literal
  | ReadLimit => exact read_unaltered (List.mem_singleton.mp isTool) builtin (.inr rfl) given literal
  | BlockUntilMs =>
    have key : normalized name = "shell" ∨ normalized name = "bash" := by simpa [Field.tools] using isTool
    exact shell_unaltered key builtin given literal
  | GrepBefore | GrepAfter | GrepContext | GrepHeadLimit | GrepOffset =>
    exact grep_unaltered (List.mem_singleton.mp isTool) builtin rfl

end Start

section Counterexample

local instance : Paths := ⟨fun _ => none,fun _ => none⟩
local instance : SerdeText := ⟨fun _ => "{}",fun _ => "",fun _ => ""⟩

def readFrom (offset : Nat) : ToolCall :=
  ⟨0,"call_1","model_1","Read","{}",.Object [("path",.String "notes.txt"),("offset",.Number (.PosInt offset))],none⟩

theorem offset_wraps : (start idle "Read" (readFrom (2 ^ 32 + 5)) 0 true (fun _ => none) plainContext).1 = .ok { messages := [
    .ToolCallStarted "call_1" (.ReadToolCall "notes.txt" (some 5) none none) "model_1",
    .ExecServerMessage ⟨1,"call_1",some true,.ReadArgs { path := "notes.txt", tool_call_id := "call_1", offset := some 5 }⟩] } := by
  decide +kernel

theorem integers_altered : ¬ ∀ (r : Runtime) (name : String) (call : ToolCall) (field : Field) (value : Value) (v : Int)
    (message_index : Nat) (publish_started : Bool) (dynamic_mcp : String → Option McpToolDefinition) (context : ExecContext),
    normalized name ∈ field.tools → dynamic_mcp name = none → argument call field.name = some value → Literal value v →
      Unaltered r name call context field v (start r name call message_index publish_started dynamic_mcp context).1 := by
  intro unaltered
  have literal : Literal (.Number (.PosInt (2 ^ 32 + 5))) (2 ^ 32 + 5 : Nat) := .PosInt (by decide)
  rcases unaltered idle "Read" (readFrom (2 ^ 32 + 5)) .ReadOffset _ _ 0 true (fun _ => none) plainContext (by decide +kernel) rfl rfl
    literal with rejected | carried
  · obtain ⟨error,failed,-⟩ := rejected
    rw [offset_wraps] at failed
    cases failed
  · obtain ⟨card,isCard,same⟩ := carried.card
    have five : tool_started "Read" (readFrom (2 ^ 32 + 5)) none = .ok (.ReadToolCall "notes.txt" (some 5) none none) := by decide +kernel
    cases five.symm.trans isCard
    exact absurd same (by decide)

theorem small_offset_kept : let outcome := (start idle "Read" (readFrom 7) 0 true (fun _ => none) plainContext).1
    Unaltered idle "Read" (readFrom 7) plainContext .ReadOffset 7 outcome :=
  (integers_exact (by decide +kernel) rfl rfl (.PosInt (by decide))).mpr fun _ _ => by decide

end Counterexample

end MyCursor.IntegerArguments
