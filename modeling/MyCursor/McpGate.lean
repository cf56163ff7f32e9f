import MyCursor.Truncation
import MyCursor.ProstValues
import Mathlib.Algebra.Order.BigOperators.Group.List

/-!
# The gates before MCP results and searches of the web

`gate_mcp` and `gate_web_search` of `cursor/tools/tool_call_result/gate.rs`. A result that
looks gated already passes the first as it is; the second leaves the urls as long as they are.
-/
namespace MyCursor.McpGate
open Text Message Compaction ToolResults Truncation ProstValues

def MCP_TEXT_LIMIT : Nat := 32 * KIB
def MCP_CONTENT_ITEM_LIMIT : Nat := 20
def MCP_STRUCTURED_LIMIT : Nat := 32 * KIB
def WEB_SEARCH_LIMIT : Nat := 16 * KIB
def WEB_SEARCH_TITLE_LIMIT : Nat := 512
def WEB_SEARCH_SNIPPET_LIMIT : Nat := 2 * KIB

structure OutputLocation where
  file_path : String
  size_bytes : Int64
  line_count : Int64

inductive McpContent where
  | Text (text : String) (output_location : Option OutputLocation)
  | Image (data : List UInt8) (mime_type : String)

structure McpSuccess where
  content : List (Option McpContent)
  is_error : Bool
  structured_content : Option (List (String × ProstValue))

def textOf : Option McpContent → Option String
  | some (.Text text _) => some text
  | _ => none
def textBytes (items : List (Option McpContent)) : Nat := ((items.filterMap textOf).map String.utf8ByteSize).sum

def mcp_notice (text : String) : Option McpContent := some (.Text text none)
def is_mcp_notice (item : Option McpContent) : Bool := (textOf item).any fun text => starts_with text "[truncated:"

def gate_items : Nat → List (Option McpContent) → List (Option McpContent) × Nat × Bool
  | remaining, [] => ([],remaining,false)
  | remaining, some (.Text text output_location) :: rest =>
    let next := shownText "MCP content item" text MCP_TEXT_LIMIT
    if remaining = 0 then
      let tail := gate_items remaining rest
      (tail.1,tail.2.1,decide (next ≠ "") || tail.2.2)
    else
      let shown := shownText "MCP text" next remaining
      let tail := gate_items (remaining - shown.utf8ByteSize) rest
      (some (.Text shown output_location) :: tail.1,tail.2.1,decide (shown ≠ next) || tail.2.2)
  | remaining, item :: rest =>
    let tail := gate_items remaining rest
    (item :: tail.1,tail.2)

def truncated_struct (original limit : Nat) : List (String × ProstValue) :=
  [("_truncated",.BoolValue true),("limit_bytes",.NumberValue (Binary64.ofInt limit)),("original_json_bytes",
    .NumberValue (Binary64.ofInt original))]

section Mcp
variable [SerdeText]

def structured_json_len (value : Option (List (String × ProstValue))) : Nat :=
  value.elim 0 fun fields => (SerdeText.value (prost_json (.StructValue fields))).utf8ByteSize

def Noticed (success : McpSuccess) : Prop := success.content.any is_mcp_notice = true
instance (success : McpSuccess) : Decidable (Noticed success) := inferInstanceAs (Decidable (_ = true))

/-- The notices that are added to a result, in their order. -/
def notices (success : McpSuccess) : List String :=
  let items := success.content.take MCP_CONTENT_ITEM_LIMIT
  let gated := gate_items MCP_TEXT_LIMIT items
  (if MCP_STRUCTURED_LIMIT < structured_json_len success.structured_content then
    [truncation_notice "MCP structured_content" MCP_STRUCTURED_LIMIT 0 (structured_json_len success.structured_content)] else []) ++
  (if MCP_CONTENT_ITEM_LIMIT < success.content.length then
    [s!"[truncated: MCP content items exceeded {MCP_CONTENT_ITEM_LIMIT} items; showing {MCP_CONTENT_ITEM_LIMIT} of {success.content.length} items]"]
      else []) ++
  (if gated.2.2 then [truncation_notice "MCP text" MCP_TEXT_LIMIT (MCP_TEXT_LIMIT - gated.2.1) (textBytes items)] else [])

def gate_mcp (success : McpSuccess) : McpSuccess :=
  if Noticed success then success
  else
    let original := structured_json_len success.structured_content
    { success with
      structured_content := if MCP_STRUCTURED_LIMIT < original then some (truncated_struct original MCP_STRUCTURED_LIMIT)
        else success.structured_content
      content := (gate_items MCP_TEXT_LIMIT (success.content.take MCP_CONTENT_ITEM_LIMIT)).1 ++ (notices success).map mcp_notice }

end Mcp

@[simp] theorem textBytes_nil : textBytes [] = 0 := rfl
@[simp] theorem textBytes_text (text : String) (location : Option OutputLocation) (rest : List (Option McpContent)) :
    textBytes (some (.Text text location) :: rest) = text.utf8ByteSize + textBytes rest := List.sum_cons
theorem textBytes_other {item : Option McpContent} (other : textOf item = none) (rest : List (Option McpContent)) :
    textBytes (item :: rest) = textBytes rest := by
  rw [textBytes,List.filterMap_cons_none other]
  rfl
theorem gate_items_other {item : Option McpContent} (other : textOf item = none) (remaining : Nat) (rest : List (Option McpContent)) :
    gate_items remaining (item :: rest) = (item :: (gate_items remaining rest).1,(gate_items remaining rest).2) := by
  rcases item with _ | ⟨text,location⟩ | ⟨data,mime⟩
  · rfl
  · cases other
  · rfl
theorem item_cases (item : Option McpContent) : (∃ text location, item = some (.Text text location)) ∨ textOf item = none := by
  rcases item with _ | ⟨text,location⟩ | ⟨data,mime⟩
  · exact .inr rfl
  · exact .inl ⟨text,location,rfl⟩
  · exact .inr rfl
theorem text_le {text : String} {location : Option OutputLocation} {items : List (Option McpContent)}
    (isIn : some (.Text text location) ∈ items) : text.utf8ByteSize ≤ textBytes items :=
  List.single_le_sum (by simp) _ (List.mem_map_of_mem (List.mem_filterMap.mpr ⟨_,isIn,rfl⟩))

def SmallTexts (items : List (Option McpContent)) : Prop := ∀ text ∈ items.filterMap textOf, text.utf8ByteSize ≤ MCP_TEXT_LIMIT
theorem small_text {text : String} {location : Option OutputLocation} {rest : List (Option McpContent)} :
    SmallTexts (some (.Text text location) :: rest) ↔ text.utf8ByteSize ≤ MCP_TEXT_LIMIT ∧ SmallTexts rest := List.forall_mem_cons
theorem small_other {item : Option McpContent} (other : textOf item = none) {rest : List (Option McpContent)} :
    SmallTexts (item :: rest) ↔ SmallTexts rest := by
  rw [SmallTexts,List.filterMap_cons_none other]
  rfl

theorem empty_iff (text : String) : text = "" ↔ text.utf8ByteSize = 0 := String.utf8ByteSize_eq_zero_iff.symm
theorem shown_within (name content : String) (limit : Nat) : (shownText name content limit).utf8ByteSize ≤ limit :=
  (shownText_shown name content limit).within

theorem gate_items_length (items : List (Option McpContent)) : ∀ remaining, (gate_items remaining items).1.length ≤ items.length := by
  induction items with
  | nil => exact fun _ => le_rfl
  | cons item rest ih =>
    intro remaining
    rcases item_cases item with ⟨text,location,rfl⟩ | other
    · rw [gate_items]
      split_ifs
      · exact (ih remaining).trans (Nat.le_succ _)
      · exact Nat.succ_le_succ (ih _)
    · rw [gate_items_other other]
      exact Nat.succ_le_succ (ih remaining)
theorem gate_items_bytes (items : List (Option McpContent)) : ∀ remaining,
    textBytes (gate_items remaining items).1 + (gate_items remaining items).2.1 = remaining := by
  induction items with
  | nil => exact fun _ => Nat.zero_add _
  | cons item rest ih =>
    intro remaining
    rcases item_cases item with ⟨text,location,rfl⟩ | other
    · rw [gate_items]
      split_ifs
      · exact ih remaining
      · have within := shown_within "MCP text" (shownText "MCP content item" text MCP_TEXT_LIMIT) remaining
        have tail := ih (remaining - (shownText "MCP text" (shownText "MCP content item" text MCP_TEXT_LIMIT) remaining).utf8ByteSize)
        simp only [textBytes_text]
        omega
    · rw [gate_items_other other,textBytes_other other]
      exact ih remaining
theorem gate_items_again {items : List (Option McpContent)} : ∀ {remaining}, (gate_items remaining items).2.2 = false →
    gate_items remaining (gate_items remaining items).1 = gate_items remaining items := by
  induction items with
  | nil => exact fun _ => rfl
  | cons item rest ih =>
    intro remaining
    rcases item_cases item with ⟨text,location,rfl⟩ | other
    · rw [gate_items]
      by_cases none_ : remaining = 0
      · simp only [if_pos none_,Bool.or_eq_false_iff]
        rintro ⟨isEmpty,uncut⟩
        rw [ih uncut,isEmpty,Bool.false_or]
      · simp only [if_neg none_,Bool.or_eq_false_iff,decide_eq_false_iff_not,not_not]
        rintro ⟨same,uncut⟩
        have small : shownText "MCP content item" (shownText "MCP content item" text MCP_TEXT_LIMIT) MCP_TEXT_LIMIT =
            shownText "MCP content item" text MCP_TEXT_LIMIT := shownText_fits (shown_within _ _ _)
        have again := ih uncut
        rw [gate_items]
        simp only [same,small,if_neg none_] at again ⊢
        rw [again]
    · rw [gate_items_other other]
      intro uncut
      rw [gate_items_other other,ih uncut]
theorem gate_items_total {items : List (Option McpContent)} : ∀ {remaining}, (gate_items remaining items).2.2 = false →
    SmallTexts items → textBytes items ≤ remaining := by
  induction items with
  | nil => exact fun _ _ => Nat.zero_le _
  | cons item rest ih =>
    intro remaining
    rcases item_cases item with ⟨text,location,rfl⟩ | other
    · rw [gate_items,small_text]
      rintro uncut ⟨small,smallRest⟩
      rw [shownText_fits small] at uncut
      by_cases none_ : remaining = 0
      · simp only [if_pos none_,Bool.or_eq_false_iff,decide_eq_false_iff_not,not_not] at uncut
        rw [textBytes_text,(empty_iff text).mp uncut.1,Nat.zero_add]
        exact ih uncut.2 smallRest
      · simp only [if_neg none_,Bool.or_eq_false_iff,decide_eq_false_iff_not,not_not] at uncut
        have within := shown_within "MCP text" text remaining
        have tail := ih uncut.2 smallRest
        rw [uncut.1] at within tail
        rw [textBytes_text]
        omega
    · rw [gate_items_other other,small_other other,textBytes_other other]
      exact ih
/-- A text after the last byte that there is room for. -/
def Emptied (remaining : Nat) (items : List (Option McpContent)) : Prop :=
  ∃ front back, items = front ++ back ∧ textBytes front = remaining ∧ ∃ item ∈ back, (textOf item).isSome = true
theorem emptied_other {item : Option McpContent} (other : textOf item = none) (remaining : Nat) (rest : List (Option McpContent)) :
    Emptied remaining (item :: rest) ↔ Emptied remaining rest := by
  constructor
  · rintro ⟨front,back,split,total,one,isIn,isText⟩
    cases front with
    | nil =>
      subst split
      rcases List.mem_cons.mp isIn with rfl | inRest
      · rw [other] at isText
        cases isText
      · exact ⟨[],rest,rfl,total,one,inRest,isText⟩
    | cons first front =>
      obtain ⟨rfl,rfl⟩ := List.cons.inj split
      exact ⟨front,back,rfl,(textBytes_other other front).symm.trans total,one,isIn,isText⟩
  · rintro ⟨front,back,rfl,total,text⟩
    exact ⟨item :: front,back,rfl,(textBytes_other other front).trans total,text⟩
theorem emptied_text {remaining : Nat} (some_ : remaining ≠ 0) {text : String} (location : Option OutputLocation)
    (fits : text.utf8ByteSize ≤ remaining) (rest : List (Option McpContent)) :
    Emptied remaining (some (.Text text location) :: rest) ↔ Emptied (remaining - text.utf8ByteSize) rest := by
  constructor
  · rintro ⟨front,back,split,total,isText⟩
    cases front with
    | nil => exact absurd total.symm some_
    | cons first front =>
      obtain ⟨rfl,rfl⟩ := List.cons.inj split
      rw [textBytes_text] at total
      exact ⟨front,back,rfl,by omega,isText⟩
  · rintro ⟨front,back,rfl,total,isText⟩
    exact ⟨some (.Text text location) :: front,back,rfl,by rw [textBytes_text]; omega,isText⟩
theorem gate_items_whole {items : List (Option McpContent)} (small : SmallTexts items) :
    ∀ remaining, textBytes items ≤ remaining → (gate_items remaining items).2.2 = false ∧
      ((gate_items remaining items).1 = items ↔ ¬Emptied remaining items) := by
  induction items with
  | nil => exact fun _ _ => ⟨rfl,fun _ ⟨front,back,split,_,one,isIn,_⟩ =>
      absurd (List.append_eq_nil_iff.mp split.symm).2 (List.ne_nil_of_mem isIn),fun _ => rfl⟩
  | cons item rest ih =>
    intro remaining total
    rcases item_cases item with ⟨text,location,rfl⟩ | other
    · rw [small_text] at small
      rw [textBytes_text] at total
      rw [gate_items,shownText_fits small.1]
      by_cases none_ : remaining = 0
      · have isEmpty := (empty_iff text).mpr (by omega)
        obtain ⟨uncut,-⟩ := ih small.2 remaining (by omega)
        simp only [if_pos none_,isEmpty,uncut]
        refine ⟨rfl,⟨fun same => ?_,fun isNot => ?_⟩⟩
        · have shorter := gate_items_length rest remaining
          rw [same,List.length_cons] at shorter
          omega
        · exact absurd ⟨[],_,rfl,none_.symm,_,List.mem_cons_self,rfl⟩ isNot
      · have fits : text.utf8ByteSize ≤ remaining := by omega
        obtain ⟨uncut,whole⟩ := ih small.2 (remaining - text.utf8ByteSize) (by omega)
        rw [shownText_fits fits,emptied_text none_ location fits,if_neg none_,← whole]
        simp only [uncut,List.cons.injEq,true_and]
        simp
    · rw [small_other other] at small
      rw [textBytes_other other] at total
      obtain ⟨uncut,whole⟩ := ih small remaining total
      rw [gate_items_other other,emptied_other other,← whole]
      exact ⟨uncut,by simp⟩
/-- Where nothing is cut for the total, every text is kept as it is limited by itself. -/
theorem gate_items_kept {items : List (Option McpContent)} {text : String} {location : Option OutputLocation}
    (some_ : shownText "MCP content item" text MCP_TEXT_LIMIT ≠ "") (isIn : some (.Text text location) ∈ items) :
    ∀ {remaining}, (gate_items remaining items).2.2 = false →
      some (.Text (shownText "MCP content item" text MCP_TEXT_LIMIT) location) ∈ (gate_items remaining items).1 := by
  induction items with
  | nil => cases isIn
  | cons item rest ih =>
    intro remaining
    rcases item_cases item with ⟨other,place,rfl⟩ | other
    · rw [gate_items]
      by_cases none_ : remaining = 0
      · simp only [if_pos none_,Bool.or_eq_false_iff,decide_eq_false_iff_not,not_not]
        rintro ⟨isEmpty,uncut⟩
        rcases List.mem_cons.mp isIn with same | inRest
        · cases same
          exact absurd isEmpty some_
        · exact ih inRest uncut
      · simp only [if_neg none_,Bool.or_eq_false_iff,decide_eq_false_iff_not,not_not]
        rintro ⟨shown,uncut⟩
        rcases List.mem_cons.mp isIn with same | inRest
        · cases same
          rw [shown]
          exact List.mem_cons_self
        · exact List.mem_cons_of_mem _ (ih inRest uncut)
    · rw [gate_items_other other]
      intro uncut
      rcases List.mem_cons.mp isIn with rfl | inRest
      · cases other
      · exact List.mem_cons_of_mem _ (ih inRest uncut)

/-! ## The gate of MCP results -/

theorem starts {text : String} (begins : "[truncated: ".toList <+: text.toList) : is_mcp_notice (mcp_notice text) = true := by
  have word : "[truncated:".toList <+: "[truncated: ".toList := by decide
  exact decide_eq_true (word.trans begins)
theorem notice_starts (name : String) (limit shown original : Nat) :
    is_mcp_notice (mcp_notice (truncation_notice name limit shown original)) = true := by
  have parts : ∃ a b c d e f g h : String,
      truncation_notice name limit shown original = "[truncated: " ++ a ++ b ++ c ++ d ++ e ++ f ++ g ++ h := ⟨_,_,_,_,_,_,_,_,rfl⟩
  obtain ⟨a,b,c,d,e,f,g,h,isParts⟩ := parts
  refine starts ?_
  rw [isParts]
  simp only [String.toList_append,List.append_assoc]
  exact List.prefix_append _ _
theorem items_starts (length : Nat) : is_mcp_notice (mcp_notice
    s!"[truncated: MCP content items exceeded {MCP_CONTENT_ITEM_LIMIT} items; showing {MCP_CONTENT_ITEM_LIMIT} of {length} items]") = true := by
  have word : "[truncated: ".toList <+: "[truncated: MCP content items exceeded ".toList := by decide
  have parts : ∃ front b c d e f g : String, front = "[truncated: MCP content items exceeded " ∧
      s!"[truncated: MCP content items exceeded {MCP_CONTENT_ITEM_LIMIT} items; showing {MCP_CONTENT_ITEM_LIMIT} of {length} items]" =
        front ++ b ++ c ++ d ++ e ++ f ++ g := ⟨_,_,_,_,_,_,_,rfl,rfl⟩
  obtain ⟨front,b,c,d,e,f,g,isFront,isParts⟩ := parts
  refine starts ?_
  rw [isParts,isFront]
  simp only [String.toList_append,List.append_assoc]
  exact word.trans (List.prefix_append _ _)

theorem item_room {text : String} (memory : text.utf8ByteSize < 2 ^ 64) :
    (noticeText "MCP content item" text MCP_TEXT_LIMIT MCP_TEXT_LIMIT).utf8ByteSize < MCP_TEXT_LIMIT := by
  have most : ("\n\n" ++ truncation_notice "MCP content item" MCP_TEXT_LIMIT MCP_TEXT_LIMIT (2 ^ 64)).utf8ByteSize < MCP_TEXT_LIMIT := by
    decide +kernel
  rw [String.utf8ByteSize_append] at most
  rw [noticeText,String.utf8ByteSize_append]
  exact (Nat.add_le_add_left (truncation_notice_le "MCP content item" MCP_TEXT_LIMIT le_rfl (digits_mono memory.le)) _).trans_lt most

/-- What `serde_json` writes: flat values are short, an object is its members between braces and commas. -/
structure ShortJson [SerdeText] : Prop where
  flat : (SerdeText.value .Null).utf8ByteSize ≤ 24 ∧ (SerdeText.value (.Bool true)).utf8ByteSize ≤ 24 ∧
    ∀ bits, (SerdeText.value (.Number (.Float bits))).utf8ByteSize ≤ 24
  object : ∀ members : List (String × Value), (SerdeText.value (.Object members)).utf8ByteSize ≤
    2 + (members.map fun member => 6 * member.1.utf8ByteSize + 4 + (SerdeText.value member.2).utf8ByteSize).sum

section Mcp
variable [SerdeText]

theorem struct_short (short : ShortJson) (original limit : Nat) :
    structured_json_len (some (truncated_struct original limit)) ≤ MCP_STRUCTURED_LIMIT := by
  have float (bits : UInt64) : (SerdeText.value (from_f64 bits)).utf8ByteSize ≤ 24 := by
    rw [from_f64]
    split_ifs
    · exact short.flat.2.2 bits
    · exact short.flat.1
  have names : ("_truncated" : String).utf8ByteSize = 10 ∧ ("limit_bytes" : String).utf8ByteSize = 11 ∧
      ("original_json_bytes" : String).utf8ByteSize = 19 := by decide
  have one := float (Binary64.ofInt limit)
  have other := float (Binary64.ofInt original)
  have yes := short.flat.2.1
  have whole := short.object [("_truncated",.Bool true),("limit_bytes",from_f64 (Binary64.ofInt limit)),
    ("original_json_bytes",from_f64 (Binary64.ofInt original))]
  simp only [List.map_cons,List.map_nil,List.sum_cons,List.sum_nil,names] at whole
  refine whole.trans ?_
  simp only [MCP_STRUCTURED_LIMIT,KIB]
  omega

/-- The items of the result that are kept, before the notices. -/
def kept (success : McpSuccess) : List (Option McpContent) :=
  if Noticed success then success.content else (gate_items MCP_TEXT_LIMIT (success.content.take MCP_CONTENT_ITEM_LIMIT)).1
/-- A text that is too long by itself is kept with its own notice in it. -/
def TellsItself (success : McpSuccess) : Prop :=
  ∃ text location front, some (.Text text location) ∈ success.content ∧ MCP_TEXT_LIMIT < text.utf8ByteSize ∧
    some (.Text (front ++ noticeText "MCP content item" text MCP_TEXT_LIMIT front.utf8ByteSize) location) ∈ kept success

/-- What the gate is for. -/
structure Gated (success : McpSuccess) : Prop where
  items : (kept success).length ≤ MCP_CONTENT_ITEM_LIMIT
  text : textBytes (kept success) ≤ MCP_TEXT_LIMIT
  structured : structured_json_len (gate_mcp success).structured_content ≤ MCP_STRUCTURED_LIMIT
  told : gate_mcp success = success ∨ (gate_mcp success).content = kept success ++ (notices success).map mcp_notice ∧
    (notices success ≠ [] ∨ TellsItself success)
  again : gate_mcp (gate_mcp success) = gate_mcp success

/-- Nothing is over a limit, but an empty text follows the last byte that there is room for. -/
def Silent (success : McpSuccess) : Prop :=
  structured_json_len success.structured_content ≤ MCP_STRUCTURED_LIMIT ∧ success.content.length ≤ MCP_CONTENT_ITEM_LIMIT ∧
    textBytes success.content = MCP_TEXT_LIMIT ∧ Emptied MCP_TEXT_LIMIT success.content

variable {success : McpSuccess}

theorem gate_noticed (noticed : Noticed success) : gate_mcp success = success := if_pos noticed
theorem notices_noticed {text : String} (isNotice : text ∈ notices success) : is_mcp_notice (mcp_notice text) = true := by
  rw [notices] at isNotice
  simp only [List.mem_append,List.mem_ite_nil_right,List.mem_singleton,or_assoc] at isNotice
  rcases isNotice with ⟨-,rfl⟩ | ⟨-,rfl⟩ | ⟨-,rfl⟩
  · exact notice_starts _ _ _ _
  · exact items_starts _
  · exact notice_starts _ _ _ _
theorem notices_nil (none_ : notices success = []) : structured_json_len success.structured_content ≤ MCP_STRUCTURED_LIMIT ∧
    success.content.length ≤ MCP_CONTENT_ITEM_LIMIT ∧
      (gate_items MCP_TEXT_LIMIT (success.content.take MCP_CONTENT_ITEM_LIMIT)).2.2 = false := by
  rw [notices] at none_
  simp only [List.append_eq_nil_iff,ite_eq_right_iff,List.cons_ne_nil,imp_false,not_lt,Bool.not_eq_true] at none_
  exact ⟨none_.1.1,none_.1.2,none_.2⟩
theorem gate_unnoticed (unnoticed : ¬Noticed success) (none_ : notices success = []) : gate_mcp success = { success with
    content := (gate_items MCP_TEXT_LIMIT success.content).1 } := by
  obtain ⟨structured,few,-⟩ := notices_nil none_
  rw [gate_mcp,if_neg unnoticed,none_,List.take_of_length_le few]
  simp only [if_neg (not_lt.mpr structured),List.map_nil,List.append_nil]
theorem gate_again (success : McpSuccess) : gate_mcp (gate_mcp success) = gate_mcp success := by
  by_cases noticed : Noticed success
  · rw [gate_noticed noticed,gate_noticed noticed]
  · by_cases again : Noticed (gate_mcp success)
    · exact gate_noticed again
    · have none_ : notices success = [] := by
        refine List.eq_nil_iff_forall_not_mem.mpr fun text isNotice => again ?_
        rw [Noticed,gate_mcp,if_neg noticed]
        refine List.any_eq_true.mpr ⟨mcp_notice text,?_,notices_noticed isNotice⟩
        exact List.mem_append_right _ (List.mem_map_of_mem isNotice)
      obtain ⟨structured,few,uncut⟩ := notices_nil none_
      have result := gate_unnoticed noticed none_
      rw [List.take_of_length_le few] at uncut
      have same := gate_items_again uncut
      have fewer := (gate_items_length success.content MCP_TEXT_LIMIT).trans few
      rw [result] at again ⊢
      have none_' : notices { success with content := (gate_items MCP_TEXT_LIMIT success.content).1 } = [] := by
        rw [notices]
        simp only [List.take_of_length_le fewer,same,uncut,if_neg (not_lt.mpr structured),if_neg (not_lt.mpr fewer),
          Bool.false_eq_true,if_false,List.append_nil]
      rw [gate_unnoticed again none_']
      simp only [same]

theorem tells_itself (unnoticed : ¬Noticed success) (none_ : notices success = []) {text : String} {location : Option OutputLocation}
    (isIn : some (.Text text location) ∈ success.content) (above : MCP_TEXT_LIMIT < text.utf8ByteSize)
      (memory : text.utf8ByteSize < 2 ^ 64) :
    TellsItself success := by
  obtain ⟨-,few,uncut⟩ := notices_nil none_
  obtain ⟨front,isFront⟩ := (shownText_shown "MCP content item" text MCP_TEXT_LIMIT).told above (item_room memory)
  rw [List.take_of_length_le few] at uncut
  have some_ : shownText "MCP content item" text MCP_TEXT_LIMIT ≠ "" := by
    intro isEmpty
    rw [isFront] at isEmpty
    have two : ("\n\n" : String).utf8ByteSize = 2 := by decide
    have size := (empty_iff _).mp isEmpty
    rw [noticeText,String.utf8ByteSize_append,String.utf8ByteSize_append,two] at size
    omega
  refine ⟨text,location,front,isIn,above,?_⟩
  rw [kept,if_neg unnoticed,List.take_of_length_le few,← isFront]
  exact gate_items_kept some_ isIn uncut

theorem noticed_gated (noticed : Noticed success) : Gated success ↔ success.content.length ≤ MCP_CONTENT_ITEM_LIMIT ∧
    textBytes success.content ≤ MCP_TEXT_LIMIT ∧ structured_json_len success.structured_content ≤ MCP_STRUCTURED_LIMIT := by
  have same := gate_noticed noticed
  have all : kept success = success.content := if_pos noticed
  constructor
  · rintro ⟨items,text,structured,-,-⟩
    rw [all] at items text
    rw [same] at structured
    exact ⟨items,text,structured⟩
  · rintro ⟨items,text,structured⟩
    exact ⟨by rwa [all],by rwa [all],by rwa [same],.inl same,gate_again success⟩
theorem unnoticed_gated (short : ShortJson) (memory : ∀ text location, some (.Text text location) ∈ success.content →
    text.utf8ByteSize < 2 ^ 64)
    (unnoticed : ¬Noticed success) : Gated success ↔ ¬Silent success := by
  have keeps : kept success = (gate_items MCP_TEXT_LIMIT (success.content.take MCP_CONTENT_ITEM_LIMIT)).1 := if_neg unnoticed
  constructor
  · rintro gated ⟨structured,few,total,emptied⟩
    have small : SmallTexts success.content := by
      intro text isIn
      obtain ⟨item,isItem,isText⟩ := List.mem_filterMap.mp isIn
      rcases item_cases item with ⟨text',location,rfl⟩ | other
      · cases isText
        exact (text_le isItem).trans total.le
      · rw [other] at isText
        cases isText
    obtain ⟨uncut,whole⟩ := gate_items_whole small MCP_TEXT_LIMIT total.le
    have none_ : notices success = [] := by
      rw [notices]
      simp only [List.take_of_length_le few,uncut,if_neg (not_lt.mpr structured),if_neg (not_lt.mpr few),Bool.false_eq_true,if_false,
        List.append_nil]
    rcases gated.told with same | ⟨-,some_ | ⟨text,location,front,isIn,above,-⟩⟩
    · rw [gate_unnoticed unnoticed none_] at same
      exact whole.mp (congrArg McpSuccess.content same) emptied
    · exact some_ none_
    · exact absurd ((text_le isIn).trans total.le) (not_le.mpr above)
  · intro loud
    have bytes := gate_items_bytes (success.content.take MCP_CONTENT_ITEM_LIMIT) MCP_TEXT_LIMIT
    refine ⟨?_,?_,?_,?_,gate_again success⟩
    · rw [keeps]
      exact (gate_items_length _ _).trans (List.length_take_le _ _)
    · rw [keeps]
      omega
    · rw [gate_mcp,if_neg unnoticed]
      dsimp only
      split_ifs with above
      · exact struct_short short _ _
      · exact not_lt.mp above
    · have content : (gate_mcp success).content = kept success ++ (notices success).map mcp_notice := by
        rw [keeps,gate_mcp,if_neg unnoticed]
      by_cases none_ : notices success = []
      · obtain ⟨structured,few,uncut⟩ := notices_nil none_
        rw [List.take_of_length_le few] at uncut
        by_cases small : SmallTexts success.content
        · have total := gate_items_total uncut small
          obtain ⟨-,whole⟩ := gate_items_whole small MCP_TEXT_LIMIT total
          have full : ¬Emptied MCP_TEXT_LIMIT success.content := by
            intro emptied
            have enough : MCP_TEXT_LIMIT ≤ textBytes success.content := by
              obtain ⟨front,back,split,front_,-⟩ := emptied
              rw [split,textBytes,List.filterMap_append,List.map_append,List.sum_append]
              exact front_.ge.trans (Nat.le_add_right _ _)
            exact loud ⟨structured,few,total.antisymm enough,emptied⟩
          exact .inl (by rw [gate_unnoticed unnoticed none_,whole.mpr full])
        · rw [SmallTexts] at small
          push Not at small
          obtain ⟨text,isIn,above⟩ := small
          obtain ⟨item,isItem,isText⟩ := List.mem_filterMap.mp isIn
          rcases item_cases item with ⟨text',location,rfl⟩ | other
          · cases isText
            exact .inr ⟨content,.inr (tells_itself unnoticed none_ isItem above (memory _ _ isItem))⟩
          · rw [other] at isText
            cases isText
      · exact .inr ⟨content,.inl none_⟩

end Mcp

structure WebSearchReference where
  title : String
  url : String
  chunk : String
deriving DecidableEq

def web_search_bytes (references : List WebSearchReference) : Nat :=
  (references.map fun reference => reference.title.utf8ByteSize + reference.url.utf8ByteSize + reference.chunk.utf8ByteSize).sum
def limit_reference (reference : WebSearchReference) : WebSearchReference :=
  ⟨shownText "WebSearch title" reference.title WEB_SEARCH_TITLE_LIMIT,reference.url,
    shownText "WebSearch snippet" reference.chunk WEB_SEARCH_SNIPPET_LIMIT⟩

def popLoop (references : List WebSearchReference) : List WebSearchReference :=
  if _more : 1 < references.length ∧ WEB_SEARCH_LIMIT < web_search_bytes references then popLoop references.dropLast else references
termination_by references.length
decreasing_by
  rw [List.length_dropLast]
  exact Nat.sub_lt (Nat.zero_lt_one.trans _more.1) Nat.one_pos

/-- The chunk with the notice in place of its end, where the rest of the result takes `other` bytes. -/
def noticedChunk (chunk : String) (other original : Nat) : String :=
  let notice := truncation_notice "WebSearch" WEB_SEARCH_LIMIT (WEB_SEARCH_LIMIT - other) original
  trim_end_newlines (utf8Prefix chunk (WEB_SEARCH_LIMIT - (other + notice.utf8ByteSize + 2))) ++ "\n\n" ++ notice
def gate_web_search (references : List WebSearchReference) : List WebSearchReference :=
  let limited := references.map limit_reference
  let shown := popLoop limited
  if WEB_SEARCH_LIMIT < web_search_bytes limited then
    match shown.getLast? with
    | none => shown
    | some reference =>
      let other := web_search_bytes shown - reference.chunk.utf8ByteSize
      shown.dropLast ++ [{ reference with chunk := noticedChunk reference.chunk other (web_search_bytes limited) }]
  else shown

theorem search_bytes_append (front back : List WebSearchReference) :
    web_search_bytes (front ++ back) = web_search_bytes front + web_search_bytes back := by
  simp [web_search_bytes]
theorem search_bytes_take {references : List WebSearchReference} {a b : Nat} (less : a ≤ b) :
    web_search_bytes (references.take a) ≤ web_search_bytes (references.take b) := by
  have isFront : references.take a <+: references.take b := List.take_prefix_take_left less
  obtain ⟨rest,split⟩ := isFront
  rw [← split,search_bytes_append]
  exact Nat.le_add_right _ _

/-- So many references are left: the most that are within the limit, and at least one. -/
structure Left (references : List WebSearchReference) (count : Nat) : Prop where
  some_ : 0 < count ∧ count ≤ references.length
  within : count = 1 ∨ web_search_bytes (references.take count) ≤ WEB_SEARCH_LIMIT
  most : count < references.length → WEB_SEARCH_LIMIT < web_search_bytes (references.take (count + 1))

theorem Left.unique {references : List WebSearchReference} {a b : Nat} (left : Left references a) (also : Left references b) : a = b := by
  have notLess {a b : Nat} (left : Left references a) (also : Left references b) : ¬a < b := by
    intro less
    have above := left.most (less.trans_le also.some_.2)
    have more := above.trans_le (search_bytes_take less)
    rcases also.within with one | within
    · have some_ := left.some_.1
      omega
    · exact absurd within (not_le.mpr more)
  exact (not_lt.mp (notLess also left)).antisymm (not_lt.mp (notLess left also))
theorem popLoop_left (references : List WebSearchReference) : ∀ count, 0 < count ∧ count ≤ references.length →
    (count < references.length → WEB_SEARCH_LIMIT < web_search_bytes (references.take (count + 1))) →
    ∃ left, Left references left ∧ popLoop (references.take count) = references.take left := by
  intro count
  induction count with
  | zero => exact fun some_ => absurd some_.1 (lt_irrefl 0)
  | succ count ih =>
    intro some_ most
    have length : (references.take (count + 1)).length = count + 1 := List.length_take_of_le some_.2
    rw [popLoop]
    split_ifs with more
    · rw [length] at more
      rw [List.dropLast_eq_take,length,List.take_take,Nat.add_sub_cancel,Nat.min_eq_left (Nat.le_succ count)]
      exact ih ⟨Nat.lt_of_succ_lt_succ more.1,(Nat.le_succ _).trans some_.2⟩ fun _ => more.2
    · refine ⟨count + 1,⟨some_,?_,most⟩,rfl⟩
      rw [length,not_and_or,not_lt,not_lt] at more
      rcases more with one | within
      · exact .inl (one.antisymm (Nat.le_add_left _ _))
      · exact .inr within

/-- The references fit, or those that are left do together with the notice in place of the last chunk. -/
def Fits (references : List WebSearchReference) : Prop :=
  let limited := references.map limit_reference
  web_search_bytes limited ≤ WEB_SEARCH_LIMIT ∨ ∃ count last, Left limited (count + 1) ∧ limited[count]? = some last ∧
    let other := web_search_bytes (limited.take count) + last.title.utf8ByteSize + last.url.utf8ByteSize
    other + 2 + (truncation_notice "WebSearch" WEB_SEARCH_LIMIT (WEB_SEARCH_LIMIT - other) (web_search_bytes limited)).utf8ByteSize ≤
      WEB_SEARCH_LIMIT

theorem noticedChunk_size (chunk : String) (other original : Nat) :
    let notice := (truncation_notice "WebSearch" WEB_SEARCH_LIMIT (WEB_SEARCH_LIMIT - other) original).utf8ByteSize
    other + (noticedChunk chunk other original).utf8ByteSize ≤ WEB_SEARCH_LIMIT ↔ other + 2 + notice ≤ WEB_SEARCH_LIMIT := by
  intro notice
  have front (available : Nat) : (trim_end_newlines (utf8Prefix chunk available)).utf8ByteSize ≤ available := by
    have fronts := size_front (trim_front (utf8Prefix chunk available))
    rw [← byteSize,← byteSize] at fronts
    exact fronts.trans (utf8_front_size chunk available)
  have two : ("\n\n" : String).utf8ByteSize = 2 := by decide
  have size : (noticedChunk chunk other original).utf8ByteSize =
      (trim_end_newlines (utf8Prefix chunk (WEB_SEARCH_LIMIT - (other + notice + 2)))).utf8ByteSize + 2 + notice := by
    rw [noticedChunk,String.utf8ByteSize_append,String.utf8ByteSize_append,two]
  have available := front (WEB_SEARCH_LIMIT - (other + notice + 2))
  rw [size]
  generalize (trim_end_newlines (utf8Prefix chunk (WEB_SEARCH_LIMIT - (other + notice + 2)))).utf8ByteSize = shown at available ⊢
  omega

theorem search_fits_iff (references : List WebSearchReference) :
    web_search_bytes (gate_web_search references) ≤ WEB_SEARCH_LIMIT ↔ Fits references := by
  obtain ⟨limited,isLimited⟩ : ∃ limited, references.map limit_reference = limited := ⟨_,rfl⟩
  rw [gate_web_search,Fits,isLimited]
  by_cases above : WEB_SEARCH_LIMIT < web_search_bytes limited
  · have nonempty : limited ≠ [] := by
      rintro rfl
      exact absurd above (Nat.not_lt_zero _)
    obtain ⟨left,isLeft,popped⟩ := popLoop_left limited limited.length ⟨List.length_pos_of_ne_nil nonempty,le_rfl⟩
      fun less => absurd less (lt_irrefl _)
    rw [List.take_length] at popped
    obtain ⟨count,rfl⟩ := Nat.exists_eq_add_one.mpr isLeft.some_.1
    obtain ⟨last,isLast⟩ : ∃ last, limited[count]? = some last := ⟨_,List.getElem?_eq_getElem isLeft.some_.2⟩
    have split : limited.take (count + 1) = limited.take count ++ [last] := by rw [List.take_add_one,isLast]; rfl
    have iff := noticedChunk_size last.chunk (web_search_bytes (limited.take count) + last.title.utf8ByteSize + last.url.utf8ByteSize)
      (web_search_bytes limited)
    have total (chunk : String) : web_search_bytes (limited.take count ++ [{ last with chunk := chunk }]) =
        web_search_bytes (limited.take count) + last.title.utf8ByteSize + last.url.utf8ByteSize + chunk.utf8ByteSize := by
      rw [search_bytes_append]
      simp [web_search_bytes,Nat.add_assoc]
    simp only [popped,if_pos above,split,List.getLast?_append,List.getLast?_singleton,Option.some_or,List.dropLast_concat,total,
      Nat.add_sub_cancel]
    refine iff.trans ⟨?_,?_⟩
    · exact fun room => .inr ⟨count,last,isLeft,isLast,room⟩
    · rintro (within | ⟨count',last',isLeft',isLast',room⟩)
      · exact absurd within (not_le.mpr above)
      · obtain rfl := Nat.succ.inj (isLeft'.unique isLeft)
        cases isLast'.symm.trans isLast
        exact room
  · have within := not_lt.mp above
    have all : popLoop limited = limited := by
      rw [popLoop,dif_neg fun more => above more.2]
    simp only [if_neg above,all,within,true_or]

/-- Both gates keep their limits exactly where the result does not only look gated and the urls leave room. -/
theorem gates_bounded [SerdeText] (short : ShortJson) (success : McpSuccess)
    (memory : ∀ text location, some (.Text text location) ∈ success.content → text.utf8ByteSize < 2 ^ 64)
    (references : List WebSearchReference) :
    (Gated success ↔ (Noticed success ∧ success.content.length ≤ MCP_CONTENT_ITEM_LIMIT ∧ textBytes success.content ≤ MCP_TEXT_LIMIT ∧
        structured_json_len success.structured_content ≤ MCP_STRUCTURED_LIMIT) ∨ (¬Noticed success ∧ ¬Silent success)) ∧
      (web_search_bytes (gate_web_search references) ≤ WEB_SEARCH_LIMIT ↔ Fits references) := by
  refine ⟨?_,search_fits_iff references⟩
  by_cases noticed : Noticed success
  · rw [noticed_gated noticed]
    exact ⟨fun within => .inl ⟨noticed,within⟩,fun right => right.elim And.right fun other => absurd noticed other.1⟩
  · rw [unnoticed_gated short memory noticed]
    exact ⟨fun loud => .inr ⟨noticed,loud⟩,fun right => right.elim (fun other => absurd other.1 noticed) And.right⟩

section Tests
/-- The text of the structured content below and of what is in it. -/
local instance : SerdeText where
  value value :=
    if value = .Object [("text",.String "hello")] then "\x7b\"text\":\"hello\"\x7d" else if value = .String "hello" then "\"hello\"" else "\x7b\x7d"
  tool _ := ""
  messages _ := ""

def greetings : McpSuccess := ⟨List.replicate 21 (some (.Text "hello" none)),false,some [("text",.StringValue "hello")]⟩
theorem greetings_bounded : Gated greetings ∧ web_search_bytes (gate_web_search [⟨"a","https://b","c"⟩]) ≤ WEB_SEARCH_LIMIT := by
  have object (members : List (String × Value)) : (SerdeText.value (.Object members)).utf8ByteSize ≤
      2 + (members.map fun member => 6 * member.1.utf8ByteSize + 4 + (SerdeText.value member.2).utf8ByteSize).sum := by
    by_cases same : members = [("text",.String "hello")]
    · rw [same]
      decide +kernel
    · have other : SerdeText.value (.Object members) = "\x7b\x7d" := (if_neg (same ∘ Value.Object.inj)).trans (if_neg nofun)
      rw [other]
      exact Nat.le_add_right 2 _
  have flat (bits : UInt64) : SerdeText.value (.Number (.Float bits)) = "\x7b\x7d" := (if_neg nofun).trans (if_neg nofun)
  have short : ShortJson := ⟨⟨by decide +kernel,by decide +kernel,fun bits => flat bits ▸ (by decide)⟩,object⟩
  have memory : ∀ text location, some (McpContent.Text text location) ∈ greetings.content → text.utf8ByteSize < 2 ^ 64 := by
    intro text location isIn
    cases (List.eq_of_mem_replicate isIn)
    decide
  have both := gates_bounded short greetings memory [⟨"a","https://b","c"⟩]
  have unnoticed : ¬Noticed greetings := by decide
  have loud : ¬Silent greetings := fun silent => absurd silent.2.1 (by decide)
  refine ⟨both.1.mpr (.inr ⟨unnoticed,loud⟩),both.2.mpr (.inl ?_)⟩
  have limited : limit_reference ⟨"a","https://b","c"⟩ = ⟨"a","https://b","c"⟩ := by
    rw [limit_reference,shownText_fits (by decide),shownText_fits (by decide)]
  rw [List.map_singleton,limited]
  decide

/-- One item more than the limit, each a text that looks like a notice. -/
def looksGated : McpSuccess := ⟨List.replicate 21 (some (.Text "[truncated:" none)),false,none⟩
theorem looks_gated_unbounded : ¬Gated looksGated := by
  have noticed : Noticed looksGated := by decide
  intro gated
  exact absurd ((noticed_gated noticed).mp gated).1 (by decide)
end Tests

end MyCursor.McpGate
