import MyCursor.Truncation
import Mathlib.Algebra.Order.BigOperators.Group.List

/-!
# The gate before the results of a search

`gate_grep` of `cursor/tools/tool_call_result/gate.rs`: one budget goes through the
workspaces in the order of their names and then to the active editor. What it leaves
is compared with what came in: when it is the same, how long it is, which matches
are kept.
-/
namespace MyCursor.GrepGate
open Text ToolResults Truncation

def GREP_CONTENT_LIMIT : Nat := 32 * KIB
def GREP_MATCH_LIMIT : Nat := 2 * KIB
def GREP_MATCHES_PER_FILE : Nat := 100
def GREP_TOTAL_MATCHES : Nat := 300
def GREP_LIST_LIMIT : Nat := 300

structure GrepContentMatch where
  line_number : Int32
  content : String
  content_truncated : Bool
  is_context_line : Bool
deriving DecidableEq

/-- `matched` stands for `matches` here and below. -/
structure GrepFileMatch where
  file : String
  matched : List GrepContentMatch
deriving DecidableEq

structure GrepContentResult where
  matched : List GrepFileMatch
  total_lines : Int32
  total_matched_lines : Int32
  client_truncated : Bool
  ripgrep_truncated : Bool
  head_limit_applied : Option Int32
  offset_applied : Option Int32
deriving DecidableEq

structure GrepFilesResult where
  files : List String
  total_files : Int32
  client_truncated : Bool
  ripgrep_truncated : Bool
  head_limit_applied : Option Int32
  offset_applied : Option Int32
deriving DecidableEq

structure GrepCountResult where
  counts : List (String × Int32)
  total_files : Int32
  total_matches : Int32
  client_truncated : Bool
  ripgrep_truncated : Bool
  head_limit_applied : Option Int32
  offset_applied : Option Int32
deriving DecidableEq

inductive GrepUnionResult where
  | Content (content : GrepContentResult)
  | Files (files : GrepFilesResult)
  | Count (counts : GrepCountResult)
  | None
deriving DecidableEq

structure GrepSuccess where
  pattern : String
  path : String
  output_mode : String
  workspace_results : List (String × GrepUnionResult)
  active_editor_result : Option GrepUnionResult
deriving DecidableEq

structure GrepBudget where
  content_bytes : Nat
  matches_left : Nat

def GrepBudget.Spent (budget : GrepBudget) : Prop := budget.matches_left = 0 ∨ budget.content_bytes = 0
instance (budget : GrepBudget) : Decidable budget.Spent := inferInstanceAs (Decidable (_ ∨ _))

def is_grep_notice (matched : GrepContentMatch) : Bool :=
  decide (matched.line_number = 0) && matched.content_truncated && starts_with matched.content "[truncated: Grep result exceeded"
def hasNotice (files : List GrepFileMatch) : Bool := (files.flatMap (·.matched)).any is_grep_notice

def matchBytes (matched : List GrepContentMatch) : Nat := (matched.map (·.content.utf8ByteSize)).sum
def grep_content_bytes (files : List GrepFileMatch) : Nat := matchBytes (files.flatMap (·.matched))

def gate_match (budget : GrepBudget) (matched : GrepContentMatch) : GrepContentMatch × Bool :=
  let each := shownText "Grep match" matched.content GREP_MATCH_LIMIT
  let cut := decide (each ≠ matched.content) || decide (budget.content_bytes < each.utf8ByteSize)
  let content := if budget.content_bytes < each.utf8ByteSize then shownText "Grep" each budget.content_bytes else each
  (⟨matched.line_number,content,matched.content_truncated || cut,matched.is_context_line⟩,cut)

/-- The matches of a file after `count` of them: what is kept, the budget and whether something is cut. -/
def gate_matches : Nat → GrepBudget → List GrepContentMatch → List GrepContentMatch × GrepBudget × Bool
  | _, budget, [] => ([],budget,false)
  | count, budget, matched :: rest =>
    if is_grep_notice matched then
      let tail := gate_matches (count + 1) budget rest
      (matched :: tail.1,tail.2)
    else if GREP_MATCHES_PER_FILE ≤ count ∨ budget.Spent then ([],budget,true)
    else
      let next := gate_match budget matched
      -- A blank match ends its file.
      if trim next.1.content = "" then ([],budget,true)
      else
        let tail := gate_matches (count + 1) ⟨budget.content_bytes - next.1.content.utf8ByteSize,budget.matches_left - 1⟩ rest
        (next.1 :: tail.1,tail.2.1,next.2 || tail.2.2)

def gate_files : GrepBudget → List GrepFileMatch → List GrepFileMatch × GrepBudget × Bool
  | budget, [] => ([],budget,false)
  | budget, file :: rest =>
    if budget.Spent then ([],budget,true)
    else
      let next := gate_matches 0 budget file.matched
      let tail := gate_files next.2.1 rest
      (if next.1 = [] then tail.1 else ⟨file.file,next.1⟩ :: tail.1,tail.2.1,
        next.2.2 || decide (next.1.length < file.matched.length) || tail.2.2)

def pop_match (files : List GrepFileMatch) : List GrepFileMatch :=
  match files.getLast? with
  | none => []
  | some file => if file.matched.dropLast = [] then files.dropLast else files.dropLast ++ [⟨file.file,file.matched.dropLast⟩]
def push_notice (files : List GrepFileMatch) (matched : GrepContentMatch) : List GrepFileMatch :=
  match files.getLast? with
  | none => [⟨"[truncated]",[matched]⟩]
  | some file => files.dropLast ++ [⟨file.file,file.matched ++ [matched]⟩]
def grepNotice (used original_bytes : Nat) : GrepContentMatch :=
  ⟨0,truncation_notice "Grep" GREP_CONTENT_LIMIT used original_bytes,true,true⟩

@[simp] theorem pop_concat (front : List GrepFileMatch) (file : GrepFileMatch) : pop_match (front ++ [file]) =
    if file.matched.dropLast = [] then front else front ++ [⟨file.file,file.matched.dropLast⟩] := by simp [pop_match]
@[simp] theorem push_concat (front : List GrepFileMatch) (file : GrepFileMatch) (matched : GrepContentMatch) :
    push_notice (front ++ [file]) matched = front ++ [⟨file.file,file.matched ++ [matched]⟩] := by simp [push_notice]

variable {files : List GrepFileMatch}

theorem pop_less (some_ : files ≠ []) : ((pop_match files).map (·.matched.length + 1)).sum < (files.map (·.matched.length + 1)).sum := by
  obtain ⟨front,file,rfl⟩ := List.eq_nil_or_concat files |>.resolve_left some_
  rw [List.concat_eq_append,pop_concat]
  split_ifs with single
  · simp
  · have nonempty : file.matched ≠ [] := fun none_ => single (by rw [none_]; rfl)
    have shorter : file.matched.dropLast.length < file.matched.length := by
      rw [List.length_dropLast]
      exact Nat.sub_lt (List.length_pos_of_ne_nil nonempty) Nat.one_pos
    simpa using shorter

/-- The loop of `add_grep_notice`. -/
def noticeLoop (original_bytes : Nat) (files : List GrepFileMatch) : List GrepFileMatch :=
  let notice := grepNotice (grep_content_bytes files) original_bytes
  if grep_content_bytes files + notice.content.utf8ByteSize ≤ GREP_CONTENT_LIMIT then push_notice files notice
  else if _some : files = [] then files
  else noticeLoop original_bytes (pop_match files)
termination_by (files.map (·.matched.length + 1)).sum
decreasing_by exact pop_less _some

def add_grep_notice (files : List GrepFileMatch) (original_bytes : Nat) : List GrepFileMatch :=
  if hasNotice files then files else noticeLoop original_bytes files

def gate_grep_content (budget : GrepBudget) (content : GrepContentResult) : GrepContentResult × GrepBudget :=
  if hasNotice content.matched then (content,budget)
  else
    let gated := gate_files budget content.matched
    if gated.2.2 || decide (gated.1.length < content.matched.length) then
      ({ content with client_truncated := true, matched := add_grep_notice gated.1 (grep_content_bytes content.matched) },gated.2.1)
    else ({ content with matched := gated.1 },gated.2.1)

def gate_grep_union (budget : GrepBudget) : GrepUnionResult → GrepUnionResult × GrepBudget
  | .Content content =>
    let gated := gate_grep_content budget content
    (.Content gated.1,gated.2)
  | .Files files =>
    let limited := if GREP_LIST_LIMIT < files.files.length then
      { files with files := files.files.take GREP_LIST_LIMIT, client_truncated := true } else files
    (.Files (if limited.total_files ≤ 0 then { limited with total_files := Int32.ofNat files.files.length } else limited),budget)
  | .Count counts =>
    let limited := if GREP_LIST_LIMIT < counts.counts.length then
      { counts with counts := counts.counts.take GREP_LIST_LIMIT, client_truncated := true } else counts
    (.Count (if limited.total_files ≤ 0 then { limited with total_files := Int32.ofNat counts.counts.length } else limited),budget)
  | .None => (.None,budget)

def gate_workspaces : GrepBudget → List (String × GrepUnionResult) → List (String × GrepUnionResult) × GrepBudget
  | budget, [] => ([],budget)
  | budget, result :: rest =>
    let next := gate_grep_union budget result.2
    let tail := gate_workspaces next.2 rest
    ((result.1,next.1) :: tail.1,tail.2)

def gate_grep (success : GrepSuccess) : GrepSuccess :=
  let gated := gate_workspaces ⟨GREP_CONTENT_LIMIT,GREP_TOTAL_MATCHES⟩ success.workspace_results
  { success with
    workspace_results := gated.1
    active_editor_result := success.active_editor_result.map fun result => (gate_grep_union gated.2 result).1 }

@[simp] theorem matchBytes_nil : matchBytes [] = 0 := rfl
@[simp] theorem matchBytes_cons (matched : GrepContentMatch) (rest : List GrepContentMatch) :
    matchBytes (matched :: rest) = matched.content.utf8ByteSize + matchBytes rest := List.sum_cons
@[simp] theorem matchBytes_append (front back : List GrepContentMatch) :
  matchBytes (front ++ back) = matchBytes front + matchBytes back := by
  simp [matchBytes]
@[simp] theorem bytes_nil : grep_content_bytes [] = 0 := rfl
@[simp] theorem bytes_cons (file : GrepFileMatch) (rest : List GrepFileMatch) :
    grep_content_bytes (file :: rest) = matchBytes file.matched + grep_content_bytes rest := matchBytes_append _ _
@[simp] theorem bytes_append (front back : List GrepFileMatch) :
    grep_content_bytes (front ++ back) = grep_content_bytes front + grep_content_bytes back := by
  simp [grep_content_bytes]

theorem shown_size (name content : String) (limit : Nat) : (shownText name content limit).utf8ByteSize ≤ limit :=
  (shownText_shown name content limit).within
theorem gate_match_size (budget : GrepBudget) (matched : GrepContentMatch) :
    (gate_match budget matched).1.content.utf8ByteSize ≤ budget.content_bytes := by
  rw [gate_match]
  by_cases above : budget.content_bytes < (shownText "Grep match" matched.content GREP_MATCH_LIMIT).utf8ByteSize
  · simp only [if_pos above]
    exact shown_size _ _ _
  · simp only [if_neg above]
    exact not_lt.mp above

def Unnoticed (matched : List GrepContentMatch) : Prop := ∀ one ∈ matched, is_grep_notice one = false
theorem hasNotice_iff (files : List GrepFileMatch) : hasNotice files = false ↔ ∀ file ∈ files, Unnoticed file.matched := by
  simp only [hasNotice,List.any_eq_false,List.mem_flatMap,Unnoticed,Bool.not_eq_true]
  exact ⟨fun all file isFile one isOne => all one ⟨file,isFile,isOne⟩,fun all one ⟨file,isFile,isOne⟩ => all file isFile one isOne⟩

theorem gate_matches_bytes {matched : List GrepContentMatch} (unnoticed : Unnoticed matched) : ∀ (count : Nat) (budget : GrepBudget),
    matchBytes (gate_matches count budget matched).1 + (gate_matches count budget matched).2.1.content_bytes = budget.content_bytes := by
  induction matched with
  | nil => exact fun _ budget => Nat.zero_add _
  | cons one rest ih =>
    intro count budget
    obtain ⟨plain,restPlain⟩ := List.forall_mem_cons.mp unnoticed
    rw [gate_matches,plain]
    by_cases stops : GREP_MATCHES_PER_FILE ≤ count ∨ budget.Spent
    · simp [stops]
    · by_cases blank : trim (gate_match budget one).1.content = ""
      · simp [stops,blank]
      · have within := gate_match_size budget one
        have total := ih restPlain (count + 1) ⟨budget.content_bytes - (gate_match budget one).1.content.utf8ByteSize,
          budget.matches_left - 1⟩
        simp only [Bool.false_eq_true,if_false,if_neg stops,if_neg blank,matchBytes_cons]
        dsimp only at total
        omega

theorem gate_files_bytes (unnoticed : hasNotice files = false) : ∀ budget : GrepBudget,
    grep_content_bytes (gate_files budget files).1 + (gate_files budget files).2.1.content_bytes = budget.content_bytes := by
  rw [hasNotice_iff] at unnoticed
  induction files with
  | nil => exact fun budget => Nat.zero_add _
  | cons file rest ih =>
    intro budget
    obtain ⟨plain,restPlain⟩ := List.forall_mem_cons.mp unnoticed
    rw [gate_files]
    by_cases spent : budget.Spent
    · simp [spent]
    · have total := gate_matches_bytes plain 0 budget
      have restTotal := ih restPlain (gate_matches 0 budget file.matched).2.1
      rw [if_neg spent]
      by_cases none_ : (gate_matches 0 budget file.matched).1 = []
      · rw [none_,matchBytes_nil] at total
        simp only [if_pos none_]
        omega
      · simp only [if_neg none_,bytes_cons]
        omega

variable {matched : GrepContentMatch}

theorem notice_size_mono {a b : Nat} (less : a ≤ b) (original_bytes : Nat) :
    (grepNotice a original_bytes).content.utf8ByteSize ≤ (grepNotice b original_bytes).content.utf8ByteSize :=
  truncation_notice_le "Grep" GREP_CONTENT_LIMIT (digits_mono less) le_rfl

def noticeSize (original_bytes : Nat) : Nat := (grepNotice GREP_CONTENT_LIMIT original_bytes).content.utf8ByteSize

theorem push_bytes (files : List GrepFileMatch) (matched : GrepContentMatch) :
    grep_content_bytes (push_notice files matched) = grep_content_bytes files + matched.content.utf8ByteSize := by
  rcases List.eq_nil_or_concat files with rfl | ⟨front,file,rfl⟩
  · simp [push_notice]
  · rw [List.concat_eq_append,push_concat]
    simp [Nat.add_assoc]
theorem noticeLoop_bytes (original_bytes : Nat) (files : List GrepFileMatch) :
    grep_content_bytes (noticeLoop original_bytes files) ≤ GREP_CONTENT_LIMIT := by
  induction files using noticeLoop.induct original_bytes with
  | case1 files notice fits => rwa [noticeLoop,if_pos fits,push_bytes]
  | case2 notice above =>
    rw [noticeLoop,if_neg above,dif_pos rfl]
    exact Nat.zero_le _
  | case3 files notice above some_ ih => rwa [noticeLoop,if_neg above,dif_neg some_]

theorem notice_front (name : String) (limit shown original : Nat) : ∃ a b c d e f : String,
    truncation_notice name limit shown original = "[truncated: " ++ name ++ " result exceeded " ++ a ++ b ++ c ++ d ++ e ++ f :=
  ⟨_,_,_,_,_,_,rfl⟩
theorem noticed (used original_bytes : Nat) : is_grep_notice (grepNotice used original_bytes) = true := by
  obtain ⟨a,b,c,d,e,f,parts⟩ := notice_front "Grep" GREP_CONTENT_LIMIT used original_bytes
  have word : "[truncated: ".toList ++ "Grep".toList ++ " result exceeded ".toList = "[truncated: Grep result exceeded".toList ++ [' '] := by
    decide
  have starts : "[truncated: Grep result exceeded".toList <+: (grepNotice used original_bytes).content.toList := by
    rw [grepNotice,parts]
    simp only [String.toList_append,word,List.append_assoc]
    exact List.prefix_append _ _
  rw [is_grep_notice,starts_with,decide_eq_true starts]
  rfl
theorem push_noticed (files : List GrepFileMatch) (isNotice : is_grep_notice matched = true) :
    hasNotice (push_notice files matched) = true := by
  rcases List.eq_nil_or_concat files with rfl | ⟨front,file,rfl⟩
  · simp [push_notice,hasNotice,isNotice]
  · rw [List.concat_eq_append,push_concat]
    simp [hasNotice,isNotice]
theorem noticeLoop_noticed {original_bytes : Nat} (room : noticeSize original_bytes ≤ GREP_CONTENT_LIMIT) (files : List GrepFileMatch) :
    hasNotice (noticeLoop original_bytes files) = true := by
  induction files using noticeLoop.induct original_bytes with
  | case1 files notice fits =>
    rw [noticeLoop,if_pos fits]
    exact push_noticed files (noticed _ _)
  | case2 notice above =>
    have used : grep_content_bytes [] ≤ GREP_CONTENT_LIMIT := Nat.zero_le _
    exact absurd ((Nat.zero_add _).le.trans ((notice_size_mono used original_bytes).trans room)) above
  | case3 files notice above some_ ih => rwa [noticeLoop,if_neg above,dif_neg some_]
theorem add_noticed {original_bytes : Nat} (room : noticeSize original_bytes ≤ GREP_CONTENT_LIMIT) (files : List GrepFileMatch) :
    hasNotice (add_grep_notice files original_bytes) = true := by
  rw [add_grep_notice]
  split_ifs with already
  · exact already
  · exact noticeLoop_noticed room files
theorem noticeSize_room {original_bytes : Nat} (small : original_bytes ≤ GREP_CONTENT_LIMIT) :
    noticeSize original_bytes ≤ GREP_CONTENT_LIMIT := by
  have digits : (toString original_bytes).utf8ByteSize ≤ (toString GREP_CONTENT_LIMIT).utf8ByteSize := digits_mono small
  have parts : ∃ front last : String, ∀ original, truncation_notice "Grep" GREP_CONTENT_LIMIT GREP_CONTENT_LIMIT original =
      front ++ toString original ++ last := ⟨_,_,fun _ => rfl⟩
  have most : (truncation_notice "Grep" GREP_CONTENT_LIMIT GREP_CONTENT_LIMIT GREP_CONTENT_LIMIT).utf8ByteSize ≤ GREP_CONTENT_LIMIT := by
    decide +kernel
  obtain ⟨front,last,isParts⟩ := parts
  rw [isParts] at most
  rw [noticeSize,grepNotice,isParts]
  generalize toString original_bytes = x at digits ⊢
  generalize toString GREP_CONTENT_LIMIT = y at digits most
  simp only [String.utf8ByteSize_append] at most ⊢
  omega

variable {budget : GrepBudget}

def Blank (matched : GrepContentMatch) : Prop := trim matched.content = ""

theorem gate_match_uncut (uncut : (gate_match budget matched).2 = false) : (gate_match budget matched).1 = matched := by
  simp only [gate_match,Bool.or_eq_false_iff,decide_eq_false_iff_not,not_not] at uncut
  simp [gate_match,uncut.1,uncut.1 ▸ uncut.2]
theorem full_size (full : ¬Blank matched) : 0 < matched.content.utf8ByteSize := by
  rw [Nat.pos_iff_ne_zero,Ne,String.utf8ByteSize_eq_zero_iff]
  intro none_
  exact full (by rw [Blank,none_]; rfl)

def matchCount (files : List GrepFileMatch) : Nat := (files.map (·.matched.length)).sum

/-- A notice is there already, or no file is empty and no match blank. -/
def Complete (files : List GrepFileMatch) : Prop :=
  hasNotice files = true ∨ ∀ file ∈ files, file.matched ≠ [] ∧ ∀ one ∈ file.matched, ¬Blank one
def Small (files : List GrepFileMatch) : Prop :=
  ∀ file ∈ files, file.matched.length ≤ GREP_MATCHES_PER_FILE ∧ ∀ one ∈ file.matched, one.content.utf8ByteSize ≤ GREP_MATCH_LIMIT

section Contents
variable {budget : GrepBudget} {content : GrepContentResult}

theorem gate_content_bytes (unnoticed : hasNotice content.matched = false) (limited : budget.content_bytes ≤ GREP_CONTENT_LIMIT) :
    grep_content_bytes (gate_grep_content budget content).1.matched ≤ GREP_CONTENT_LIMIT := by
  have total := gate_files_bytes unnoticed budget
  have kept : grep_content_bytes (gate_files budget content.matched).1 ≤ GREP_CONTENT_LIMIT :=
    (Nat.le_add_right _ _).trans (total.trans_le limited)
  rw [gate_grep_content,unnoticed,if_neg Bool.false_ne_true]
  dsimp only
  split_ifs
  · rw [add_grep_notice]
    split_ifs
    · exact kept
    · exact noticeLoop_bytes _ _
  · exact kept
theorem gate_content_empty (none_ : content.matched = []) : gate_grep_content budget content = (content,budget) := by
  obtain ⟨_,_,_,_,_,_,_⟩ := content
  subst none_
  rfl

structure KeptMatch (before after : GrepContentMatch) : Prop where
  line : after.line_number = before.line_number ∧ after.is_context_line = before.is_context_line
  content : after = before ∨ after.content_truncated = true ∧
    ∃ limit, after.content = shownText "Grep" (shownText "Grep match" before.content GREP_MATCH_LIMIT) limit
def KeptFile (before after : GrepFileMatch) : Prop :=
  after.file = before.file ∧ ∃ first, first <+: before.matched ∧ List.Forall₂ KeptMatch first after.matched
def KeptFiles (before after : List GrepFileMatch) : Prop := ∃ kept, kept.Sublist before ∧ List.Forall₂ KeptFile kept after

theorem gate_match_kept (budget : GrepBudget) (matched : GrepContentMatch) : KeptMatch matched (gate_match budget matched).1 := by
  refine ⟨⟨rfl,rfl⟩,?_⟩
  by_cases cut : (gate_match budget matched).2 = true
  · refine .inr ⟨by rw [gate_match] at cut ⊢; exact Bool.or_eq_true_iff.mpr (.inr cut),?_⟩
    by_cases above : budget.content_bytes < (shownText "Grep match" matched.content GREP_MATCH_LIMIT).utf8ByteSize
    · exact ⟨budget.content_bytes,if_pos above⟩
    · exact ⟨budget.content_bytes,(if_neg above).trans (shownText_fits (not_lt.mp above)).symm⟩
  · exact .inl (gate_match_uncut (Bool.not_eq_true _ ▸ cut))
theorem gate_matches_kept (matched : List GrepContentMatch) : ∀ (count : Nat) (budget : GrepBudget),
    ∃ first, first <+: matched ∧ List.Forall₂ KeptMatch first (gate_matches count budget matched).1 := by
  have stop {matched : List GrepContentMatch} : ∃ first, first <+: matched ∧ List.Forall₂ KeptMatch first [] :=
    ⟨[],List.nil_prefix,.nil⟩
  induction matched with
  | nil => exact fun _ _ => stop
  | cons one rest ih =>
    intro count budget
    have goes {kept : GrepContentMatch} {budget : GrepBudget} (isKept : KeptMatch one kept) : ∃ first, first <+: one :: rest ∧
        List.Forall₂ KeptMatch first (kept :: (gate_matches (count + 1) budget rest).1) := by
      obtain ⟨first,isFirst,areKept⟩ := ih (count + 1) budget
      exact ⟨one :: first,List.prefix_cons_inj one |>.mpr isFirst,.cons isKept areKept⟩
    rw [gate_matches]
    split_ifs
    · exact goes ⟨⟨rfl,rfl⟩,.inl rfl⟩
    · exact stop
    · dsimp only
      split_ifs
      · exact stop
      · exact goes (gate_match_kept budget one)
theorem gate_files_kept (files : List GrepFileMatch) : ∀ budget : GrepBudget, KeptFiles files (gate_files budget files).1 := by
  induction files with
  | nil => exact fun _ => ⟨[],List.Sublist.refl _,.nil⟩
  | cons file rest ih =>
    intro budget
    rw [gate_files]
    split_ifs
    · exact ⟨[],List.nil_sublist _,.nil⟩
    · obtain ⟨kept,inRest,areKept⟩ := ih (gate_matches 0 budget file.matched).2.1
      dsimp only
      split_ifs
      · exact ⟨kept,inRest.cons _,areKept⟩
      · exact ⟨file :: kept,inRest.cons_cons _,.cons ⟨rfl,gate_matches_kept _ _ _⟩ areKept⟩

theorem pop_kept {before files : List GrepFileMatch} (kept : KeptFiles before files) : KeptFiles before (pop_match files) := by
  rcases List.eq_nil_or_concat files with rfl | ⟨front,file,rfl⟩
  · exact kept
  · rw [List.concat_eq_append] at kept ⊢
    obtain ⟨all,inBefore,areKept⟩ := kept
    have areFirst := List.forall₂_take_append _ _ _ areKept
    have isLast := List.forall₂_drop_append _ _ _ areKept
    have split := List.take_append_drop front.length all
    generalize all.take front.length = first at areFirst split
    generalize all.drop front.length = last at isLast split
    subst split
    obtain ⟨one,nothing,⟨name,fronts,isFront,matches_⟩,none_,rfl⟩ := List.forall₂_cons_right_iff.mp isLast
    rw [pop_concat]
    split_ifs
    · exact ⟨first,(List.sublist_append_left _ _).trans inBefore,areFirst⟩
    · have fewer := List.forall₂_take (file.matched.length - 1) matches_
      rw [← List.dropLast_eq_take] at fewer
      exact ⟨first ++ one :: nothing,inBefore,List.rel_append areFirst (.cons ⟨name,_,(List.take_prefix _ fronts).trans isFront,
        fewer⟩ none_)⟩
/-- The files that are kept, as they are or with a notice at their end. -/
def KeptWithNotice (before after : List GrepFileMatch) : Prop :=
  ∃ kept, KeptFiles before kept ∧ (after = kept ∨ ∃ used original, after = push_notice kept (grepNotice used original))
theorem noticeLoop_kept {before : List GrepFileMatch} (original_bytes : Nat) (files : List GrepFileMatch) (kept : KeptFiles before files) :
    KeptWithNotice before (noticeLoop original_bytes files) := by
  induction files using noticeLoop.induct original_bytes with
  | case1 files notice fits =>
    rw [noticeLoop,if_pos fits]
    exact ⟨files,kept,.inr ⟨_,_,rfl⟩⟩
  | case2 notice above =>
    rw [noticeLoop,if_neg above,dif_pos rfl]
    exact ⟨[],kept,.inl rfl⟩
  | case3 files notice above some_ ih =>
    rw [noticeLoop,if_neg above,dif_neg some_]
    exact ih (pop_kept kept)
theorem gate_content_kept (budget : GrepBudget) (content : GrepContentResult) :
    KeptWithNotice content.matched (gate_grep_content budget content).1.matched := by
  have whole : KeptFiles content.matched content.matched :=
    ⟨content.matched,List.Sublist.refl _,List.forall₂_same.mpr fun file _ =>
      ⟨rfl,file.matched,List.prefix_refl _,List.forall₂_same.mpr fun one _ => ⟨⟨rfl,rfl⟩,.inl rfl⟩⟩⟩
  have kept := gate_files_kept content.matched budget
  rw [gate_grep_content]
  split_ifs
  · exact ⟨_,whole,.inl rfl⟩
  · dsimp only
    split_ifs
    · rw [add_grep_notice]
      split_ifs
      · exact ⟨_,kept,.inl rfl⟩
      · exact noticeLoop_kept _ _ kept
    · exact ⟨_,kept,.inl rfl⟩

end Contents

/-! ## Where the bytes suffice -/

def shownMatch (matched : GrepContentMatch) : GrepContentMatch :=
  let each := shownText "Grep match" matched.content GREP_MATCH_LIMIT
  ⟨matched.line_number,each,matched.content_truncated || decide (each ≠ matched.content),matched.is_context_line⟩
/-- The matches of a file that come up, up to the first blank one: at most `each` of the file
    and `left` in all. -/
def seen : Nat → Nat → List GrepContentMatch → List GrepContentMatch
  | each + 1, left + 1, matched :: rest =>
    shownMatch matched :: if trim (shownMatch matched).content = "" then [] else seen each left rest
  | _, _, _ => []
def shown (each left : Nat) (matched : List GrepContentMatch) : List GrepContentMatch :=
  (seen each left matched).filter fun one => decide (trim one.content ≠ "")
def seenBytes : Nat → List GrepFileMatch → Nat
  | _, [] => 0
  | left, file :: rest => matchBytes (seen GREP_MATCHES_PER_FILE left file.matched) +
      seenBytes (left - (shown GREP_MATCHES_PER_FILE left file.matched).length) rest
def shownFiles : Nat → List GrepFileMatch → List GrepFileMatch
  | _, [] => []
  | left, file :: rest =>
    let kept := shown GREP_MATCHES_PER_FILE left file.matched
    (if kept = [] then [] else [⟨file.file,kept⟩]) ++ shownFiles (left - kept.length) rest

section Shown
variable {bytes left : Nat} {one : GrepContentMatch} {matched : List GrepContentMatch}

theorem gate_match_shown (room : (shownMatch one).content.utf8ByteSize ≤ bytes) :
    gate_match ⟨bytes,left⟩ one = (shownMatch one,decide ((shownMatch one).content ≠ one.content)) := by
  have fits : ¬bytes < (shownText "Grep match" one.content GREP_MATCH_LIMIT).utf8ByteSize := not_lt.mpr room
  simp [gate_match,shownMatch,fits]
theorem shownMatch_uncut : shownMatch one = one ↔ (shownMatch one).content = one.content := by
  refine ⟨congrArg _,fun same => ?_⟩
  have each : shownText "Grep match" one.content GREP_MATCH_LIMIT = one.content := same
  simp [shownMatch,each]

theorem shown_cons (each left : Nat) (one : GrepContentMatch) (rest : List GrepContentMatch) : shown (each + 1) (left + 1) (one :: rest) =
      if trim (shownMatch one).content = "" then [] else shownMatch one :: shown each left rest := by
  rw [shown,seen,List.filter_cons]
  by_cases blank : trim (shownMatch one).content = ""
  · simp [blank]
  · simp only [blank,ne_eq,not_false_iff,decide_true,if_true,if_false]
    rfl
theorem shown_length (each left : Nat) (matched : List GrepContentMatch) : (shown each left matched).length ≤ left := by
  induction matched generalizing each left with
  | nil => simp [shown,seen]
  | cons one rest ih =>
    cases each with
    | zero => exact Nat.zero_le _
    | succ each =>
      cases left with
      | zero => exact Nat.zero_le _
      | succ left =>
        rw [shown_cons]
        split_ifs
        · exact Nat.zero_le _
        · exact Nat.succ_le_succ (ih each left)
theorem shown_le_seen (each left : Nat) (matched : List GrepContentMatch) :
    matchBytes (shown each left matched) ≤ matchBytes (seen each left matched) := (List.filter_sublist.map _).sum_le_sum (by simp)

theorem gate_matches_shown (unnoticed : Unnoticed matched) : ∀ {count each bytes left : Nat}, count + each = GREP_MATCHES_PER_FILE →
    matchBytes (seen each left matched) ≤ bytes → (gate_matches count ⟨bytes,left⟩ matched).1 = shown each left matched ∧
      (gate_matches count ⟨bytes,left⟩ matched).2.1 =
        ⟨bytes - matchBytes (shown each left matched),left - (shown each left matched).length⟩ ∧
      ((gate_matches count ⟨bytes,left⟩ matched).2.2 = false ↔ shown each left matched = matched) := by
  induction matched with
  | nil =>
    intro count each bytes left _ _
    have none_ : shown each left [] = [] := by rw [shown,seen]; rfl; all_goals simp
    rw [none_]
    exact ⟨rfl,rfl,iff_of_true rfl rfl⟩
  | cons one rest ih =>
    intro count each bytes left counts room
    obtain ⟨plain,restPlain⟩ := List.forall_mem_cons.mp unnoticed
    have stops (none_ : shown each left (one :: rest) = []) (stop : GREP_MATCHES_PER_FILE ≤ count ∨ left = 0 ∨ bytes = 0) :
        gate_matches count ⟨bytes,left⟩ (one :: rest) = ([],⟨bytes,left⟩,true) := by
      rw [gate_matches,plain,if_neg Bool.false_ne_true]
      exact if_pos stop
    cases each with
    | zero =>
      have none_ : shown 0 left (one :: rest) = [] := rfl
      rw [stops none_ (.inl (by omega)),none_]
      exact ⟨rfl,rfl,by simp⟩
    | succ each =>
      cases left with
      | zero =>
        have none_ : shown (each + 1) 0 (one :: rest) = [] := rfl
        rw [stops none_ (.inr (.inl rfl)),none_]
        exact ⟨rfl,rfl,by simp⟩
      | succ left =>
        rw [seen,matchBytes_cons] at room
        have fits := @gate_match_shown bytes (left + 1) one ((Nat.le_add_right _ _).trans room)
        by_cases blank : trim (shownMatch one).content = ""
        · have none_ : shown (each + 1) (left + 1) (one :: rest) = [] := (shown_cons _ _ _ _).trans (if_pos blank)
          have stopped : gate_matches count ⟨bytes,left + 1⟩ (one :: rest) = ([],⟨bytes,left + 1⟩,true) := by
            rw [gate_matches,plain,if_neg Bool.false_ne_true,fits]
            dsimp only
            rw [if_pos blank]
            exact ite_self _
          rw [stopped,none_]
          exact ⟨rfl,rfl,by simp⟩
        · have size : 0 < (shownMatch one).content.utf8ByteSize := full_size blank
          rw [if_neg blank] at room
          have kept : shown (each + 1) (left + 1) (one :: rest) = shownMatch one :: shown each left rest :=
            (shown_cons _ _ _ _).trans (if_neg blank)
          have goes : ¬(GREP_MATCHES_PER_FILE ≤ count ∨ GrepBudget.Spent ⟨bytes,left + 1⟩) := by
            rintro (many | none_ | none_)
            · omega
            · cases none_
            · dsimp only at none_
              omega
          obtain ⟨same,after,uncut⟩ := @ih restPlain (count + 1) each (bytes - (shownMatch one).content.utf8ByteSize) left (by omega)
            (by omega)
          rw [gate_matches,plain,if_neg Bool.false_ne_true,if_neg goes,fits]
          dsimp only
          rw [if_neg blank,kept,Nat.add_sub_cancel]
          dsimp only
          rw [same,after,matchBytes_cons,List.length_cons,Nat.sub_sub,Nat.add_sub_add_right,Bool.or_eq_false_iff,uncut]
          refine ⟨rfl,rfl,?_⟩
          rw [List.cons.injEq,shownMatch_uncut,decide_eq_false_iff_not,not_not]

theorem shownFiles_spent {left : Nat} (spent : left = 0 ∨ seenBytes left files = 0) : shownFiles left files = [] := by
  induction files generalizing left with
  | nil => rfl
  | cons file rest ih =>
    have none_ : shown GREP_MATCHES_PER_FILE left file.matched = [] := by
      rcases spent with rfl | spent
      · exact List.length_eq_zero_iff.mp (Nat.le_zero.mp (shown_length _ _ _))
      · rw [seenBytes] at spent
        refine List.filter_eq_nil_iff.mpr fun one isIn => ?_
        have small : one.content.utf8ByteSize ≤ matchBytes (seen GREP_MATCHES_PER_FILE left file.matched) :=
          List.single_le_sum (by simp) _ (List.mem_map_of_mem isIn)
        rw [decide_eq_true_eq]
        intro full
        have size : 0 < one.content.utf8ByteSize := full_size full
        omega
    rw [shownFiles,none_]
    rw [seenBytes,none_] at spent
    exact ih (spent.imp id fun spent => by simpa using (Nat.add_eq_zero_iff.mp spent).2)
theorem shownFiles_length (left : Nat) (files : List GrepFileMatch) : (shownFiles left files).length ≤ files.length := by
  induction files generalizing left with
  | nil => exact le_rfl
  | cons file rest ih =>
    rw [shownFiles]
    split_ifs
    · exact (ih _).trans (Nat.le_succ _)
    · exact Nat.succ_le_succ (ih _)
theorem gate_files_shown (unnoticed : hasNotice files = false) : ∀ {bytes left : Nat}, seenBytes left files ≤ bytes →
    (gate_files ⟨bytes,left⟩ files).1 = shownFiles left files ∧ (gate_files ⟨bytes,left⟩ files).2.1 =
        ⟨bytes - grep_content_bytes (shownFiles left files),left - matchCount (shownFiles left files)⟩ ∧
      ((gate_files ⟨bytes,left⟩ files).2.2 = false ∧ files.length ≤ (shownFiles left files).length ↔ shownFiles left files = files) := by
  rw [hasNotice_iff] at unnoticed
  induction files with
  | nil => exact fun _ => ⟨rfl,rfl,iff_of_true ⟨rfl,le_rfl⟩ rfl⟩
  | cons file rest ih =>
    intro bytes left room
    obtain ⟨plain,restPlain⟩ := List.forall_mem_cons.mp unnoticed
    by_cases spent : GrepBudget.Spent ⟨bytes,left⟩
    · have none_ : shownFiles left (file :: rest) = [] :=
        shownFiles_spent (spent.imp id fun none_ => Nat.le_zero.mp (room.trans_eq none_))
      rw [gate_files,if_pos spent,none_]
      exact ⟨rfl,rfl,by simp⟩
    · rw [seenBytes] at room
      have seenKept := shown_le_seen GREP_MATCHES_PER_FILE left file.matched
      obtain ⟨same,after,uncut⟩ := gate_matches_shown plain (Nat.zero_add _) ((Nat.le_add_right _ _).trans room)
      obtain ⟨restSame,restAfter,restUncut⟩ := @ih restPlain (bytes - matchBytes (shown GREP_MATCHES_PER_FILE left file.matched))
        (left - (shown GREP_MATCHES_PER_FILE left file.matched).length) (by omega)
      have shorter := shownFiles_length (left - (shown GREP_MATCHES_PER_FILE left file.matched).length) rest
      rw [gate_files,if_neg spent,shownFiles]
      dsimp only
      rw [same,after,restSame,restAfter]
      by_cases none_ : shown GREP_MATCHES_PER_FILE left file.matched = []
      · rw [none_] at shorter ⊢
        refine ⟨rfl,rfl,iff_of_false (fun both => ?_) fun whole => ?_⟩
        · have long : rest.length + 1 ≤ (shownFiles (left - 0) rest).length := both.2
          exact absurd (long.trans shorter) (Nat.not_succ_le_self _)
        · have long : (shownFiles (left - 0) rest).length = rest.length + 1 := congrArg List.length whole
          exact absurd (long.symm.le.trans shorter) (Nat.not_succ_le_self _)
      · have whole : (⟨file.file,shown GREP_MATCHES_PER_FILE left file.matched⟩ : GrepFileMatch) = file ↔
            shown GREP_MATCHES_PER_FILE left file.matched = file.matched := by
          obtain ⟨name,matched⟩ := file
          simp
        simp only [if_neg none_,List.singleton_append,List.cons.injEq,whole,← restUncut,List.length_cons,Bool.or_eq_false_iff,
          decide_eq_false_iff_not,not_lt,uncut,Nat.add_le_add_iff_right,bytes_cons,matchCount,List.map_cons,List.sum_cons,Nat.sub_sub]
        refine ⟨trivial,trivial,?_⟩
        constructor
        · rintro ⟨⟨⟨kept,-⟩,restKept⟩,long⟩
          exact ⟨kept,restKept,long⟩
        · rintro ⟨kept,restKept,long⟩
          exact ⟨⟨⟨kept,(congrArg List.length kept).ge⟩,restKept⟩,long⟩

/-- What a content takes: with a notice where it is cut, unless a line that is cut looks
    like one. -/
def contentBytes (left : Nat) (files : List GrepFileMatch) : Nat :=
  let kept := shownFiles left files
  grep_content_bytes kept +
    if kept = files ∨ hasNotice kept then 0 else (grepNotice (grep_content_bytes kept) (grep_content_bytes files)).content.utf8ByteSize

theorem gate_content_shown {content : GrepContentResult} (unnoticed : hasNotice content.matched = false)
    (room : seenBytes left content.matched ≤ bytes) (beside : contentBytes left content.matched ≤ GREP_CONTENT_LIMIT) :
    grep_content_bytes (gate_grep_content ⟨bytes,left⟩ content).1.matched = contentBytes left content.matched ∧
      (gate_grep_content ⟨bytes,left⟩ content).2 = ⟨bytes - grep_content_bytes (shownFiles left content.matched),
        left - matchCount (shownFiles left content.matched)⟩ := by
  obtain ⟨same,after,uncut⟩ := gate_files_shown unnoticed room
  rw [gate_grep_content,unnoticed,if_neg Bool.false_ne_true]
  dsimp only
  rw [same,after]
  rw [contentBytes] at beside ⊢
  have cut : ((gate_files ⟨bytes,left⟩ content.matched).2.2 ||
      decide ((shownFiles left content.matched).length < content.matched.length)) = true ↔
        ¬shownFiles left content.matched = content.matched := by
    rw [← uncut,not_and_or,Bool.not_eq_false,not_le,Bool.or_eq_true,decide_eq_true_eq]
  by_cases whole : shownFiles left content.matched = content.matched
  · rw [if_neg fun isCut => cut.mp isCut whole,if_pos (.inl whole)]
    exact ⟨rfl,rfl⟩
  · rw [if_pos (cut.mpr whole),add_grep_notice]
    dsimp only
    cases already : hasNotice (shownFiles left content.matched) with
    | true =>
      rw [if_pos rfl,if_pos (Or.inr rfl)]
      exact ⟨rfl,rfl⟩
    | false =>
      have noNotice : ¬(shownFiles left content.matched = content.matched ∨ false = true) := fun either =>
        either.elim whole Bool.false_ne_true
      rw [already,if_neg noNotice] at beside
      rw [if_neg Bool.false_ne_true,if_neg noNotice,noticeLoop,if_pos beside,push_bytes]
      exact ⟨rfl,rfl⟩

/-! ## Results within the limits -/

theorem shown_whole (small : ∀ one ∈ matched, one.content.utf8ByteSize ≤ GREP_MATCH_LIMIT) : ∀ {each left : Nat},
    matchBytes (seen each left matched) ≤ matchBytes matched ∧ (matched.length ≤ each → matched.length ≤ left →
      (∀ one ∈ matched, ¬Blank one) → shown each left matched = matched) := by
  induction matched with
  | nil =>
    intro each left
    have none_ : seen each left [] = [] := by rw [seen]; simp
    rw [shown,none_]
    exact ⟨le_rfl,fun _ _ _ => rfl⟩
  | cons one rest ih =>
    intro each left
    obtain ⟨oneSmall,restSmall⟩ := List.forall_mem_cons.mp small
    have same : shownMatch one = one := shownMatch_uncut.mpr (shownText_fits oneSmall)
    cases each with
    | zero => exact ⟨Nat.zero_le _,fun none_ => absurd none_ (Nat.not_succ_le_zero _)⟩
    | succ each =>
      cases left with
      | zero => exact ⟨Nat.zero_le _,fun _ none_ => absurd none_ (Nat.not_succ_le_zero _)⟩
      | succ left =>
        refine ⟨?_,fun few some_ full => ?_⟩
        · rw [seen,same,matchBytes_cons,matchBytes_cons]
          refine Nat.add_le_add_left ?_ _
          split_ifs
          · exact Nat.zero_le _
          · exact (ih restSmall).1
        · obtain ⟨oneFull,restFull⟩ := List.forall_mem_cons.mp full
          rw [Blank] at oneFull
          rw [shown_cons,same,if_neg oneFull,(ih restSmall).2 (Nat.le_of_succ_le_succ few) (Nat.le_of_succ_le_succ some_) restFull]
theorem shown_full (isIn : one ∈ shown each left matched) : ¬Blank one := by simpa [Blank] using (List.mem_filter.mp isIn).2

theorem shownFiles_whole (small : Small files) : ∀ {left : Nat}, seenBytes left files ≤ grep_content_bytes files ∧
    (matchCount files ≤ left →
      (shownFiles left files = files ↔ ∀ file ∈ files, file.matched ≠ [] ∧ ∀ one ∈ file.matched, ¬Blank one)) := by
  induction files with
  | nil => exact ⟨le_rfl,fun _ => iff_of_true rfl (List.forall_mem_nil _)⟩
  | cons file rest ih =>
    intro left
    obtain ⟨⟨few,fileSmall⟩,restSmall⟩ := List.forall_mem_cons.mp small
    have length : matchCount (file :: rest) = file.matched.length + matchCount rest := List.sum_cons
    obtain ⟨fileBytes,fileWhole⟩ := @shown_whole file.matched fileSmall GREP_MATCHES_PER_FILE left
    refine ⟨Nat.add_le_add fileBytes (ih restSmall).1 |>.trans_eq (bytes_cons _ _).symm,fun counts => ?_⟩
    rw [shownFiles,List.forall_mem_cons]
    constructor
    · intro same
      by_cases none_ : shown GREP_MATCHES_PER_FILE left file.matched = []
      · rw [if_pos none_,List.nil_append] at same
        exact absurd (congrArg List.length same) ((shownFiles_length _ rest).trans_lt (Nat.lt_succ_self _)).ne
      · rw [if_neg none_] at same
        obtain ⟨isFile,isRest⟩ := List.cons.inj same
        have kept : shown GREP_MATCHES_PER_FILE left file.matched = file.matched := congrArg GrepFileMatch.matched isFile
        rw [kept] at none_ isRest
        exact ⟨⟨none_,fun one isIn => shown_full (kept ▸ isIn)⟩,((ih restSmall).2 (by omega)).mp isRest⟩
    · rintro ⟨⟨some_,full⟩,restFull⟩
      rw [fileWhole few (by omega) full,if_neg some_,((ih restSmall).2 (by omega)).mpr restFull]
      rfl

theorem gate_content_within {budget : GrepBudget} {content : GrepContentResult} (small : Small content.matched)
    (within : grep_content_bytes content.matched ≤ GREP_CONTENT_LIMIT) (room : grep_content_bytes content.matched ≤ budget.content_bytes)
    (counts : matchCount content.matched ≤ budget.matches_left) :
    ((gate_grep_content budget content).1 = content ↔ Complete content.matched) ∧ (Complete content.matched →
      budget.content_bytes ≤ (gate_grep_content budget content).2.content_bytes + grep_content_bytes content.matched ∧
      budget.matches_left ≤ (gate_grep_content budget content).2.matches_left + matchCount content.matched) := by
  obtain ⟨bytes,left⟩ := budget
  obtain ⟨few,whole⟩ := @shownFiles_whole _ small left
  specialize whole counts
  rw [gate_grep_content]
  by_cases already : hasNotice content.matched = true
  · rw [if_pos already]
    exact ⟨iff_of_true rfl (.inl already),fun _ => ⟨Nat.le_add_right _ _,Nat.le_add_right _ _⟩⟩
  · obtain ⟨same,after,uncut⟩ := gate_files_shown (Bool.not_eq_true _ ▸ already) (few.trans room)
    rw [if_neg already,Complete,or_iff_right already,← whole]
    dsimp only
    rw [same,after]
    split_ifs with cut
    · have other : ¬shownFiles left content.matched = content.matched := by
        rw [← uncut]
        simpa [imp_iff_or_not,or_comm] using cut
      refine ⟨iff_of_false (fun unchanged => ?_) other,fun all => absurd all other⟩
      have ends := add_noticed (noticeSize_room within) (shownFiles left content.matched)
      exact already ((congrArg (fun c => hasNotice c.matched) unchanged).symm.trans ends)
    · have all : shownFiles left content.matched = content.matched := by
        rw [← uncut]
        simpa using cut
      rw [all]
      exact ⟨iff_of_true rfl rfl,fun _ => ⟨by dsimp only; omega,by dsimp only; omega⟩⟩

end Shown

/-- The results in the order in which they are gated. -/
def unions (success : GrepSuccess) : List GrepUnionResult := success.workspace_results.map (·.2) ++ success.active_editor_result.toList
def gate_unions : GrepBudget → List GrepUnionResult → List GrepUnionResult
  | _, [] => []
  | budget, result :: rest => (gate_grep_union budget result).1 :: gate_unions (gate_grep_union budget result).2 rest

theorem gate_workspaces_unions (results : List (String × GrepUnionResult)) : ∀ (budget : GrepBudget) (more : List GrepUnionResult),
    (gate_workspaces budget results).1.map (·.2) ++ gate_unions (gate_workspaces budget results).2 more =
      gate_unions budget (results.map (·.2) ++ more) := by
  induction results with
  | nil => exact fun _ _ => rfl
  | cons result rest ih => exact fun budget more => congrArg _ (ih _ more)
theorem gate_workspaces_names (results : List (String × GrepUnionResult)) : ∀ budget : GrepBudget,
    (gate_workspaces budget results).1.map (·.1) = results.map (·.1) := by
  induction results with
  | nil => exact fun _ => rfl
  | cons result rest ih => exact fun budget => congrArg (result.1 :: ·) (ih _)
theorem unions_gated (success : GrepSuccess) :
    unions (gate_grep success) = gate_unions ⟨GREP_CONTENT_LIMIT,GREP_TOTAL_MATCHES⟩ (unions success) := by
  rw [unions,unions,← gate_workspaces_unions,gate_grep]
  cases success.active_editor_result with
  | none => rfl
  | some result => rfl
theorem gate_unchanged_iff (success : GrepSuccess) : gate_grep success = success ↔ unions (gate_grep success) = unions success := by
  refine ⟨congrArg unions,fun same => ?_⟩
  have names := gate_workspaces_names success.workspace_results ⟨GREP_CONTENT_LIMIT,GREP_TOTAL_MATCHES⟩
  have length : ((gate_grep success).workspace_results.map (·.2)).length = (success.workspace_results.map (·.2)).length := by
    have count := congrArg List.length names
    rw [List.length_map,List.length_map] at count ⊢
    exact count
  obtain ⟨results,editor⟩ := List.append_inj same length
  have workspaces : (gate_grep success).workspace_results = success.workspace_results :=
    (List.zip_of_prod names results).trans (List.zip_of_prod rfl rfl).symm
  have editors : (gate_grep success).active_editor_result = success.active_editor_result := by
    cases one : (gate_grep success).active_editor_result <;> cases other : success.active_editor_result <;> simp_all
  calc gate_grep success = { success with
        workspace_results := (gate_grep success).workspace_results
        active_editor_result := (gate_grep success).active_editor_result } := rfl
    _ = success := by rw [workspaces,editors]

def unionBytes : GrepUnionResult → Nat
  | .Content content => grep_content_bytes content.matched
  | _ => 0
def unionCount : GrepUnionResult → Nat
  | .Content content => matchCount content.matched
  | _ => 0
def UnionSmall : GrepUnionResult → Prop
  | .Content content => Small content.matched
  | .Files files => files.files.length ≤ GREP_LIST_LIMIT
  | .Count counts => counts.counts.length ≤ GREP_LIST_LIMIT
  | .None => True
/-- Nothing of the result has to be put right: no file without matches, no blank match, no list without its total. -/
def UnionComplete : GrepUnionResult → Prop
  | .Content content => Complete content.matched
  | .Files files => files.total_files ≤ 0 → files.total_files = Int32.ofNat files.files.length
  | .Count counts => counts.total_files ≤ 0 → counts.total_files = Int32.ofNat counts.counts.length
  | .None => True
def KeptUnion : GrepUnionResult → GrepUnionResult → Prop
  | .Content before, .Content after => KeptWithNotice before.matched after.matched
  | .Files before, .Files after => after.files <+: before.files
  | .Count before, .Count after => after.counts <+: before.counts
  | .None, .None => True
  | _, _ => False

theorem gate_union_within {result : GrepUnionResult} (small : UnionSmall result) (within : unionBytes result ≤ GREP_CONTENT_LIMIT)
    (bytes : unionBytes result ≤ budget.content_bytes) (left : unionCount result ≤ budget.matches_left) :
    ((gate_grep_union budget result).1 = result ↔ UnionComplete result) ∧ (UnionComplete result →
      budget.content_bytes ≤ (gate_grep_union budget result).2.content_bytes + unionBytes result ∧
      budget.matches_left ≤ (gate_grep_union budget result).2.matches_left + unionCount result) := by
  cases result with
  | Content content =>
    rw [gate_grep_union,GrepUnionResult.Content.injEq]
    exact gate_content_within small within bytes left
  | Files files =>
    refine ⟨?_,fun _ => ⟨le_rfl,le_rfl⟩⟩
    simp only [gate_grep_union,if_neg (not_lt.mpr small),GrepUnionResult.Files.injEq,UnionComplete]
    split_ifs with none_
    · obtain ⟨_,_,_,_,_,_⟩ := files
      simp [none_,eq_comm]
    · simp [none_]
  | Count counts =>
    refine ⟨?_,fun _ => ⟨le_rfl,le_rfl⟩⟩
    simp only [gate_grep_union,if_neg (not_lt.mpr small),GrepUnionResult.Count.injEq,UnionComplete]
    split_ifs with none_
    · obtain ⟨_,_,_,_,_,_,_⟩ := counts
      simp [none_,eq_comm]
    · simp [none_]
  | None => exact ⟨iff_of_true rfl trivial,fun _ => ⟨le_rfl,le_rfl⟩⟩
theorem gate_union_kept (budget : GrepBudget) (result : GrepUnionResult) : KeptUnion result (gate_grep_union budget result).1 := by
  cases result with
  | Content content => exact gate_content_kept budget content
  | Files files =>
    rw [gate_grep_union,KeptUnion]
    split_ifs
    all_goals first | exact List.take_prefix _ _ | exact List.prefix_refl _
  | Count counts =>
    rw [gate_grep_union,KeptUnion]
    split_ifs
    all_goals first | exact List.take_prefix _ _ | exact List.prefix_refl _
  | None => trivial

theorem gate_unions_unchanged {results : List GrepUnionResult} (small : ∀ result ∈ results, UnionSmall result)
    (within : (results.map unionBytes).sum ≤ GREP_CONTENT_LIMIT) :
      ∀ budget : GrepBudget, (results.map unionBytes).sum ≤ budget.content_bytes →
      (results.map unionCount).sum ≤ budget.matches_left →
      (gate_unions budget results = results ↔ ∀ result ∈ results, UnionComplete result) := by
  induction results with
  | nil => exact fun _ _ _ => ⟨fun _ => List.forall_mem_nil _,fun _ => rfl⟩
  | cons result rest ih =>
    intro budget bytes left
    obtain ⟨headSmall,restSmall⟩ := List.forall_mem_cons.mp small
    rw [List.map_cons,List.sum_cons] at within bytes left
    obtain ⟨head,more⟩ := gate_union_within headSmall ((Nat.le_add_right _ _).trans within) ((Nat.le_add_right _ _).trans bytes)
      ((Nat.le_add_right _ _).trans left)
    rw [gate_unions,List.cons.injEq,List.forall_mem_cons,head]
    refine and_congr_right fun complete => ?_
    obtain ⟨moreBytes,moreLeft⟩ := more complete
    exact ih restSmall (by omega) _ (by omega) (by omega)
theorem gate_unions_kept (results : List GrepUnionResult) :
    ∀ budget : GrepBudget, List.Forall₂ KeptUnion results (gate_unions budget results) := by
  induction results with
  | nil => exact fun _ => .nil
  | cons result rest ih => exact fun budget => .cons (gate_union_kept budget result) (ih _)

/-! ## The bytes of all results -/

/-- A content with files. -/
def Searched : GrepUnionResult → Prop
  | .Content content => content.matched ≠ []
  | _ => False
instance : DecidablePred Searched := fun result => by
  cases result
  · exact inferInstanceAs (Decidable (_ ≠ _))
  all_goals exact inferInstanceAs (Decidable False)

theorem gate_unsearched {budget : GrepBudget} {result : GrepUnionResult} (unsearched : ¬Searched result) :
    unionBytes (gate_grep_union budget result).1 = 0 ∧ (gate_grep_union budget result).2 = budget := by
  cases result with
  | Content content =>
    have none_ : content.matched = [] := not_not.mp unsearched
    rw [gate_grep_union,gate_content_empty none_,unionBytes,none_]
    exact ⟨rfl,rfl⟩
  | Files files => exact ⟨rfl,rfl⟩
  | Count counts => exact ⟨rfl,rfl⟩
  | None => exact ⟨rfl,rfl⟩
theorem gate_unions_unsearched {results : List GrepUnionResult} (unsearched : ∀ result ∈ results, ¬Searched result) :
    ∀ budget : GrepBudget, ((gate_unions budget results).map unionBytes).sum = 0 := by
  induction results with
  | nil => exact fun _ => rfl
  | cons result rest ih =>
    intro budget
    obtain ⟨head,tail⟩ := List.forall_mem_cons.mp unsearched
    rw [gate_unions,List.map_cons,List.sum_cons,(gate_unsearched head).1,ih tail]
theorem gate_unions_alone {results : List GrepUnionResult} (alone : results.countP (fun result => decide (Searched result)) ≤ 1)
    (unnoticed : ∀ content, GrepUnionResult.Content content ∈ results → hasNotice content.matched = false) :
    ∀ {budget : GrepBudget}, budget.content_bytes ≤ GREP_CONTENT_LIMIT →
      ((gate_unions budget results).map unionBytes).sum ≤ GREP_CONTENT_LIMIT := by
  induction results with
  | nil => exact fun _ => Nat.zero_le _
  | cons result rest ih =>
    intro budget limited
    rw [gate_unions,List.map_cons,List.sum_cons]
    by_cases searched : Searched result
    · rw [List.countP_cons,decide_eq_true searched] at alone
      have others := List.countP_eq_zero.mp (Nat.le_zero.mp (Nat.le_of_succ_le_succ alone))
      rw [gate_unions_unsearched fun other isIn is => others other isIn (decide_eq_true is)]
      cases result with
      | Content content => exact gate_content_bytes (unnoticed content List.mem_cons_self) limited
      | Files files => exact searched.elim
      | Count counts => exact searched.elim
      | None => exact searched.elim
    · obtain ⟨none_,same⟩ := @gate_unsearched budget result searched
      rw [none_,same,Nat.zero_add]
      refine ih ?_ (fun content isIn => unnoticed content (List.mem_cons_of_mem _ isIn)) limited
      rwa [List.countP_cons_of_neg (by simpa using searched)] at alone

/-- Within every limit of the gate. -/
structure Within (success : GrepSuccess) : Prop where
  bytes : ((unions success).map unionBytes).sum ≤ GREP_CONTENT_LIMIT
  total : ((unions success).map unionCount).sum ≤ GREP_TOTAL_MATCHES
  each : ∀ result ∈ unions success, UnionSmall result
/-- A single content with files, and no notice in any. -/
def Alone (success : GrepSuccess) : Prop :=
  (unions success).countP (fun result => decide (Searched result)) ≤ 1 ∧
    ∀ content, GrepUnionResult.Content content ∈ unions success → hasNotice content.matched = false
/-- The bytes of the matches of each content that come up, and what the content takes. One
    that has a notice already is not gated. -/
def weighed : Nat → List GrepUnionResult → List (Nat × Nat)
  | _, [] => []
  | left, .Content content :: rest =>
    if hasNotice content.matched then (0,grep_content_bytes content.matched) :: weighed left rest
    else (seenBytes left content.matched,contentBytes left content.matched) ::
      weighed (left - matchCount (shownFiles left content.matched)) rest
  | left, _ :: rest => weighed left rest
/-- The matches that come up are within the limit together, and each content is with its
    own notice. -/
structure Ample (success : GrepSuccess) : Prop where
  seen : ((weighed GREP_TOTAL_MATCHES (unions success)).map (·.1)).sum ≤ GREP_CONTENT_LIMIT
  beside : ∀ weight ∈ weighed GREP_TOTAL_MATCHES (unions success), weight.2 ≤ GREP_CONTENT_LIMIT
/-- What all contents take. -/
def charge (success : GrepSuccess) : Nat := ((weighed GREP_TOTAL_MATCHES (unions success)).map (·.2)).sum
/-- What the gate is for. -/
structure Gated (success : GrepSuccess) : Prop where
  unchanged : Within success → gate_grep success = success
  bytes : ((unions (gate_grep success)).map unionBytes).sum ≤ GREP_CONTENT_LIMIT
  kept : List.Forall₂ KeptUnion (unions success) (unions (gate_grep success))

theorem within_unchanged {success : GrepSuccess} (within : Within success) :
    gate_grep success = success ↔ ∀ result ∈ unions success, UnionComplete result := by
  rw [gate_unchanged_iff,unions_gated]
  exact gate_unions_unchanged within.each within.bytes _ within.bytes within.total
theorem kept (success : GrepSuccess) : List.Forall₂ KeptUnion (unions success) (unions (gate_grep success)) := by
  rw [unions_gated]
  exact gate_unions_kept _ _
theorem alone_bytes {success : GrepSuccess} (alone : Alone success) :
    ((unions (gate_grep success)).map unionBytes).sum ≤ GREP_CONTENT_LIMIT := by
  rw [unions_gated]
  exact gate_unions_alone alone.1 alone.2 le_rfl
theorem shown_bytes (left : Nat) (files : List GrepFileMatch) : grep_content_bytes (shownFiles left files) ≤ seenBytes left files := by
  induction files generalizing left with
  | nil => exact le_rfl
  | cons file rest ih =>
    have kept := shown_le_seen GREP_MATCHES_PER_FILE left file.matched
    have later := ih (left - (shown GREP_MATCHES_PER_FILE left file.matched).length)
    rw [shownFiles,seenBytes]
    split_ifs with none_
    · exact later.trans (Nat.le_add_left _ _)
    · rw [bytes_append,bytes_cons,bytes_nil]
      exact Nat.add_le_add kept later
theorem gate_unions_ample (results : List GrepUnionResult) : ∀ {bytes left : Nat}, ((weighed left results).map (·.1)).sum ≤ bytes →
    (∀ weight ∈ weighed left results, weight.2 ≤ GREP_CONTENT_LIMIT) →
      ((gate_unions ⟨bytes,left⟩ results).map unionBytes).sum = ((weighed left results).map (·.2)).sum := by
  induction results with
  | nil => exact fun _ _ => rfl
  | cons result rest ih =>
    intro bytes left room beside
    have pass (none_ : unionBytes (gate_grep_union ⟨bytes,left⟩ result).1 = 0) (same : (gate_grep_union ⟨bytes,left⟩ result).2 = ⟨bytes,left⟩)
        (skips : weighed left (result :: rest) = weighed left rest) :
        ((gate_unions ⟨bytes,left⟩ (result :: rest)).map unionBytes).sum = ((weighed left (result :: rest)).map (·.2)).sum := by
      rw [skips] at room beside ⊢
      rw [gate_unions,List.map_cons,List.sum_cons,none_,same,Nat.zero_add]
      exact ih room beside
    cases result with
    | Files files => exact pass rfl rfl rfl
    | Count counts => exact pass rfl rfl rfl
    | None => exact pass rfl rfl rfl
    | Content content =>
      rw [gate_unions,List.map_cons,List.sum_cons,gate_grep_union,unionBytes]
      dsimp only
      by_cases already : hasNotice content.matched = true
      · rw [weighed,if_pos already] at room beside ⊢
        rw [List.map_cons,List.sum_cons] at room ⊢
        rw [gate_grep_content,if_pos already,ih (by omega) fun weight isIn => beside weight (List.mem_cons_of_mem _ isIn)]
      · rw [weighed,if_neg already] at room beside ⊢
        rw [List.map_cons,List.sum_cons] at room ⊢
        dsimp only at room
        obtain ⟨taken,after⟩ := @gate_content_shown bytes _ content (Bool.not_eq_true _ ▸ already) (by omega) (beside _ List.mem_cons_self)
        have less := shown_bytes left content.matched
        rw [taken,after,ih (by omega) fun weight isIn => beside weight (List.mem_cons_of_mem _ isIn)]
theorem ample_bytes {success : GrepSuccess} (ample : Ample success) : ((unions (gate_grep success)).map unionBytes).sum = charge success := by
  rw [unions_gated,charge]
  exact gate_unions_ample _ ample.seen ample.beside

/-- A result within the limits is gated right if and only if it is complete. Beyond them a
    single content is, and contents whose matches have room exactly where their notices
    have room too. -/
theorem gate_grep_gated (success : GrepSuccess) : (Within success → (Gated success ↔ ∀ result ∈ unions success, UnionComplete result)) ∧
      (¬Within success → Alone success → Gated success) ∧
      (¬Within success → Ample success → (Gated success ↔ charge success ≤ GREP_CONTENT_LIMIT)) := by
  refine ⟨fun within => ⟨fun gated => (within_unchanged within).mp (gated.unchanged within),fun complete => ?_⟩,
    fun outside alone => ⟨fun within => absurd within outside,alone_bytes alone,kept success⟩,fun outside ample => ?_⟩
  · have same := (within_unchanged within).mpr complete
    exact ⟨fun _ => same,by rw [same]; exact within.bytes,kept success⟩
  · rw [← ample_bytes ample]
    exact ⟨fun gated => gated.bytes,fun bytes => ⟨fun within => absurd within outside,bytes,kept success⟩⟩
def blankLine : GrepSuccess :=
  ⟨"","","content",[("/w",.Content ⟨[⟨"a.rs",[⟨1," ",false,true⟩]⟩],1,1,false,false,none,none⟩)],none⟩
theorem blank_gated : Within blankLine ∧ ¬Gated blankLine := by
  have within : Within blankLine := ⟨by decide,by decide,by simp [blankLine,unions,UnionSmall,Small]; decide⟩
  refine ⟨within,fun gated => ?_⟩
  have complete := (within_unchanged within).mp (gated.unchanged within) _ (List.mem_singleton.mpr rfl)
  rcases complete with noticed | full
  · exact absurd noticed (by decide)
  · exact (full _ (List.mem_singleton.mpr rfl)).2 _ (List.mem_singleton.mpr rfl) (by rw [Blank]; decide)

end MyCursor.GrepGate
