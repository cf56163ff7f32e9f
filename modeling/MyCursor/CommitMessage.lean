import MyCursor.Text
import Mathlib.Data.List.DropRight

/-!
# Cleaning a commit message

`clean_generated_commit_message` of `cursor/services/commit_message.rs`. A text is
the list of its characters.
-/
namespace MyCursor.CommitMessage
open Text (is_whitespace)

def trim_start (text : List Char) : List Char := text.dropWhile is_whitespace
def trim (text : List Char) : List Char := (trim_start text).rdropWhile is_whitespace

/-- `str::lines`: a line ends with a line feed, which may follow a carriage return. -/
def lines : List Char → List (List Char)
  | [] => []
  | '\n' :: rest => [] :: lines rest
  | '\r' :: '\n' :: rest => [] :: lines rest
  | c :: rest =>
    match lines rest with
    | [] => [[c]]
    | line :: later => (c :: line) :: later

/-- `join("\n")`. -/
def join (body : List (List Char)) : List Char := ['\n'].intercalate body

def FENCE : List Char := ['`','`','`']

def popFence (body : List (List Char)) : List (List Char) :=
  match body.getLast? with
  | some line => if FENCE <+: trim_start line then body.dropLast else body
  | none => body

def strip_code_fence (value : List Char) : List Char :=
  let trimmed := trim value
  if FENCE <+: trimmed then
    match lines trimmed with
    | [] => trimmed
    | _ :: body => trim (join (popFence body))
  else trimmed

def to_ascii_lowercase (text : List Char) : List Char :=
  text.map fun c => if 'A' ≤ c ∧ c ≤ 'Z' then Char.ofNat (c.toNat + 32) else c

def PREFIXES : List (List Char) := ["commit message:".toList,"git commit message:".toList,"message:".toList]

/-- The label that a text begins with, in any case of its letters. -/
def labelOf (text : List Char) : Option (List Char) := PREFIXES.find? (· <+: to_ascii_lowercase text)

/-- The loop that takes off labels. Each round takes characters off, so their number
    is enough rounds. -/
def stripLabels : Nat → List Char → List Char
  | 0, result => result
  | rounds + 1, result =>
    match labelOf (trim result) with
    | some label => stripLabels rounds ((trim result).drop label.length)
    | none => result

def clean_generated_commit_message (value : List Char) : List Char :=
  let result := strip_code_fence (trim value)
  let result := trim (stripLabels result.length result)
  if (lines result).all fun line => (trim line).isEmpty then [] else result

/-- Labels, in any case of their letters, and white space. -/
inductive Labels : List Char → Prop where
  | nil : Labels []
  | space {c : Char} {rest : List Char} (blank : is_whitespace c = true) (labels : Labels rest) : Labels (c :: rest)
  | label {label rest : List Char} (isLabel : to_ascii_lowercase label ∈ PREFIXES) (labels : Labels rest) : Labels (label ++ rest)

/-- The text is inside the outer fence: the trimmed value itself if it does not begin with
    a fence, else its lines without the first and without the last if that is a fence too. -/
inductive Inside (value : List Char) : List Char → Prop where
  | plain (noFence : ¬ FENCE <+: trim value) : Inside value (trim value)
  | closed {opening closing : List Char} {body : List (List Char)} (fence : FENCE <+: trim value)
      (isLines : lines (trim value) = opening :: (body ++ [closing])) (closes : FENCE <+: trim_start closing) :
      Inside value (trim (join body))
  | unclosed {opening : List Char} {body : List (List Char)} (fence : FENCE <+: trim value)
      (isLines : lines (trim value) = opening :: body) (open_ : ∀ line, body.getLast? = some line → ¬ FENCE <+: trim_start line) :
      Inside value (trim (join body))

/-- What is to hold of the message that a value is cleaned to. -/
structure Cleaned (value result : List Char) : Prop where
  idempotent : clean_generated_commit_message result = result
  trimmed : trim result = result
  unfenced : ¬ FENCE <+: result
  unlabelled : labelOf result = none
  /-- Only a fence around the text, labels and white space are taken off. -/
  removed : ∃ inner labels, Inside value inner ∧ inner = labels ++ result ∧ Labels labels

/-- Another fence comes first in the text inside the outer fence, behind labels and
    white space. -/
def FencedAgain (value : List Char) : Prop :=
  ∃ inner labels rest, Inside value inner ∧ inner = labels ++ (FENCE ++ rest) ∧ Labels labels

variable {text : List Char}

theorem rdropWhile_suffix {front rest : List Char} (split : text = front ++ rest) (trimmed : text.rdropWhile is_whitespace = text) :
    rest.rdropWhile is_whitespace = rest := by
  rw [List.rdropWhile_eq_self_iff] at trimmed ⊢
  intro given
  have last : text ≠ [] := by rw [split]; exact List.append_ne_nil_of_right_ne_nil _ given
  have isLast := trimmed last
  simp only [split,List.getLast_append_of_ne_nil _ given] at isLast
  exact isLast

theorem trim_eq_self (first : ∀ c ∈ text.head?, is_whitespace c = false)
    (last : text.rdropWhile is_whitespace = text) : trim text = text := by
  cases text with
  | nil => rfl
  | cons c rest =>
    have begins : is_whitespace c = false := first c rfl
    rw [trim,trim_start,List.dropWhile_cons_of_neg (by simp [begins]),last]
theorem trim_first (text : List Char) : ∀ c ∈ (trim text).head?, is_whitespace c = false := fun _ => Trimming.trimmed_first
theorem trim_last (text : List Char) : (trim text).rdropWhile is_whitespace = trim text := List.rdropWhile_idempotent _ _
theorem trim_trim (text : List Char) : trim (trim text) = trim text := Trimming.trimmed_twice text

theorem trim_blanks {blanks text : List Char} (blank : ∀ c ∈ blanks, is_whitespace c = true) : trim (blanks ++ text) = trim text := by
  rw [trim,trim,trim_start,trim_start,List.dropWhile_append_of_pos blank]

theorem lines_cons {c : Char} (rest : List Char) (begins : is_whitespace c = false) :
    ∃ line later, lines (c :: rest) = (c :: line) :: later := by
  have notFeed : c ≠ '\n' := by rintro rfl; cases begins
  have notReturn : c ≠ '\r' := by rintro rfl; cases begins
  rw [lines.eq_4]
  · cases lines rest with
    | nil => exact ⟨[],[],rfl⟩
    | cons line later => exact ⟨line,later,rfl⟩
  · exact notFeed
  · exact fun _ isReturn => absurd isReturn notReturn

/-- Only the empty text has no line that is not blank, when white space is taken off. -/
theorem blank_lines (trimmed : trim text = text) (blank : ((lines text).all fun line => (trim line).isEmpty) = true) : text = [] := by
  cases text with
  | nil => rfl
  | cons c rest =>
    have begins : is_whitespace c = false := trim_first (c :: rest) c (by rw [trimmed]; rfl)
    obtain ⟨line,later,isLines⟩ := lines_cons rest begins
    rw [isLines,List.all_cons,Bool.and_eq_true,List.isEmpty_iff] at blank
    have first : (trim_start (c :: line)) = c :: line := List.dropWhile_cons_of_neg (by simp [begins])
    have none_ := blank.1
    rw [trim,first,List.rdropWhile_eq_nil_iff] at none_
    exact absurd (none_ c List.mem_cons_self) (by simp [begins])

variable {label : List Char}

theorem prefixes_apart : ∀ label ∈ PREFIXES, ∀ other ∈ PREFIXES, label <+: other → label = other := by decide
theorem prefixes_begin : ∀ label ∈ PREFIXES, ∃ c rest, label = c :: rest ∧ c ∈ ['c','g','m'] := by
  intro label member
  rcases List.mem_cons.mp member with rfl | member
  · exact ⟨'c',_,rfl,by decide⟩
  · rcases List.mem_cons.mp member with rfl | member
    · exact ⟨'g',_,rfl,by decide⟩
    · exact ⟨'m',_,List.mem_singleton.mp member,by decide⟩

theorem lower_length (text : List Char) : (to_ascii_lowercase text).length = text.length := List.length_map _
theorem lower_append (a b : List Char) : to_ascii_lowercase (a ++ b) = to_ascii_lowercase a ++ to_ascii_lowercase b := List.map_append

theorem labelOf_split (found : labelOf text = some label) : label ∈ PREFIXES ∧
    text = text.take label.length ++ text.drop label.length ∧ to_ascii_lowercase (text.take label.length) = label := by
  have isPrefix : label <+: to_ascii_lowercase text := by simpa using List.find?_some found
  refine ⟨List.mem_of_find?_eq_some found,(List.take_append_drop _ _).symm,?_⟩
  rw [to_ascii_lowercase,List.map_take]
  exact (List.prefix_iff_eq_take.mp isPrefix).symm
theorem labelOf_label (isLabel : to_ascii_lowercase label ∈ PREFIXES) (rest : List Char) :
    labelOf (label ++ rest) = some (to_ascii_lowercase label) := by
  have here : to_ascii_lowercase label <+: to_ascii_lowercase (label ++ rest) := by
    rw [lower_append]
    exact List.prefix_append _ _
  have found : (labelOf (label ++ rest)).isSome = true := List.find?_isSome.mpr ⟨_,isLabel,decide_eq_true here⟩
  obtain ⟨other,isOther⟩ := Option.isSome_iff_exists.mp found
  have begins : other <+: to_ascii_lowercase (label ++ rest) := by simpa using List.find?_some isOther
  have known := List.mem_of_find?_eq_some isOther
  rcases List.prefix_or_prefix_of_prefix here begins with before | after
  · rw [isOther,prefixes_apart _ isLabel _ known before]
  · rw [isOther,prefixes_apart _ known _ isLabel after]
theorem label_first (isLabel : to_ascii_lowercase label ∈ PREFIXES) : ∃ c rest, label = c :: rest ∧ is_whitespace c = false := by
  obtain ⟨c,rest,isCons,letter⟩ := prefixes_begin _ isLabel
  cases label with
  | nil => cases isCons
  | cons d later =>
    refine ⟨d,later,rfl,?_⟩
    rw [to_ascii_lowercase,List.map_cons,List.cons.injEq] at isCons
    cases blank : is_whitespace d with
    | false => rfl
    | true =>
      have plain := MyCursor.Text.blank_plain blank
      have small : ¬ ('A' ≤ d ∧ d ≤ 'Z') := by
        rintro ⟨low,high⟩
        rw [MyCursor.Text.is_ascii_alphanumeric,decide_eq_true low,decide_eq_true high] at plain
        simp at plain
      rw [if_neg small] at isCons
      rw [isCons.1] at blank
      rcases List.mem_cons.mp letter with rfl | letter
      · cases blank
      · rcases List.mem_cons.mp letter with rfl | letter
        · cases blank
        · rw [List.mem_singleton.mp letter] at blank
          cases blank
theorem labelOf_fence (rest : List Char) : labelOf (FENCE ++ rest) = none := by
  refine List.find?_eq_none.mpr fun label member => ?_
  obtain ⟨c,later,rfl,letter⟩ := prefixes_begin label member
  simp only [decide_eq_true_eq]
  rintro ⟨more,same⟩
  rw [lower_append,List.cons_append] at same
  have first : c = '`' := (List.cons.inj same).1
  rw [first] at letter
  exact absurd letter (by decide)

theorem Labels.blanks {blanks : List Char} (blank : ∀ c ∈ blanks, is_whitespace c = true) : Labels blanks := by
  induction blanks with
  | nil => exact .nil
  | cons c rest ih => exact .space (blank c List.mem_cons_self) (ih fun d member => blank d (List.mem_cons_of_mem _ member))
theorem Labels.append {labels others : List Char} (before : Labels labels) (after : Labels others) : Labels (labels ++ others) := by
  induction before with
  | nil => exact after
  | space blank _ ih => exact .space blank ih
  | label isLabel _ ih =>
    rw [List.append_assoc]
    exact .label isLabel ih

theorem stripLabels_spec (rounds : Nat) : ∀ text : List Char, text.rdropWhile is_whitespace = text → text.length ≤ rounds →
    ∃ labels, text = labels ++ trim (stripLabels rounds text) ∧ Labels labels ∧ labelOf (trim (stripLabels rounds text)) = none := by
  induction rounds with
  | zero =>
    intro text _ short
    obtain rfl := List.length_eq_zero_iff.mp (Nat.le_zero.mp short)
    exact ⟨[],rfl,.nil,rfl⟩
  | succ rounds ih =>
    intro text ended short
    have blanks : ∀ c ∈ text.takeWhile is_whitespace, is_whitespace c = true := fun c member => List.mem_takeWhile_imp member
    have whole : text = text.takeWhile is_whitespace ++ trim_start text := (List.takeWhile_append_dropWhile).symm
    have isTrim : trim text = trim_start text := rdropWhile_suffix whole ended
    rw [stripLabels]
    cases found : labelOf (trim text) with
    | none => exact ⟨_,by rw [isTrim]; exact whole,.blanks blanks,found⟩
    | some label =>
      obtain ⟨isLabel,split,lower⟩ := labelOf_split found
      obtain ⟨c,later,given,-⟩ := prefixes_begin label isLabel
      have shorter : ((trim text).drop label.length).length ≤ rounds := by
        have bound : (trim_start text).length ≤ text.length := (List.dropWhile_sublist _).length_le
        rw [List.length_drop,given,List.length_cons,isTrim]
        omega
      obtain ⟨labels,rest,areLabels,last⟩ := ih _ (rdropWhile_suffix split (trim_last text)) shorter
      refine ⟨text.takeWhile is_whitespace ++ ((trim text).take label.length ++ labels),?_,?_,last⟩
      · calc text = text.takeWhile is_whitespace ++ trim text := by rw [isTrim]; exact whole
          _ = text.takeWhile is_whitespace ++ ((trim text).take label.length ++ (trim text).drop label.length) := by rw [← split]
          _ = _ := by rw [List.append_assoc,List.append_assoc,← rest]
      · exact (Labels.blanks blanks).append (.label (by rw [lower]; exact isLabel) areLabels)

theorem stripLabels_fence {labels : List Char} (areLabels : Labels labels) (more : List Char) : ∀ rounds,
    (labels ++ (FENCE ++ more)).rdropWhile is_whitespace = labels ++ (FENCE ++ more) → (labels ++ (FENCE ++ more)).length ≤ rounds →
    trim (stripLabels rounds (labels ++ (FENCE ++ more))) = FENCE ++ more := by
  induction areLabels with
  | nil =>
    intro rounds ended _
    have kept : trim (FENCE ++ more) = FENCE ++ more := trim_eq_self (by rintro c ⟨⟩; rfl) ended
    cases rounds with
    | zero => exact kept
    | succ rounds => rw [List.nil_append,stripLabels,kept,labelOf_fence,kept]
  | @space c rest blank _ ih =>
    intro rounds ended short
    have later := ih rounds (rdropWhile_suffix (show _ = [c] ++ (rest ++ (FENCE ++ more)) from rfl) ended) (Nat.le_of_succ_le short)
    cases rounds with
    | zero => cases short
    | succ rounds =>
      have skipped : trim (c :: rest ++ (FENCE ++ more)) = trim (rest ++ (FENCE ++ more)) :=
        @trim_blanks [c] _ (by simpa using blank)
      rw [stripLabels] at later ⊢
      rw [skipped]
      cases found : labelOf (trim (rest ++ (FENCE ++ more))) with
      | none =>
        rw [found] at later
        exact skipped.trans later
      | some label =>
        rw [found] at later
        exact later
  | @label label rest isLabel _ ih =>
    intro rounds ended short
    obtain ⟨c,letters,given,solid⟩ := label_first isLabel
    have kept : trim (label ++ rest ++ (FENCE ++ more)) = label ++ rest ++ (FENCE ++ more) :=
      trim_eq_self (by rw [given]; rintro d ⟨⟩; exact solid) ended
    cases rounds with
    | zero => rw [given] at short; cases short
    | succ rounds =>
      rw [List.append_assoc] at kept ended short
      have rest_ : (label ++ (rest ++ (FENCE ++ more))).drop (to_ascii_lowercase label).length = rest ++ (FENCE ++ more) := by
        rw [lower_length,List.drop_left]
      rw [List.append_assoc,stripLabels,kept,labelOf_label isLabel]
      dsimp only
      rw [rest_]
      refine ih rounds (rdropWhile_suffix rfl ended) ?_
      rw [List.length_append,given,List.length_cons] at short
      omega

variable {body : List (List Char)} {value : List Char}

theorem popFence_append {closing : List Char} (closes : FENCE <+: trim_start closing) : popFence (body ++ [closing]) = body := by
  rw [popFence,List.getLast?_concat]
  dsimp only
  rw [if_pos closes,List.dropLast_concat]
theorem popFence_open (open_ : ∀ line, body.getLast? = some line → ¬ FENCE <+: trim_start line) : popFence body = body := by
  rw [popFence]
  cases last : body.getLast? with
  | none => rfl
  | some line => exact if_neg (open_ line last)

theorem lines_fence (fence : FENCE <+: text) : ∃ opening body, lines text = opening :: body := by
  obtain ⟨rest,rfl⟩ := fence
  obtain ⟨line,later,isLines⟩ := lines_cons (c := '`') (['`','`'] ++ rest) rfl
  exact ⟨_,_,isLines⟩
theorem strip_fence (fence : FENCE <+: trim value) {opening : List Char}
    (isLines : lines (trim value) = opening :: body) : strip_code_fence (trim value) = trim (join (popFence body)) := by
  rw [strip_code_fence,trim_trim]
  rw [if_pos fence,isLines]

theorem inside_iff {inner : List Char} : Inside value inner ↔ inner = strip_code_fence (trim value) := by
  constructor
  · intro inside
    cases inside with
    | plain noFence =>
      rw [strip_code_fence,trim_trim]
      exact (if_neg noFence).symm
    | closed fence isLines closes => rw [strip_fence fence isLines,popFence_append closes]
    | unclosed fence isLines open_ => rw [strip_fence fence isLines,popFence_open open_]
  · rintro rfl
    by_cases fence : FENCE <+: trim value
    · obtain ⟨opening,body,isLines⟩ := lines_fence fence
      by_cases open_ : ∀ line, body.getLast? = some line → ¬ FENCE <+: trim_start line
      · rw [strip_fence fence isLines,popFence_open open_]
        exact .unclosed fence isLines open_
      · push Not at open_
        obtain ⟨closing,last,closes⟩ := open_
        obtain ⟨before,isBody⟩ := List.getLast?_eq_some_iff.mp last
        subst isBody
        rw [strip_fence fence isLines,popFence_append closes]
        exact .closed fence isLines closes
    · have plain : strip_code_fence (trim value) = trim value := by
        rw [strip_code_fence,trim_trim]
        exact if_neg fence
      rw [plain]
      exact .plain fence

theorem strip_trimmed (value : List Char) : trim (strip_code_fence value) = strip_code_fence value := by
  rw [strip_code_fence]
  split_ifs with fence
  · split
    · exact trim_trim value
    · exact trim_trim _
  · exact trim_trim value

theorem clean_eq (value : List Char) : clean_generated_commit_message value =
    trim (stripLabels (strip_code_fence (trim value)).length (strip_code_fence (trim value))) := by
  rw [clean_generated_commit_message]
  split_ifs with blank
  · exact (blank_lines (trim_trim _) blank).symm
  · rfl

theorem clean_spec (value : List Char) : ∃ labels,
    strip_code_fence (trim value) = labels ++ clean_generated_commit_message value ∧ Labels labels ∧
      labelOf (clean_generated_commit_message value) = none := by
  have ended := trim_last (strip_code_fence (trim value))
  rw [strip_trimmed] at ended
  rw [clean_eq]
  exact stripLabels_spec _ _ ended le_rfl

theorem fencedAgain_iff : FencedAgain value ↔ FENCE <+: clean_generated_commit_message value := by
  constructor
  · rintro ⟨inner,labels,rest,inside,isInner,areLabels⟩
    obtain rfl := inside_iff.mp inside
    have ended := trim_last (strip_code_fence (trim value))
    rw [strip_trimmed,isInner] at ended
    rw [clean_eq,isInner,stripLabels_fence areLabels rest _ ended le_rfl]
    exact List.prefix_append _ _
  · rintro ⟨rest,isRest⟩
    obtain ⟨labels,isInner,areLabels,-⟩ := clean_spec value
    exact ⟨_,labels,rest,inside_iff.mpr rfl,by rw [isInner,isRest],areLabels⟩

theorem clean_self {message : List Char} (trimmed : trim message = message) (unfenced : ¬ FENCE <+: message)
    (unlabelled : labelOf message = none) : clean_generated_commit_message message = message := by
  have stripped : strip_code_fence (trim message) = message := by
    rw [strip_code_fence,trim_trim,trimmed]
    exact if_neg unfenced
  rw [clean_eq,stripped]
  cases message with
  | nil => rfl
  | cons c rest => rw [List.length_cons,stripLabels,trimmed,unlabelled,trimmed]

/-- A value is cleaned as it should exactly when no second fence comes first in the
    text inside the outer one. -/
theorem cleaned_iff (value : List Char) : Cleaned value (clean_generated_commit_message value) ↔ ¬ FencedAgain value := by
  rw [fencedAgain_iff]
  constructor
  · exact fun cleaned => cleaned.unfenced
  · intro unfenced
    obtain ⟨labels,isInner,areLabels,unlabelled⟩ := clean_spec value
    have trimmed : trim (clean_generated_commit_message value) = clean_generated_commit_message value := by
      rw [clean_eq]
      exact trim_trim _
    exact {
      idempotent := clean_self trimmed unfenced unlabelled
      trimmed
      unfenced
      unlabelled
      removed := ⟨_,labels,inside_iff.mpr rfl,isInner,areLabels⟩ }

example : clean_generated_commit_message "```\nCommit message: fix: 修复登录超时问题\n```".toList = "fix: 修复登录超时问题".toList := by decide +kernel

/-- The fence behind a label stays. -/
theorem label_before_fence : ¬ ∀ value : List Char, Cleaned value (clean_generated_commit_message value) := by
  intro always
  exact (always "Commit message:\n```\nfix: login\n```".toList).unfenced (by decide +kernel)

end MyCursor.CommitMessage
