import MyCursor.ToolResults

/-!
# Texts that are cut with a notice

The loops of `truncate_text` in `cursor/tools/tool_call_result/gate.rs` look for a notice
that tells how much it leaves room for. They end, and what they end with keeps the limit.
-/
namespace MyCursor.Truncation
open ToolResults

def size (chars : List Char) : Nat := (chars.map Char.utf8Size).sum

theorem size_cons (c : Char) (rest : List Char) : size (c :: rest) = c.utf8Size + size rest := List.sum_cons
theorem size_append (chars more : List Char) : size (chars ++ more) = size chars + size more := by
  rw [size,List.map_append,List.sum_append]
  rfl
theorem byteSize_ofList (chars : List Char) : (String.ofList chars).utf8ByteSize = size chars := by
  induction chars with
  | nil => rfl
  | cons c rest ih =>
    have split : String.ofList (c :: rest) = String.singleton c ++ String.ofList rest := by
      rw [← String.toList_inj]
      simp
    rw [split,String.utf8ByteSize_append,ih,size_cons]
    simp
theorem byteSize (text : String) : text.utf8ByteSize = size text.toList := by
  rw [← byteSize_ofList,String.ofList_toList]
theorem size_front {front chars : List Char} (isFront : front <+: chars) : size front ≤ size chars := by
  obtain ⟨rest,rfl⟩ := isFront
  rw [size_append]
  exact Nat.le_add_right _ _

theorem frontWithin_size (chars : List Char) : ∀ limit, size (frontWithin limit chars) ≤ limit := by
  induction chars with
  | nil => exact fun _ => Nat.zero_le _
  | cons c rest ih =>
    intro limit
    rw [frontWithin]
    split_ifs with fits
    · rw [size_cons]
      have within := ih (limit - c.utf8Size)
      omega
    · exact Nat.zero_le _
theorem frontWithin_front (chars : List Char) : ∀ limit, frontWithin limit chars <+: chars := by
  induction chars with
  | nil => exact fun _ => List.prefix_refl _
  | cons c rest ih =>
    intro limit
    rw [frontWithin]
    split_ifs
    · exact List.prefix_cons_inj c |>.mpr (ih _)
    · exact List.nil_prefix
theorem frontWithin_mono (chars : List Char) : ∀ {limit more : Nat}, limit ≤ more → frontWithin limit chars <+: frontWithin more chars := by
  induction chars with
  | nil => exact fun _ => List.prefix_refl _
  | cons c rest ih =>
    intro limit more less
    rw [frontWithin,frontWithin]
    by_cases fits : c.utf8Size ≤ limit
    · rw [if_pos fits,if_pos (fits.trans less)]
      exact List.prefix_cons_inj c |>.mpr (ih (Nat.sub_le_sub_right less _))
    · rw [if_neg fits]
      exact List.nil_prefix
theorem utf8_front_size (content : String) (limit : Nat) : (utf8Prefix content limit).utf8ByteSize ≤ limit := by
  rw [utf8Prefix,byteSize_ofList]
  exact frontWithin_size _ _
theorem utf8_front_mono (content : String) {limit more : Nat} (less : limit ≤ more) :
    (utf8Prefix content limit).utf8ByteSize ≤ (utf8Prefix content more).utf8ByteSize := by
  rw [utf8Prefix,utf8Prefix,byteSize_ofList,byteSize_ofList]
  exact size_front (frontWithin_mono _ less)
theorem utf8_front (content : String) (limit : Nat) : (utf8Prefix content limit).toList <+: content.toList := by
  rw [utf8Prefix,String.toList_ofList]
  exact frontWithin_front _ _

theorem trim_front (value : String) : (trim_end_newlines value).toList <+: value.toList := by
  rw [trim_end_newlines,String.toList_ofList]
  have suffix := List.dropWhile_suffix (l := value.toList.reverse) (fun c => decide (c = '\n'))
  rw [← List.reverse_prefix,List.reverse_reverse] at suffix
  exact suffix
theorem trim_last (value : String) : (trim_end_newlines value).toList.getLast? ≠ some '\n' := by
  rw [trim_end_newlines,String.toList_ofList,List.getLast?_reverse]
  intro isLast
  have first := List.head?_dropWhile_not (fun c => decide (c = '\n')) value.toList.reverse
  rw [isLast] at first
  cases first

theorem digits_size (n : Nat) : (toString n).utf8ByteSize = (Nat.toDigits 10 n).length := by
  have isText : toString n = String.ofList (Nat.toDigits 10 n) := Nat.repr_eq_ofList_toDigits
  have one : ∀ c ∈ Nat.toDigits 10 n, c.utf8Size = 1 := by
    intro c isIn
    have isDigit := Nat.isDigit_of_mem_toDigits (by decide) (by decide) isIn
    rw [Char.isDigit,Bool.and_eq_true,decide_eq_true_eq,decide_eq_true_eq] at isDigit
    have small : c.val ≤ 0x7f := UInt32.le_trans isDigit.2 (by decide)
    exact if_pos small
  rw [isText,byteSize_ofList,size,List.map_congr_left one]
  simp
theorem digits_mono {a b : Nat} (less : a ≤ b) : (toString a).utf8ByteSize ≤ (toString b).utf8ByteSize := by
  rw [digits_size,digits_size]
  have bounded : b < 10 ^ (Nat.toDigits 10 b).length := (Nat.length_toDigits_le_iff (by decide) Nat.length_toDigits_pos).mp le_rfl
  exact (Nat.length_toDigits_le_iff (by decide) Nat.length_toDigits_pos).mpr (less.trans_lt bounded)

def noticeText (name content : String) (limit shown : Nat) : String := "\n\n" ++ truncation_notice name limit shown content.utf8ByteSize
theorem named_le (front next last : String) {a b c d : Nat} (less : (toString a).utf8ByteSize ≤ (toString b).utf8ByteSize)
    (fewer : (toString c).utf8ByteSize ≤ (toString d).utf8ByteSize) : (front ++ toString a ++ next ++ toString c ++ last).utf8ByteSize ≤
      (front ++ toString b ++ next ++ toString d ++ last).utf8ByteSize := by
  generalize toString a = x at less ⊢
  generalize toString b = y at less ⊢
  generalize toString c = z at fewer ⊢
  generalize toString d = w at fewer ⊢
  simp only [String.utf8ByteSize_append]
  omega
theorem truncation_notice_le (name : String) (limit : Nat) {a b c d : Nat} (less : (toString a).utf8ByteSize ≤ (toString b).utf8ByteSize)
    (fewer : (toString c).utf8ByteSize ≤ (toString d).utf8ByteSize) :
    (truncation_notice name limit a c).utf8ByteSize ≤ (truncation_notice name limit b d).utf8ByteSize := by
  have parts : ∃ front next last : String, ∀ shown original, truncation_notice name limit shown original =
      front ++ toString shown ++ next ++ toString original ++ last := ⟨_,_,_,fun _ _ => rfl⟩
  obtain ⟨front,next,last,isParts⟩ := parts
  rw [isParts,isParts]
  exact named_le front next last less fewer
theorem notice_mono (name content : String) (limit : Nat) {a b : Nat} (less : a ≤ b) :
    (noticeText name content limit a).utf8ByteSize ≤ (noticeText name content limit b).utf8ByteSize := by
  rw [noticeText,noticeText,String.utf8ByteSize_append,String.utf8ByteSize_append]
  exact Nat.add_le_add_left (truncation_notice_le name limit (digits_mono less) le_rfl) _

/-- The content where it fits; else a front of it, or a front without line breaks at its end and the notice of its size. -/
structure Shown (name content : String) (limit : Nat) (output : String) : Prop where
  whole : content.utf8ByteSize ≤ limit → output = content
  within : output.utf8ByteSize ≤ limit
  cut : limit < content.utf8ByteSize → output.toList <+: content.toList ∨ ∃ kept : String, kept.toList <+: content.toList ∧
    kept.toList.getLast? ≠ some '\n' ∧ output = kept ++ ("\n\n" ++ truncation_notice name limit kept.utf8ByteSize content.utf8ByteSize)
  /-- The notice is there wherever there is room for the longest. -/
  told : limit < content.utf8ByteSize → (noticeText name content limit limit).utf8ByteSize < limit →
    ∃ kept : String, output = kept ++ noticeText name content limit kept.utf8ByteSize

section Loops
variable {name content : String} {limit : Nat}

theorem shown_front (above : limit < content.utf8ByteSize) {shown : Nat} (bounded : shown ≤ limit)
    (long : limit ≤ (noticeText name content limit shown).utf8ByteSize) : Shown name content limit (utf8Prefix content limit) :=
  ⟨fun fits => absurd above (not_lt.mpr fits),utf8_front_size content limit,fun _ => .inl (utf8_front content limit),
    fun _ room => absurd (long.trans (notice_mono name content limit bounded)) (not_le.mpr room)⟩

theorem notice_turn (turns cap : Nat) : noticeTurns name content limit (turns + 1) cap =
    let kept := trim_end_newlines (utf8Prefix content cap)
    if limit ≤ (noticeText name content limit kept.utf8ByteSize).utf8ByteSize then some (utf8Prefix content limit)
    else if kept.utf8ByteSize ≤ limit - (noticeText name content limit kept.utf8ByteSize).utf8ByteSize then
      some (kept ++ noticeText name content limit kept.utf8ByteSize)
    else noticeTurns name content limit turns (limit - (noticeText name content limit kept.utf8ByteSize).utf8ByteSize) := rfl
theorem notice_ends (above : limit < content.utf8ByteSize) : ∀ cap, cap ≤ limit → ∃ output, Shown name content limit output ∧
    ∀ more, cap < more → noticeTurns name content limit more cap = some output := by
  intro cap
  induction cap using Nat.strong_induction_on with
  | _ cap ih =>
    intro capped
    obtain ⟨kept,isKept⟩ : ∃ kept, trim_end_newlines (utf8Prefix content cap) = kept := ⟨_,rfl⟩
    have isFront : kept.toList <+: content.toList := isKept ▸ (trim_front _).trans (utf8_front content cap)
    have noBreak : kept.toList.getLast? ≠ some '\n' := isKept ▸ trim_last _
    have kept_le : kept.utf8ByteSize ≤ cap := by
      have fronts := size_front (trim_front (utf8Prefix content cap))
      rw [← byteSize,← byteSize,isKept] at fronts
      exact fronts.trans (utf8_front_size content cap)
    have turn (more : Nat) (some_ : cap < more) : ∃ turns, more = turns + 1 ∧ cap ≤ turns := ⟨more - 1,by omega,by omega⟩
    by_cases long : limit ≤ (noticeText name content limit kept.utf8ByteSize).utf8ByteSize
    · refine ⟨_,shown_front above (kept_le.trans capped) long,fun more some_ => ?_⟩
      obtain ⟨turns,rfl,-⟩ := turn more some_
      simp only [notice_turn,isKept,if_pos long]
    · by_cases fits : kept.utf8ByteSize ≤ limit - (noticeText name content limit kept.utf8ByteSize).utf8ByteSize
      · have within : (kept ++ noticeText name content limit kept.utf8ByteSize).utf8ByteSize ≤ limit := by
          rw [String.utf8ByteSize_append]
          omega
        refine ⟨kept ++ noticeText name content limit kept.utf8ByteSize,
          ⟨fun small => absurd above (not_lt.mpr small),within,fun _ => .inr ⟨kept,isFront,noBreak,rfl⟩,
            fun _ _ => ⟨kept,rfl⟩⟩,fun more some_ => ?_⟩
        obtain ⟨turns,rfl,-⟩ := turn more some_
        simp only [notice_turn,isKept,if_neg long,if_pos fits]
      · have lower : limit - (noticeText name content limit kept.utf8ByteSize).utf8ByteSize < cap := lt_of_lt_of_le (not_le.mp fits) kept_le
        obtain ⟨output,shown,ends⟩ := ih _ lower (Nat.sub_le _ _)
        refine ⟨output,shown,fun more some_ => ?_⟩
        obtain ⟨turns,rfl,enough⟩ := turn more some_
        simp only [notice_turn,isKept,if_neg long,if_neg fits]
        exact ends turns (lower.trans_le enough)

def room (name content : String) (limit shown : Nat) : Nat :=
  (utf8Prefix content (limit - (noticeText name content limit shown).utf8ByteSize)).utf8ByteSize
theorem room_anti {a b : Nat} (less : a ≤ b) : room name content limit b ≤ room name content limit a :=
  utf8_front_mono content (Nat.sub_le_sub_left (notice_mono name content limit less) limit)
theorem room_le (shown : Nat) : room name content limit shown ≤ limit := (utf8_front_size _ _).trans (Nat.sub_le _ _)

theorem gate_turn (turns shown : Nat) (previous : Option Nat) : gateTurns name content limit (turns + 1) shown previous =
    if limit ≤ (noticeText name content limit shown).utf8ByteSize then some (utf8Prefix content limit)
    else if room name content limit shown = shown ∨ previous = some (room name content limit shown) then
      noticeTurns name content limit (turns + 1) (room name content limit shown)
    else gateTurns name content limit turns (room name content limit shown) (some shown) := rfl

theorem narrower {previous shown next width : Nat} (between : previous ≤ next ∧ next ≤ shown ∨ shown ≤ next ∧ next ≤ previous)
    (differs : next ≠ shown ∧ previous ≠ next) (narrow : (shown - previous) + (previous - shown) ≤ width) :
    (next - shown) + (shown - next) < width := by omega
/-- What a turn makes room for lies between the last two numbers; the guard stops when it is one of them. -/
theorem gate_ends (above : limit < content.utf8ByteSize) (width : Nat) : ∀ {previous shown : Nat}, shown = room name content limit previous →
    (previous ≤ room name content limit shown ∧ room name content limit shown ≤ shown ∨
      shown ≤ room name content limit shown ∧ room name content limit shown ≤ previous) →
    (shown - previous) + (previous - shown) ≤ width →
    ∃ output, Shown name content limit output ∧
      ∀ more, width + limit < more → gateTurns name content limit more shown (some previous) = some output := by
  induction width using Nat.strong_induction_on with
  | _ width ih =>
    intro previous shown isShown between narrow
    obtain ⟨next,isNext⟩ : ∃ next, room name content limit shown = next := ⟨_,rfl⟩
    rw [isNext] at between
    have turn (more : Nat) (some_ : width + limit < more) :
      ∃ turns, more = turns + 1 ∧ width + limit ≤ turns := ⟨more - 1,by omega,by omega⟩
    by_cases long : limit ≤ (noticeText name content limit shown).utf8ByteSize
    · refine ⟨_,shown_front above (isShown.trans_le (room_le previous)) long,fun more some_ => ?_⟩
      obtain ⟨turns,rfl,-⟩ := turn more some_
      rw [gate_turn,if_pos long]
    · by_cases stops : next = shown ∨ some previous = some next
      · obtain ⟨output,isOutput,ends⟩ := @notice_ends name content limit above next (isNext.symm.trans_le (room_le shown))
        refine ⟨output,isOutput,fun more some_ => ?_⟩
        have bounded : next ≤ limit := isNext.symm.trans_le (room_le shown)
        obtain ⟨turns,rfl,enough⟩ := turn more some_
        rw [gate_turn,if_neg long,isNext,if_pos stops]
        exact ends _ (Nat.lt_succ_of_le (bounded.trans ((Nat.le_add_left _ _).trans enough)))
      · have differs : next ≠ shown ∧ previous ≠ next := ⟨fun same => stops (.inl same),fun same => stops (.inr (congrArg some same))⟩
        have inside : shown ≤ room name content limit next ∧ room name content limit next ≤ next ∨
            next ≤ room name content limit next ∧ room name content limit next ≤ shown := by
          rcases between with ⟨low,high⟩ | ⟨low,high⟩
          · exact .inr ⟨isNext.symm.trans_le (room_anti high),(room_anti low).trans_eq isShown.symm⟩
          · exact .inl ⟨isShown.trans_le (room_anti high),(room_anti low).trans_eq isNext⟩
        have less := narrower between differs narrow
        obtain ⟨output,isOutput,ends⟩ := ih _ less isNext.symm inside le_rfl
        refine ⟨output,isOutput,fun more some_ => ?_⟩
        obtain ⟨turns,rfl,enough⟩ := turn more some_
        rw [gate_turn,if_neg long,isNext,if_neg stops]
        exact ends turns (lt_of_lt_of_le (Nat.add_lt_add_right less limit) enough)

end Loops

def enough (limit : Nat) : Nat := 2 * limit + 3
theorem truncate_text_ends (name content : String) (limit : Nat) : ∃ output, Shown name content limit output ∧
    ∀ turns, enough limit ≤ turns → truncate_text turns name content limit = some output := by
  by_cases fits : content.utf8ByteSize ≤ limit
  · exact ⟨content,⟨fun _ => rfl,fits,fun above => absurd fits (not_le.mpr above),
      fun above => absurd fits (not_le.mpr above)⟩,fun _ _ => if_pos fits⟩
  · have above := not_le.mp fits
    have turn (more : Nat) (some_ : enough limit ≤ more) : ∃ turns, more = turns + 1 ∧ 2 * limit + 2 ≤ turns := by
      rw [enough] at some_
      exact ⟨more - 1,by omega,by omega⟩
    by_cases long : limit ≤ (noticeText name content limit limit).utf8ByteSize
    · refine ⟨utf8Prefix content limit,shown_front above le_rfl long,fun more some_ => ?_⟩
      obtain ⟨turns,rfl,-⟩ := turn more some_
      rw [truncate_text,if_neg fits,gate_turn,if_pos long]
    · obtain ⟨first,isFirst⟩ : ∃ first, room name content limit limit = first := ⟨_,rfl⟩
      have bounded : first ≤ limit := isFirst.symm.trans_le (room_le limit)
      by_cases stops : first = limit
      · obtain ⟨output,shown,ends⟩ := @notice_ends name content limit above first bounded
        refine ⟨output,shown,fun more some_ => ?_⟩
        obtain ⟨turns,rfl,many⟩ := turn more some_
        rw [truncate_text,if_neg fits,gate_turn,if_neg long,isFirst,if_pos (.inl stops)]
        refine ends _ ?_
        clear ends long stops
        omega
      · have up : first ≤ room name content limit first := isFirst.symm.trans_le (room_anti bounded)
        obtain ⟨output,shown,ends⟩ := gate_ends above ((first - limit) + (limit - first)) isFirst.symm (.inr ⟨up,room_le first⟩) le_rfl
        refine ⟨output,shown,fun more some_ => ?_⟩
        obtain ⟨turns,rfl,many⟩ := turn more some_
        rw [truncate_text,if_neg fits,gate_turn,if_neg long,isFirst,if_neg]
        · refine ends turns ?_
          clear ends up long shown
          omega
        · rintro (same | none_)
          · exact stops same
          · cases none_

/-- The text that `truncate_text` ends with. -/
def shownText (name content : String) (limit : Nat) : String := (truncate_text (enough limit) name content limit).getD ""
theorem truncate_text_eq (name content : String) (limit : Nat) {turns : Nat} (many : enough limit ≤ turns) :
    truncate_text turns name content limit = some (shownText name content limit) := by
  obtain ⟨output,-,ends⟩ := truncate_text_ends name content limit
  rw [ends turns many,shownText,ends _ le_rfl,Option.getD_some]
theorem shownText_shown (name content : String) (limit : Nat) : Shown name content limit (shownText name content limit) := by
  obtain ⟨output,shown,ends⟩ := truncate_text_ends name content limit
  rwa [shownText,ends _ le_rfl]
theorem shownText_fits {name content : String} {limit : Nat} (fits : content.utf8ByteSize ≤ limit) :
    shownText name content limit = content :=
  (shownText_shown name content limit).whole fits

/-- `truncate_text` ends for every name, content and limit, with what its notice tells. -/
theorem truncate_text_terminates (name content : String) (limit : Nat) : ∃ output, Shown name content limit output ∧
    ∃ bound, ∀ turns, bound ≤ turns → truncate_text turns name content limit = some output :=
  ⟨shownText name content limit,shownText_shown name content limit,enough limit,fun _ => truncate_text_eq name content limit⟩

end MyCursor.Truncation
