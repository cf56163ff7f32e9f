import MyCursor.Truncation

/-!
# The gate before shell results

`gate_shell_result` of `cursor/tools/tool_call_result/gate.rs`: of an output that is too
long the middle is left out. The loop of `truncate_edges` looks for a notice that tells how
much is shown beside it; it has no guard, and ends on its second turn.
-/
namespace MyCursor.ShellGate
open ToolResults Truncation

def SHELL_STREAM_LIMIT : Nat := 16 * KIB
def SHELL_INTERLEAVED_LIMIT : Nat := 32 * KIB

/-- The loop of `truncate_edges`, for so many turns. -/
def edgesTurns (tool_name content : String) (limit : Nat) : Nat → Nat → Option String
  | 0, _ => none
  | turns + 1, shown =>
    let notice := middleNotice tool_name limit shown content.utf8ByteSize
    let available := limit - notice.utf8ByteSize
    let head := utf8Prefix content (available / 2)
    let tail := utf8_suffix content (available - head.utf8ByteSize)
    let next_shown := head.utf8ByteSize + tail.utf8ByteSize
    if next_shown = shown then some (head ++ notice ++ tail)
    else edgesTurns tool_name content limit turns next_shown
def truncate_edges (turns : Nat) (tool_name content : String) (limit : Nat) : Option String :=
  if content.utf8ByteSize ≤ limit then some content else edgesTurns tool_name content limit turns limit

/-- What a command wrote, as `ShellSuccess` and `ShellFailure` hold it beside their other fields. -/
structure Outputs where
  stdout : String
  stderr : String
  interleaved_output : Option String
  encoded : List UInt8
deriving DecidableEq

inductive ShellOutcome where
  | Success (success : Outputs)
  | Failure (failure : Outputs)
  /-- Timeouts, refusals and errors, whose texts pass as they are. -/
  | Encoded (bytes : List UInt8)
deriving DecidableEq

def gate_outputs (turns : Nat) (outputs : Outputs) : Option Outputs := do
  let stdout ← truncate_edges turns "Shell stdout" outputs.stdout SHELL_STREAM_LIMIT
  let stderr ← truncate_edges turns "Shell stderr" outputs.stderr SHELL_STREAM_LIMIT
  match outputs.interleaved_output with
  | some interleaved =>
    let interleaved ← truncate_edges turns "Shell interleaved output" interleaved SHELL_INTERLEAVED_LIMIT
    some { outputs with stdout,stderr,interleaved_output := some interleaved }
  | none => some { outputs with stdout,stderr }
def gate_shell_result (turns : Nat) : Option ShellOutcome → Option (Option ShellOutcome)
  | some (.Success success) => (gate_outputs turns success).map fun gated => some (.Success gated)
  | some (.Failure failure) => (gate_outputs turns failure).map fun gated => some (.Failure gated)
  | other => some other

/-- The names and limits that `gate_shell_result` cuts with. -/
def CUTS : List (String × Nat) :=
  [("Shell stdout",SHELL_STREAM_LIMIT),("Shell stderr",SHELL_STREAM_LIMIT),("Shell interleaved output",SHELL_INTERLEAVED_LIMIT)]

theorem middle_notice_le (name : String) (limit : Nat) {a b c d : Nat} (less : (toString a).utf8ByteSize ≤ (toString b).utf8ByteSize)
    (fewer : (toString c).utf8ByteSize ≤ (toString d).utf8ByteSize) :
    (middleNotice name limit a c).utf8ByteSize ≤ (middleNotice name limit b d).utf8ByteSize := by
  have parts : ∃ front next last : String, ∀ shown original, middleNotice name limit shown original =
      front ++ toString shown ++ next ++ toString original ++ last := ⟨_,_,_,fun _ _ => rfl⟩
  obtain ⟨front,next,last,isParts⟩ := parts
  rw [isParts,isParts]
  exact named_le front next last less fewer
theorem five_digits {n : Nat} (low : 10000 ≤ n) (high : n ≤ 99999) : (toString n).utf8ByteSize = 5 :=
  ((digits_mono high).trans (by decide +kernel)).antisymm ((show 5 ≤ _ by decide +kernel).trans (digits_mono low))

/-- Beside its notice every cut has room for a number of five digits, and its limit is one. -/
theorem cut_room {name : String} {limit : Nat} (isCut : (name,limit) ∈ CUTS) {original : Nat} (small : original < 2 ^ 64) :
    10003 + (middleNotice name limit limit original).utf8ByteSize ≤ limit ∧ limit ≤ 99999 := by
  have most : 10003 + (middleNotice name limit limit (2 ^ 64)).utf8ByteSize ≤ limit ∧ limit ≤ 99999 := by
    rw [CUTS,List.mem_cons,List.mem_cons,List.mem_singleton] at isCut
    rcases isCut with isCut | isCut | isCut <;> cases isCut <;> decide +kernel
  have less := @middle_notice_le name limit limit limit _ _ le_rfl (digits_mono small.le)
  exact ⟨(Nat.add_le_add_left less _).trans most.1,most.2⟩

theorem size_reverse (chars : List Char) : size chars.reverse = size chars := by
  rw [size,List.map_reverse,List.sum_reverse]
  rfl
/-- A front within a limit leaves room for less than a character, where there is more to show. -/
theorem front_fills (chars : List Char) : ∀ limit, limit < size chars → limit ≤ size (frontWithin limit chars) + 3 := by
  induction chars with
  | nil => exact fun limit more => absurd more (Nat.not_lt_zero limit)
  | cons c rest ih =>
    intro limit more
    have width := c.utf8Size_le_four
    rw [size_cons] at more
    rw [frontWithin]
    split_ifs with fits
    · rw [size_cons]
      have filled := ih (limit - c.utf8Size) (by omega)
      omega
    · omega
theorem utf8_back_size (content : String) (limit : Nat) : (utf8_suffix content limit).utf8ByteSize ≤ limit := by
  rw [utf8_suffix,byteSize_ofList,size_reverse]
  exact frontWithin_size _ _
theorem utf8_back_fills (content : String) {limit : Nat} (more : limit < content.utf8ByteSize) :
    limit ≤ (utf8_suffix content limit).utf8ByteSize + 3 := by
  rw [utf8_suffix,byteSize_ofList,size_reverse]
  exact front_fills _ limit (by rwa [size_reverse,← byteSize])
theorem utf8_back (content : String) (limit : Nat) : (utf8_suffix content limit).toList <:+ content.toList := by
  rw [utf8_suffix,String.toList_ofList,← List.reverse_prefix,List.reverse_reverse]
  exact frontWithin_front _ _

theorem size_positive {chars : List Char} (none_ : size chars = 0) : chars = [] := by
  cases chars with
  | nil => rfl
  | cons c rest =>
    have width := c.utf8Size_pos
    rw [size_cons] at none_
    omega
theorem apart {content head tail : String} (front : head.toList <+: content.toList) (back : tail.toList <:+ content.toList)
    (fits : head.utf8ByteSize + tail.utf8ByteSize ≤ content.utf8ByteSize) : ∃ middle, content = head ++ middle ++ tail := by
  obtain ⟨rest,isRest⟩ := front
  rw [byteSize,byteSize,byteSize,← isRest,size_append] at fits
  have within : tail.toList <:+ rest := by
    rcases List.suffix_or_suffix_of_suffix back (isRest ▸ List.suffix_append head.toList rest) with within | ⟨more,isMore⟩
    · exact within
    · rw [← isMore,size_append] at fits
      rw [size_positive (by omega : size more = 0),List.nil_append] at isMore
      exact isMore ▸ List.suffix_refl _
  obtain ⟨middle,isMiddle⟩ := within
  refine ⟨String.ofList middle,?_⟩
  rw [← String.toList_inj,String.toList_append,String.toList_append,String.toList_ofList,List.append_assoc,isMiddle,isRest]

/-! ## What is left of an output -/

/-- The content where it fits; else its two edges, and between them the notice of how much they are. -/
structure Edged (name content : String) (limit : Nat) (output : String) : Prop where
  whole : content.utf8ByteSize ≤ limit → output = content
  within : output.utf8ByteSize ≤ limit
  edges : limit < content.utf8ByteSize → ∃ head middle tail : String, content = head ++ middle ++ tail ∧
    output = head ++ middleNotice name limit (head.utf8ByteSize + tail.utf8ByteSize) content.utf8ByteSize ++ tail

section Loop
variable {name content : String} {limit shown : Nat}

def headOf (name content : String) (limit shown : Nat) : String :=
  utf8Prefix content ((limit - (middleNotice name limit shown content.utf8ByteSize).utf8ByteSize) / 2)
def tailOf (name content : String) (limit shown : Nat) : String :=
  utf8_suffix content (limit - (middleNotice name limit shown content.utf8ByteSize).utf8ByteSize -
    (headOf name content limit shown).utf8ByteSize)
def nextShown (name content : String) (limit shown : Nat) : Nat :=
  (headOf name content limit shown).utf8ByteSize + (tailOf name content limit shown).utf8ByteSize
theorem edges_turn (turns : Nat) : edgesTurns name content limit (turns + 1) shown = if nextShown name content limit shown = shown then
      some (headOf name content limit shown ++ middleNotice name limit shown content.utf8ByteSize ++ tailOf name content limit shown)
    else edgesTurns name content limit turns (nextShown name content limit shown) := rfl

theorem next_bounds (above : limit < content.utf8ByteSize) :
    nextShown name content limit shown ≤ limit - (middleNotice name limit shown content.utf8ByteSize).utf8ByteSize ∧
      limit - (middleNotice name limit shown content.utf8ByteSize).utf8ByteSize ≤ nextShown name content limit shown + 3 := by
  rw [nextShown,tailOf]
  obtain ⟨available,isAvailable⟩ : ∃ available, limit - (middleNotice name limit shown content.utf8ByteSize).utf8ByteSize = available :=
    ⟨_,rfl⟩
  have half : (headOf name content limit shown).utf8ByteSize ≤ available / 2 := by
    rw [headOf,isAvailable]
    exact utf8_front_size _ _
  rw [isAvailable]
  have rest := utf8_back_size content (available - (headOf name content limit shown).utf8ByteSize)
  have filled := @utf8_back_fills content (available - (headOf name content limit shown).utf8ByteSize) (by omega)
  omega

/-- What is shown on the first turn has as many digits as the limit: the second turn has the same notice, and so the same edges. -/
theorem edges_end (isCut : (name,limit) ∈ CUTS) (small : content.utf8ByteSize < 2 ^ 64) (above : limit < content.utf8ByteSize) :
    ∃ last, nextShown name content limit last = last ∧ last + (middleNotice name limit last content.utf8ByteSize).utf8ByteSize ≤ limit ∧
      ∀ turns, edgesTurns name content limit (turns + 2) limit =
        some (headOf name content limit last ++ middleNotice name limit last content.utf8ByteSize ++ tailOf name content limit last) := by
  obtain ⟨room,five⟩ := cut_room isCut small
  obtain ⟨last,isLast⟩ : ∃ last, nextShown name content limit limit = last := ⟨_,rfl⟩
  obtain ⟨most,least⟩ := isLast ▸ @next_bounds name content limit limit above
  have digits : (toString last).utf8ByteSize = (toString limit).utf8ByteSize :=
    (five_digits (by omega) (by omega)).trans (five_digits (by omega) five).symm
  have notice : (middleNotice name limit last content.utf8ByteSize).utf8ByteSize =
      (middleNotice name limit limit content.utf8ByteSize).utf8ByteSize :=
    (middle_notice_le name limit digits.le le_rfl).antisymm (middle_notice_le name limit digits.ge le_rfl)
  have stays : nextShown name content limit last = last := by
    refine Eq.trans ?_ isLast
    rw [nextShown,tailOf,headOf,notice]
    rfl
  refine ⟨last,stays,by omega,fun turns => ?_⟩
  rw [edges_turn,isLast]
  split_ifs with first
  · rw [first]
  · rw [edges_turn,if_pos stays]

end Loop

theorem edges_shown {name : String} {limit : Nat} (isCut : (name,limit) ∈ CUTS) {content : String} (small : content.utf8ByteSize < 2 ^ 64) :
    ∃ output, Edged name content limit output ∧ ∀ turns, truncate_edges (turns + 2) name content limit = some output := by
  by_cases fits : content.utf8ByteSize ≤ limit
  · refine ⟨content,⟨fun _ => rfl,fits,fun above => absurd fits (Nat.not_le_of_lt above)⟩,fun turns => ?_⟩
    rw [truncate_edges,if_pos fits]
  have above := Nat.lt_of_not_le fits
  obtain ⟨last,stays,room,ends⟩ := edges_end isCut small above
  have shown : (headOf name content limit last).utf8ByteSize + (tailOf name content limit last).utf8ByteSize = last := stays
  obtain ⟨middle,isContent⟩ : ∃ middle, content = headOf name content limit last ++ middle ++ tailOf name content limit last :=
    apart (utf8_front content _) (utf8_back content _) (by omega)
  refine ⟨headOf name content limit last ++ middleNotice name limit last content.utf8ByteSize ++ tailOf name content limit last,
    ⟨fun fit => absurd fit fits,?_,fun _ => ⟨_,middle,_,isContent,?_⟩⟩,fun turns => ?_⟩
  · rw [String.utf8ByteSize_append,String.utf8ByteSize_append]
    omega
  · rw [shown]
  · rw [truncate_edges,if_neg fits]
    exact ends turns

/-- For every output the loop ends, by its second turn, with what keeps the limit and tells how much of the content it is. -/
theorem shell_edges {name : String} {limit : Nat} (isCut : (name,limit) ∈ CUTS) (content : String) (small : content.utf8ByteSize < 2 ^ 64) :
    ∃ output, Edged name content limit output ∧ ∀ turns, 2 ≤ turns → truncate_edges turns name content limit = some output := by
  obtain ⟨output,edged,ends⟩ := edges_shown isCut small
  exact ⟨output,edged,fun turns enough => Nat.sub_add_cancel enough ▸ ends (turns - 2)⟩
/-- Twenty thousand characters of three bytes each. -/
theorem shell_edges_wide : ∃ output, Edged "Shell stderr" (String.ofList (List.replicate 20000 '│')) SHELL_STREAM_LIMIT output ∧
    ∀ turns, 2 ≤ turns → truncate_edges turns "Shell stderr" (String.ofList (List.replicate 20000 '│')) SHELL_STREAM_LIMIT = some output :=
  shell_edges (by decide) _ (by
    rw [byteSize_ofList,size,List.map_replicate,List.sum_replicate_nat]
    decide)

structure Gated (outputs gated : Outputs) : Prop where
  stdout : Edged "Shell stdout" outputs.stdout SHELL_STREAM_LIMIT gated.stdout
  stderr : Edged "Shell stderr" outputs.stderr SHELL_STREAM_LIMIT gated.stderr
  interleaved : Option.Rel (fun output left => Edged "Shell interleaved output" output SHELL_INTERLEAVED_LIMIT left)
    outputs.interleaved_output gated.interleaved_output
  encoded : gated.encoded = outputs.encoded
def Held (outputs : Outputs) : Prop := outputs.stdout.utf8ByteSize < 2 ^ 64 ∧ outputs.stderr.utf8ByteSize < 2 ^ 64 ∧
  ∀ interleaved ∈ outputs.interleaved_output, interleaved.utf8ByteSize < 2 ^ 64

theorem gate_outputs_ends {outputs : Outputs} (held : Held outputs) :
    ∃ gated, Gated outputs gated ∧ ∀ turns, gate_outputs (turns + 2) outputs = some gated := by
  obtain ⟨stdout,stderr,interleaved,encoded⟩ := outputs
  obtain ⟨stdoutHeld,stderrHeld,interleavedHeld⟩ := held
  obtain ⟨out,outEdged,outEnds⟩ := edges_shown (by decide : ("Shell stdout",SHELL_STREAM_LIMIT) ∈ CUTS) stdoutHeld
  obtain ⟨err,errEdged,errEnds⟩ := edges_shown (by decide : ("Shell stderr",SHELL_STREAM_LIMIT) ∈ CUTS) stderrHeld
  cases interleaved with
  | none =>
    refine ⟨⟨out,err,none,encoded⟩,⟨outEdged,errEdged,.none,rfl⟩,fun turns => ?_⟩
    rw [gate_outputs,outEnds,errEnds]
    rfl
  | some interleaved =>
    obtain ⟨both,bothEdged,bothEnds⟩ :=
      edges_shown (by decide : ("Shell interleaved output",SHELL_INTERLEAVED_LIMIT) ∈ CUTS) (interleavedHeld _ rfl)
    refine ⟨⟨out,err,some both,encoded⟩,⟨outEdged,errEdged,.some bothEdged,rfl⟩,fun turns => ?_⟩
    simp only [gate_outputs,outEnds,errEnds,bothEnds]
    rfl

/-- Whatever a command wrote, its gated result keeps the kind of the result and the edges of every output. -/
theorem gate_ends {success : Outputs} (held : Held success) : ∃ gated, Gated success gated ∧
    (∀ turns, gate_shell_result (turns + 2) (some (.Success success)) = some (some (.Success gated))) ∧
      ∀ turns, gate_shell_result (turns + 2) (some (.Failure success)) = some (some (.Failure gated)) := by
  obtain ⟨gated,isGated,ends⟩ := gate_outputs_ends held
  refine ⟨gated,isGated,fun turns => ?_,fun turns => ?_⟩
  · rw [gate_shell_result,ends]
    rfl
  · rw [gate_shell_result,ends]
    rfl

end MyCursor.ShellGate
