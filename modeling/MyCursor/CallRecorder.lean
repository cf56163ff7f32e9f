import Mathlib.Algebra.BigOperators.Group.List.Basic
import Mathlib.Data.List.Nodup
import MyCursor.Run
import MyCursor.Transitions

/-!
# The recorder of provider calls

`provider/recorder.rs` with `record_llm_chunks` and `finish_llm_call` of
`store/llm_calls.rs`. Chunks are buffered; a full buffer, a delayed flush or the end of
the call takes the batch and stores it, and a batch that could not be stored goes back
into the buffer. The lock of the attempt is held while the store works, so that other
tasks only run up to the lock meanwhile.
-/
namespace MyCursor.CallRecorder
open Run Transitions

structure BufferedLlmChunk where
  seq : Nat
  data : Option (List UInt8)
  byte_count : Nat
deriving DecidableEq

def BufferedLlmChunk.new (seq : Nat) (data : List UInt8) : BufferedLlmChunk := ⟨seq,some data,data.length⟩
def BufferedLlmChunk.metrics (seq byte_count : Nat) : BufferedLlmChunk := ⟨seq,none,byte_count⟩

structure Ending where
  status : String := "running"
  finish_reason : Option String := none
  error_kind : Option String := none
  error_message : Option String := none
deriving DecidableEq

/-- The row of the call, with its rows in `llm_call_response_chunks`. -/
structure Row where
  ending : Ending := {}
  response_bytes : Nat := 0
  stream_event_count : Nat := 0
  response_chunks : List BufferedLlmChunk := []
deriving DecidableEq

/-- A chunk without data is an error, and one whose number is there violates the primary key. -/
def insertChunk (stored : List BufferedLlmChunk) (chunk : BufferedLlmChunk) : Option (List BufferedLlmChunk) :=
  if chunk.data = none ∨ chunk.seq ∈ stored.map (·.seq) then none else some (stored ++ [chunk])
def record_llm_chunks (row : Row) (chunks : List BufferedLlmChunk) (detailed : Bool) : Option Row :=
  if chunks = [] then some row
  else do
    let response_chunks ← if detailed then chunks.foldlM insertChunk row.response_chunks else some row.response_chunks
    some { row with
      response_bytes := row.response_bytes + (chunks.map (·.byte_count)).sum
      stream_event_count := row.stream_event_count + chunks.length
      response_chunks }
/-- `UPDATE … WHERE call_id = ? AND status = 'running'`. -/
def finish_llm_call (row : Row) (ending : Ending) : Row := if row.ending.status = "running" then { row with ending } else row

def finish_reason : FinishReason → String
  | .Stop => "stop"
  | .Length => "length"
  | .ToolUse => "tool_use"
def error_kind : Error → String
  | .Provider _ | .Http _ => "provider"
  | .Cancelled => "cancelled"
  | .Database _ | .Store _ => "store"
  | _ => "internal"

inductive Finish
  | Completed (reason : FinishReason)
  | Failed (error : Error)
  | Cancelled
deriving DecidableEq

/-- What `completed`, `failed` and `cancelled` pass to `finish`. -/
def Finish.ending : Finish → Ending
  | .Completed reason => { status := "completed", finish_reason := some (finish_reason reason) }
  | .Failed error => { status := "error", error_kind := some (error_kind error), error_message := some error.to_string }
  | .Cancelled => { status := "cancelled" }

def MAX_BUFFERED_CHUNKS : Nat := 32
def MAX_BUFFERED_BYTES : Nat := 256 * 1024

/-- What the task that holds the lock waits for. A finish goes on when its chunks are stored. -/
inductive Awaits
  | Chunks (chunks : List BufferedLlmChunk) (finish : Option Finish)
  | Finish (finish : Finish)
deriving DecidableEq

/-- `given` are the data that were taken in; no step reads them. -/
structure Recorder where
  detailed : Bool
  next_chunk : Nat := 0
  chunks : List BufferedLlmChunk := []
  bytes : Nat := 0
  generation : Nat := 0
  next_generation : Nat := 0
  finished : Bool := false
  awaits : Option Awaits := none
  row : Row := {}
  given : List (List UInt8) := []
deriving DecidableEq

def flush_locked (s : Recorder) (finish : Option Finish) : Recorder :=
  if s.chunks = [] then { s with awaits := finish.map .Finish }
  else { s with chunks := [], bytes := 0, awaits := some (.Chunks s.chunks finish) }
def restore (s : Recorder) (chunks : List BufferedLlmChunk) : Recorder :=
  { s with chunks, bytes := (chunks.map (·.byte_count)).sum, awaits := none }

def buffer (s : Recorder) (data : List UInt8) : Recorder :=
  let next_generation := (s.next_generation + 1) % 2 ^ 64
  { s with
    next_chunk := s.next_chunk + 1
    chunks := s.chunks ++ [if s.detailed then .new s.next_chunk data else .metrics s.next_chunk data.length]
    bytes := s.bytes + data.length
    generation := if s.chunks = [] then next_generation else s.generation
    next_generation := if s.chunks = [] then next_generation else s.next_generation
    given := s.given ++ [data] }
/-- `expired` is whether the oldest chunk of the buffer is too old. -/
def response_chunk (s : Recorder) (data : List UInt8) (expired : Bool) : Recorder :=
  if s.finished then s
  else
    let s := buffer s data
    if s.chunks.length ≥ MAX_BUFFERED_CHUNKS ∨ s.bytes ≥ MAX_BUFFERED_BYTES ∨ expired then flush_locked s none else s
def flush_generation (s : Recorder) (generation : Nat) : Recorder :=
  if s.generation ≠ generation then s else flush_locked s none
def finish (s : Recorder) (finish : Finish) : Recorder := if s.finished then s else flush_locked s (some finish)

/-- The transaction commits, unless the store refuses what is in it. -/
def committed (s : Recorder) : Awaits → Recorder
  | .Chunks chunks finish =>
    match record_llm_chunks s.row chunks s.detailed with
    | none => restore s chunks
    | some row => { s with row, awaits := finish.map .Finish }
  | .Finish finish => { s with row := finish_llm_call s.row finish.ending, finished := true, awaits := none }
def failed (s : Recorder) : Awaits → Recorder
  | .Chunks chunks _ => restore s chunks
  | .Finish _ => { s with awaits := none }

inductive Action
  | ResponseChunk (data : List UInt8) (expired : Bool)
  | FlushGeneration (generation : Nat)
  | Finish (finish : Finish)
  | Committed
  | Failed
deriving DecidableEq

/-- A call that does not get the lock changes nothing. -/
def step (s : Recorder) : Action → Recorder
  | .ResponseChunk data expired => if s.awaits = none then response_chunk s data expired else s
  | .FlushGeneration generation => if s.awaits = none then flush_generation s generation else s
  | .Finish how => if s.awaits = none then finish s how else s
  | .Committed => s.awaits.elim s (committed s)
  | .Failed => s.awaits.elim s (failed s)

def start (detailed : Bool) : Recorder := { detailed }

/-- The chunks of these data, in the order in which they came. -/
def chunksOf (detailed : Bool) (given : List (List UInt8)) : List BufferedLlmChunk :=
  given.mapIdx fun seq data => if detailed then .new seq data else .metrics seq data.length

/-- The first chunks are stored, each once and in order, and nothing else is; the store
    refuses no batch. -/
structure Ordered (s : Recorder) : Prop where
  numbered : (chunksOf s.detailed s.given).map (·.seq) = List.range s.given.length
  count : s.row.stream_event_count ≤ s.given.length
  bytes : s.row.response_bytes = ((s.given.take s.row.stream_event_count).map List.length).sum
  stored : s.row.response_chunks = if s.detailed then (chunksOf s.detailed s.given).take s.row.stream_event_count else []
  accepts : ∀ chunks finish, s.awaits = some (.Chunks chunks finish) → (record_llm_chunks s.row chunks s.detailed).isSome = true
/-- All chunks are stored, and how the call ended. -/
structure Complete (s : Recorder) : Prop where
  count : s.row.stream_event_count = s.given.length
  bytes : s.row.response_bytes = (s.given.map List.length).sum
  stored : s.row.response_chunks = if s.detailed then chunksOf s.detailed s.given else []
  ending : ∃ finish : Finish, s.row.ending = finish.ending

section Chunks
variable {detailed : Bool} {given : List (List UInt8)}

theorem chunksOf_length : (chunksOf detailed given).length = given.length := List.length_mapIdx
theorem chunksOf_snoc (data : List UInt8) : chunksOf detailed (given ++ [data]) =
    chunksOf detailed given ++ [if detailed then .new given.length data else .metrics given.length data.length] :=
  List.mapIdx_concat
theorem chunksOf_seq : (chunksOf detailed given).map (·.seq) = List.range given.length := by
  refine List.ext_getElem ?_ fun i first second => ?_
  · rw [List.length_map,chunksOf_length,List.length_range]
  · rw [List.getElem_map,List.getElem_range]
    simp only [chunksOf,List.getElem_mapIdx]
    split <;> rfl
theorem chunksOf_bytes : (chunksOf detailed given).map (·.byte_count) = given.map List.length := by
  refine List.ext_getElem ?_ fun i first second => ?_
  · rw [List.length_map,chunksOf_length,List.length_map]
  · rw [List.getElem_map,List.getElem_map]
    simp only [chunksOf,List.getElem_mapIdx]
    split <;> rfl
theorem chunksOf_data {chunk : BufferedLlmChunk} (member : chunk ∈ chunksOf true given) : chunk.data ≠ none := by
  obtain ⟨i,inside,rfl⟩ := List.mem_mapIdx.mp member
  nofun

end Chunks

/-- The rows of these chunks are there, and the counters add up to them. -/
structure Saved (detailed : Bool) (row : Row) (persisted : List BufferedLlmChunk) : Prop where
  count : row.stream_event_count = persisted.length
  bytes : row.response_bytes = (persisted.map (·.byte_count)).sum
  stored : row.response_chunks = if detailed then persisted else []

theorem insertChunk_all {stored chunks : List BufferedLlmChunk} (data : ∀ chunk ∈ chunks, chunk.data ≠ none)
    (nodup : ((stored ++ chunks).map (·.seq)).Nodup) : chunks.foldlM insertChunk stored = some (stored ++ chunks) := by
  induction chunks generalizing stored with
  | nil => rw [List.append_nil]; rfl
  | cons chunk rest ih =>
    obtain ⟨here,later⟩ := List.forall_mem_cons.mp data
    have whole : stored ++ chunk :: rest = stored ++ [chunk] ++ rest := by rw [List.append_assoc]; rfl
    have fresh : chunk.seq ∉ stored.map (·.seq) := by
      rw [List.map_append,List.nodup_append] at nodup
      intro known
      exact nodup.2.2 _ known _ (List.mem_map_of_mem List.mem_cons_self) rfl
    have inserted : insertChunk stored chunk = some (stored ++ [chunk]) := if_neg (not_or.mpr ⟨here,fresh⟩)
    rw [List.foldlM_cons,inserted,whole]
    exact ih later (whole ▸ nodup)
theorem record_llm_chunks_saves {detailed : Bool} {row : Row} {persisted batch : List BufferedLlmChunk}
    (saved : Saved detailed row persisted) (data : detailed = true → ∀ chunk ∈ batch, chunk.data ≠ none)
    (nodup : ((persisted ++ batch).map (·.seq)).Nodup) :
    ∃ next, record_llm_chunks row batch detailed = some next ∧ Saved detailed next (persisted ++ batch) ∧ next.ending = row.ending := by
  rw [record_llm_chunks]
  split_ifs with empty isDetailed
  · refine ⟨row,rfl,?_,rfl⟩
    rw [empty,List.append_nil]
    exact saved
  · have stored : row.response_chunks = persisted := by rw [saved.stored,if_pos isDetailed]
    rw [stored,insertChunk_all (data isDetailed) nodup]
    refine ⟨_,rfl,⟨?_,?_,?_⟩,rfl⟩
    · rw [List.length_append,← saved.count]
    · rw [List.map_append,List.sum_append,← saved.bytes]
    · rw [if_pos isDetailed]
  · refine ⟨_,rfl,⟨?_,?_,?_⟩,rfl⟩
    · rw [List.length_append,← saved.count]
    · rw [List.map_append,List.sum_append,← saved.bytes]
    · rw [if_neg isDetailed,saved.stored,if_neg isDetailed]

def batchOf : Option Awaits → List BufferedLlmChunk
  | some (.Chunks chunks _) => chunks
  | _ => []

/-- Each chunk is stored, in the batch on its way to the store, or in the buffer. -/
structure Inv (s : Recorder) (persisted : List BufferedLlmChunk) : Prop where
  conserved : persisted ++ (batchOf s.awaits ++ s.chunks) = chunksOf s.detailed s.given
  saved : Saved s.detailed s.row persisted
  next : s.next_chunk = s.given.length
  taken : s.awaits ≠ none → s.chunks = []
  running : s.finished = false → s.row.ending = {}
  finished : s.finished = true → s.awaits = none ∧ s.chunks = [] ∧ ∃ finish : Finish, s.row.ending = finish.ending

section Steps
variable {s : Recorder} {persisted chunks : List BufferedLlmChunk} {how : Option Finish}

theorem start_inv (detailed : Bool) : Inv (start detailed) [] :=
  ⟨rfl,⟨rfl,rfl,by cases detailed <;> rfl⟩,rfl,nofun,fun _ => rfl,nofun⟩
section
variable (inv : Inv s persisted)
include inv

theorem Inv.unfinished (held : s.awaits ≠ none) : s.finished = false := by
  by_contra ended
  exact held (inv.finished (Bool.not_eq_false _ ▸ ended)).1
theorem Inv.flushed (unfinished : s.finished = false) (free : s.awaits = none) : Inv (flush_locked s how) persisted := by
  have conserved := inv.conserved
  rw [free] at conserved
  rw [flush_locked]
  split_ifs with empty
  · refine ⟨?_,inv.saved,inv.next,fun _ => empty,inv.running,fun ended => ?_⟩
    · rw [empty] at conserved ⊢
      cases how <;> exact conserved
    · exact absurd (unfinished.symm.trans ended) Bool.false_ne_true
  · refine ⟨?_,inv.saved,inv.next,fun _ => rfl,inv.running,fun ended => ?_⟩
    · rw [← conserved]
      exact congrArg _ (List.append_nil _)
    · exact absurd (unfinished.symm.trans ended) Bool.false_ne_true
theorem Inv.restored (isBatch : s.awaits = some (.Chunks chunks how)) : Inv (restore s chunks) persisted := by
  have held : s.awaits ≠ none := by rw [isBatch]; nofun
  have conserved := inv.conserved
  rw [inv.taken held,isBatch] at conserved
  refine ⟨?_,inv.saved,inv.next,nofun,inv.running,fun ended => ?_⟩
  · show persisted ++ ([] ++ chunks) = chunksOf s.detailed s.given
    rw [← conserved]
    exact congrArg _ (List.append_nil _).symm
  · exact absurd ((inv.unfinished held).symm.trans ended) Bool.false_ne_true
theorem Inv.buffered (unfinished : s.finished = false) (free : s.awaits = none) (data : List UInt8) : Inv (buffer s data) persisted := by
  have conserved := inv.conserved
  rw [free] at conserved
  refine ⟨?_,inv.saved,?_,fun held => absurd free held,inv.running,fun ended => ?_⟩
  · show persisted ++ (batchOf s.awaits ++ (s.chunks ++ _)) = chunksOf s.detailed (s.given ++ [data])
    rw [chunksOf_snoc,← conserved,free,inv.next,List.append_assoc]
    rfl
  · show s.next_chunk + 1 = (s.given ++ [data]).length
    rw [inv.next,List.length_append]
    rfl
  · exact absurd (unfinished.symm.trans ended) Bool.false_ne_true
theorem Inv.responded (free : s.awaits = none) (data : List UInt8) (expired : Bool) : Inv (response_chunk s data expired) persisted := by
  rw [response_chunk]
  dsimp only
  split_ifs with ended _
  · exact inv
  · have unfinished := Bool.eq_false_iff.mpr ended
    exact (inv.buffered unfinished free data).flushed unfinished free
  · exact inv.buffered (Bool.eq_false_iff.mpr ended) free data

theorem Inv.recorded (isBatch : s.awaits = some (.Chunks chunks how)) :
    ∃ row, record_llm_chunks s.row chunks s.detailed = some row ∧ Saved s.detailed row (persisted ++ chunks) ∧
      row.ending = s.row.ending := by
  have conserved := inv.conserved
  rw [isBatch,← List.append_assoc] at conserved
  refine record_llm_chunks_saves inv.saved (fun isDetailed chunk member => ?_) ?_
  · have taken : chunk ∈ chunksOf true s.given := by
      rw [← isDetailed,← conserved]
      exact List.mem_append_left _ (List.mem_append_right _ member)
    exact chunksOf_data taken
  · have all : ((chunksOf s.detailed s.given).map (·.seq)).Nodup := chunksOf_seq ▸ List.nodup_range
    rw [← conserved,List.map_append] at all
    exact all.of_append_left
theorem Inv.onCommit {awaits : Awaits} (held : s.awaits = some awaits) : ∃ persisted, Inv (committed s awaits) persisted := by
  have isHeld : s.awaits ≠ none := by rw [held]; nofun
  have unfinished := inv.unfinished isHeld
  cases awaits with
  | Chunks chunks how =>
    obtain ⟨row,recorded,saved,kept⟩ := inv.recorded held
    have conserved := inv.conserved
    rw [held,← List.append_assoc] at conserved
    rw [committed,recorded]
    refine ⟨persisted ++ chunks,?_,saved,inv.next,fun _ => inv.taken isHeld,fun open_ => ?_,fun ended => ?_⟩
    · rw [← conserved]
      cases how <;> rfl
    · exact kept.trans (inv.running open_)
    · exact absurd (unfinished.symm.trans ended) Bool.false_ne_true
  | Finish how =>
    have conserved := inv.conserved
    rw [held] at conserved
    have written : finish_llm_call s.row how.ending = { s.row with ending := how.ending } := by
      rw [finish_llm_call,inv.running unfinished]
      rfl
    refine ⟨persisted,?_,?_,inv.next,nofun,nofun,fun _ => ⟨rfl,inv.taken isHeld,how,?_⟩⟩
    · exact conserved
    · show Saved s.detailed (finish_llm_call s.row how.ending) persisted
      rw [written]
      exact ⟨inv.saved.count,inv.saved.bytes,inv.saved.stored⟩
    · show (finish_llm_call s.row how.ending).ending = how.ending
      rw [written]
theorem Inv.onFailure {awaits : Awaits} (held : s.awaits = some awaits) : Inv (failed s awaits) persisted := by
  have isHeld : s.awaits ≠ none := by rw [held]; nofun
  cases awaits with
  | Chunks chunks how => exact inv.restored held
  | Finish how =>
    have conserved := inv.conserved
    rw [held] at conserved
    refine ⟨conserved,inv.saved,inv.next,nofun,inv.running,fun ended => ?_⟩
    exact absurd ((inv.unfinished isHeld).symm.trans ended) Bool.false_ne_true

theorem Inv.stepped (action : Action) : ∃ persisted, Inv (step s action) persisted := by
  cases action with
  | ResponseChunk data expired =>
    rw [step]
    split_ifs with free
    · exact ⟨persisted,inv.responded free data expired⟩
    · exact ⟨persisted,inv⟩
  | FlushGeneration generation =>
    rw [step,flush_generation]
    split_ifs with free other
    · exact ⟨persisted,inv⟩
    · cases ended : s.finished with
      | false => exact ⟨persisted,inv.flushed ended free⟩
      | true =>
        -- the buffer of a finished call is empty
        have same : flush_locked s none = s := by
          rw [flush_locked,if_pos (inv.finished ended).2.1,Option.map_none,← free]
        rw [same]
        exact ⟨persisted,inv⟩
    · exact ⟨persisted,inv⟩
  | Finish how =>
    rw [step,finish]
    split_ifs with free ended
    · exact ⟨persisted,inv⟩
    · exact ⟨persisted,inv.flushed (Bool.eq_false_iff.mpr ended) free⟩
    · exact ⟨persisted,inv⟩
  | Committed =>
    rw [step]
    cases held : s.awaits with
    | none => exact ⟨persisted,inv⟩
    | some awaits => exact inv.onCommit held
  | Failed =>
    rw [step]
    cases held : s.awaits with
    | none => exact ⟨persisted,inv⟩
    | some awaits => exact ⟨persisted,inv.onFailure held⟩

end

theorem after_inv (detailed : Bool) (actions : List Action) : ∃ persisted, Inv (after step (start detailed) actions) persisted :=
  invariant (P := fun s => ∃ persisted, Inv s persisted) ⟨[],start_inv detailed⟩
    (fun _ action ⟨_,inv⟩ => inv.stepped action) actions

theorem Inv.rests (inv : Inv s persisted) (ended : s.finished = true) (action : Action) : step s action = s := by
  obtain ⟨free,empty,-⟩ := inv.finished ended
  cases action with
  | ResponseChunk data expired => rw [step,if_pos free,response_chunk,if_pos ended]
  | FlushGeneration generation =>
    rw [step,if_pos free,flush_generation]
    split_ifs with other
    · rfl
    · rw [flush_locked,if_pos empty,Option.map_none,← free]
  | Finish how => rw [step,if_pos free,finish,if_pos ended]
  | Committed => rw [step,free]; rfl
  | Failed => rw [step,free]; rfl
theorem Inv.rests_after (inv : Inv s persisted) (ended : s.finished = true) (actions : List Action) : after step s actions = s := by
  induction actions with
  | nil => rfl
  | cons action rest ih => rw [after_cons,inv.rests ended,ih]

theorem Inv.ordered (inv : Inv s persisted) : Ordered s := by
  have isPrefix : persisted = (chunksOf s.detailed s.given).take s.row.stream_event_count := by
    rw [← inv.conserved,inv.saved.count,List.take_left]
  refine ⟨chunksOf_seq,?_,?_,?_,fun chunks how isBatch => ?_⟩
  · have total : (chunksOf s.detailed s.given).length = s.given.length := chunksOf_length
    rw [inv.saved.count,← total,← inv.conserved,List.length_append]
    exact Nat.le_add_right _ _
  · rw [inv.saved.bytes,isPrefix,List.map_take,chunksOf_bytes,List.map_take]
  · rw [inv.saved.stored,← isPrefix]
  · obtain ⟨row,recorded,-⟩ := inv.recorded isBatch
    rw [recorded]
    rfl
theorem Inv.complete (inv : Inv s persisted) (ended : s.finished = true) : Complete s := by
  obtain ⟨free,empty,how⟩ := inv.finished ended
  have all : persisted = chunksOf s.detailed s.given := by
    rw [← inv.conserved,free,empty]
    exact (List.append_nil _).symm
  refine ⟨?_,?_,?_,how⟩
  · rw [inv.saved.count,all,chunksOf_length]
  · rw [inv.saved.bytes,all,chunksOf_bytes]
  · rw [inv.saved.stored,all]

/-- A finish that gets the lock waits for its own transaction, right away or once the batch is stored. -/
theorem finish_waits (s : Recorder) (how : Finish) (free : s.awaits = none) (unfinished : s.finished = false) :
    (step s (.Finish how)).awaits = some (.Finish how) ∨ (step s (.Finish how)).awaits = some (.Chunks s.chunks (some how)) := by
  rw [step,if_pos free,finish,unfinished,if_neg Bool.false_ne_true,flush_locked]
  by_cases empty : s.chunks = []
  · rw [if_pos empty]
    exact .inl rfl
  · rw [if_neg empty]
    exact .inr rfl
theorem Inv.finish_reaches (inv : Inv s persisted) (how : Finish) (free : s.awaits = none) (unfinished : s.finished = false) :
    (step s (.Finish how)).awaits = some (.Finish how) ∨ (step (step s (.Finish how)) .Committed).awaits = some (.Finish how) := by
  rcases finish_waits s how free unfinished with waits | waits
  · exact .inl waits
  · obtain ⟨_,still⟩ := inv.stepped (.Finish how)
    obtain ⟨row,recorded,-⟩ := still.recorded waits
    right
    generalize step s (.Finish how) = held at waits recorded
    rw [step,waits,Option.elim_some,committed,recorded]
    rfl

/-- In every run the chunks are stored in order, each at most once; a finish that gets the
    lock comes to record its status once its chunks are stored, a finish that has recorded it
    leaves all of them stored, and nothing changes afterwards. -/
theorem recorder_exact (detailed : Bool) (before later : List Action) : Ordered (after step (start detailed) before) ∧
    (∀ how, (after step (start detailed) before).awaits = none → (after step (start detailed) before).finished = false →
      (step (after step (start detailed) before) (.Finish how)).awaits = some (.Finish how) ∨
        (step (step (after step (start detailed) before) (.Finish how)) .Committed).awaits = some (.Finish how)) ∧
    (∀ how, (after step (start detailed) before).awaits = some (.Finish how) →
      (step (after step (start detailed) before) .Committed).finished = true ∧
        (step (after step (start detailed) before) .Committed).row.ending = how.ending) ∧
    ((after step (start detailed) before).finished = true → Complete (after step (start detailed) before) ∧
      after step (start detailed) (before ++ later) = after step (start detailed) before) := by
  obtain ⟨persisted,inv⟩ := after_inv detailed before
  refine ⟨inv.ordered,fun how => inv.finish_reaches how,fun how held => ?_,fun ended => ⟨inv.complete ended,?_⟩⟩
  · have running := inv.running (inv.unfinished (by rw [held]; nofun))
    rw [step,held]
    refine ⟨rfl,?_⟩
    show (finish_llm_call _ _).ending = _
    rw [finish_llm_call,running]
    rfl
  · rw [after_append]
    exact inv.rests_after ended later

/-- A batch fails, a delayed flush of it comes late, and the call is cancelled; what comes later changes nothing. -/
theorem cancelled_recorded :
    (step (step (after step (start true) [.ResponseChunk [1] false,.FlushGeneration 1,.Failed,.ResponseChunk [2,3] false])
      (.Finish .Cancelled)) .Committed).awaits = some (.Finish .Cancelled) ∧
    (step (after step (start true) [.ResponseChunk [1] false,.FlushGeneration 1,.Failed,.ResponseChunk [2,3] false,.Finish .Cancelled,
      .Committed,.FlushGeneration 1]) .Committed).row.ending = Finish.Cancelled.ending ∧
    after step (start true) ([.ResponseChunk [1] false,.FlushGeneration 1,.Failed,.ResponseChunk [2,3] false,.Finish .Cancelled,
      .Committed,.FlushGeneration 1,.Committed] ++ [.ResponseChunk [4] true,.Finish (.Completed .Stop)]) =
      ⟨true,2,[],0,1,1,true,none,⟨{ status := "cancelled" },3,2,[.new 0 [1],.new 1 [2,3]]⟩,[[1],[2,3]]⟩ := by
  refine ⟨((recorder_exact true _ []).2.1 .Cancelled (by decide +kernel) (by decide +kernel)).resolve_left (by decide +kernel),
    ((recorder_exact true _ []).2.2.1 .Cancelled (by decide +kernel)).2,?_⟩
  rw [((recorder_exact true _ _).2.2.2 (by decide +kernel)).2]
  decide +kernel

end Steps

end MyCursor.CallRecorder
