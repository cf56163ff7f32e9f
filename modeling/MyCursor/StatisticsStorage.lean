import Mathlib.Logic.Function.Basic
import MyCursor.Transitions

/-!
# Clearing statistics

The blobs of `store/cas.rs`, the artifacts of `store/cursor_traces.rs` that link them
and the clears of `store/storage.rs`. A blob is stored once for all purposes; a clear
takes the blobs of artifacts that no edge names.
-/
namespace MyCursor.StatisticsStorage
open Transitions
set_option linter.unusedSectionVars false

variable {BlobId Bytes Rest : Type} [DecidableEq BlobId]

structure BlobEdge (BlobId : Type) where
  child : BlobId
  field_name : String
deriving DecidableEq

structure EdgeRow (BlobId : Type) where
  parent_blob_id : BlobId
  child_blob_id : BlobId
  field_name : String
deriving DecidableEq

structure ArtifactRow (BlobId : Type) where
  request_id : String
  seq : Nat
  artifact_type : String
  source : String
  blob_id : BlobId
  metadata_json : String
deriving DecidableEq

/-- `rest` are the conversations, checkpoints, messages, runs and all other tables.
    `owned` are the blobs that were put for another purpose than tracing, with the
    content they had then. -/
structure Database (BlobId Bytes Rest : Type) where
  rest : Rest
  blobs : BlobId → Option Bytes := fun _ => none
  blob_edges : List (EdgeRow BlobId) := []
  cursor_run_traces : List String := []
  cursor_run_trace_artifacts : List (ArtifactRow BlobId) := []
  llm_calls : List String := []
  llm_call_requests : List String := []
  llm_call_response_chunks : List (String × Nat) := []
  owned : List (BlobId × Bytes) := []

section Tables
variable (digest : Bytes → BlobId)

/-- `INSERT OR IGNORE`. -/
def insertBlob (s : Database BlobId Bytes Rest) (blob_id : BlobId) (data : Bytes) : Database BlobId Bytes Rest :=
  { s with blobs := Function.update s.blobs blob_id (some ((s.blobs blob_id).getD data)) }
/-- An edge to a blob that is not there violates the foreign key, and nothing is stored. -/
def put_blob_tx (s : Database BlobId Bytes Rest) (blob_id : BlobId) (data : Bytes) (edges : List (BlobEdge BlobId)) :
    Option (Database BlobId Bytes Rest) :=
  let s := insertBlob s blob_id data
  if edges.all (fun edge => (s.blobs edge.child).isSome) then
    some { s with
      blob_edges := s.blob_edges ++ (edges.map fun edge => ⟨blob_id,edge.child,edge.field_name⟩).filter (· ∉ s.blob_edges) }
  else none
def put_blob (s : Database BlobId Bytes Rest) (data : Bytes) (edges : List (BlobEdge BlobId)) : Option (Database BlobId Bytes Rest) :=
  (put_blob_tx s (digest data) data edges).map fun s =>
    { s with owned := s.owned ++ (s.blobs (digest data)).toList.map ((digest data),·) }

def nextSeq (s : Database BlobId Bytes Rest) (request_id : String) : Nat :=
  ((s.cursor_run_trace_artifacts.filter (·.request_id = request_id)).map (·.seq + 1)).foldl max 0
def link_cursor_trace_artifact (s : Database BlobId Bytes Rest) (request_id artifact_type source : String) (blob_id : BlobId)
    (metadata_json : String) : Option (Database BlobId Bytes Rest) :=
  if request_id ∈ s.cursor_run_traces ∧ (s.blobs blob_id).isSome then
    some { s with
      cursor_run_trace_artifacts := s.cursor_run_trace_artifacts ++
        [⟨request_id,nextSeq s request_id,artifact_type,source,blob_id,metadata_json⟩] }
  else none
/-- `append_cursor_trace_request`, `append_cursor_trace_artifact` and, for each
    chunk, `add_cursor_trace_response_chunks`. -/
def append_cursor_trace_artifact (s : Database BlobId Bytes Rest) (request_id artifact_type source : String) (data : Bytes)
    (metadata_json : String) : Option (Database BlobId Bytes Rest) :=
  (put_blob_tx s (digest data) data []).bind fun s =>
    link_cursor_trace_artifact s request_id artifact_type source (digest data) metadata_json

def linked (s : Database BlobId Bytes Rest) (blob_id : BlobId) : Bool :=
  s.cursor_run_trace_artifacts.any (·.blob_id = blob_id)
def hasEdge (s : Database BlobId Bytes Rest) (blob_id : BlobId) : Bool :=
  s.blob_edges.any fun row => row.parent_blob_id = blob_id ∨ row.child_blob_id = blob_id
def clear_trace_artifacts_tx (s : Database BlobId Bytes Rest) : Database BlobId Bytes Rest :=
  let cleared : Database BlobId Bytes Rest := { s with cursor_run_trace_artifacts := [] }
  let disposable (blob_id : BlobId) : Bool := linked s blob_id && !linked cleared blob_id && !hasEdge cleared blob_id
  { cleared with blobs := fun blob_id => if disposable blob_id then none else s.blobs blob_id }

inductive StatisticsStorageScope where
  | Details
  | All
deriving DecidableEq

def clear_statistics_storage (s : Database BlobId Bytes Rest) : Database BlobId Bytes Rest :=
  clear_trace_artifacts_tx { s with llm_call_requests := [], llm_call_response_chunks := [] }
def clear_all_statistics_storage (s : Database BlobId Bytes Rest) : Database BlobId Bytes Rest :=
  { clear_trace_artifacts_tx s with
    llm_calls := [], llm_call_requests := [], llm_call_response_chunks := [], cursor_run_traces := [] }
def clear (s : Database BlobId Bytes Rest) : StatisticsStorageScope → Database BlobId Bytes Rest
  | .Details => clear_statistics_storage s
  | .All => clear_all_statistics_storage s

/-- `change` stands for all other writes; they do not touch these tables. -/
inductive Action (BlobId Bytes Rest : Type) where
  | change (rest : Rest)
  | startTrace (request_id : String)
  | startCall (call_id : String)
  | recordRequest (call_id : String)
  | recordChunk (call_id : String) (seq : Nat)
  | put (data : Bytes) (edges : List (BlobEdge BlobId))
  | link (request_id artifact_type source : String) (blob_id : BlobId) (metadata_json : String)
  | append (request_id artifact_type source : String) (data : Bytes) (metadata_json : String)
  | clear (scope : StatisticsStorageScope)

/-- A transaction that fails changes nothing. -/
def step (s : Database BlobId Bytes Rest) : Action BlobId Bytes Rest → Database BlobId Bytes Rest
  | .change rest => { s with rest }
  | .startTrace request_id => { s with cursor_run_traces := s.cursor_run_traces ++ [request_id] }
  | .startCall call_id => { s with llm_calls := s.llm_calls ++ [call_id] }
  | .recordRequest call_id => { s with llm_call_requests := s.llm_call_requests ++ [call_id] }
  | .recordChunk call_id seq => { s with llm_call_response_chunks := s.llm_call_response_chunks ++ [(call_id,seq)] }
  | .put data edges => (put_blob digest s data edges).getD s
  | .link request_id artifact_type source blob_id metadata_json =>
    (link_cursor_trace_artifact s request_id artifact_type source blob_id metadata_json).getD s
  | .append request_id artifact_type source data metadata_json =>
    (append_cursor_trace_artifact digest s request_id artifact_type source data metadata_json).getD s
  | .clear scope => clear s scope

/-- The blobs that were put for another purpose than tracing have their content. -/
def Kept (s : Database BlobId Bytes Rest) : Prop := ∀ blob_id content, (blob_id,content) ∈ s.owned → s.blobs blob_id = some content
/-- Those that an artifact links have an edge. -/
def Guarded (s : Database BlobId Bytes Rest) : Prop :=
  ∀ blob_id content, (blob_id,content) ∈ s.owned → linked s blob_id = true → hasEdge s blob_id = true
def Allowed (s : Database BlobId Bytes Rest) : Action BlobId Bytes Rest → Prop
  | .clear _ => Guarded s
  | _ => True

variable {digest} {s : Database BlobId Bytes Rest}

theorem clear_blobs (s : Database BlobId Bytes Rest) (scope : StatisticsStorageScope) (blob_id : BlobId) :
    (clear s scope).blobs blob_id = if linked s blob_id ∧ hasEdge s blob_id = false then none else s.blobs blob_id := by
  cases scope <;>
    simp [clear,clear_statistics_storage,clear_all_statistics_storage,clear_trace_artifacts_tx,linked,hasEdge]
theorem clear_owned (scope : StatisticsStorageScope) : (clear s scope).owned = s.owned := by cases scope <;> rfl
theorem clear_rest (s : Database BlobId Bytes Rest) (scope : StatisticsStorageScope) : (clear s scope).rest = s.rest := by
  cases scope <;> rfl

theorem clear_kept (kept : Kept s) (scope : StatisticsStorageScope) : Kept (clear s scope) ↔ Guarded s := by
  constructor
  · intro after_ blob_id content member isLinked
    by_contra bare
    have there := after_ blob_id content (by rwa [clear_owned])
    rw [clear_blobs,if_pos ⟨isLinked,by simpa using bare⟩] at there
    cases there
  · intro guarded blob_id content member
    rw [clear_owned] at member
    rw [clear_blobs,if_neg]
    · exact kept blob_id content member
    · rintro ⟨isLinked,bare⟩
      rw [guarded blob_id content member isLinked] at bare
      cases bare

structure Grows (s t : Database BlobId Bytes Rest) : Prop where
  blobs : ∀ blob_id content, s.blobs blob_id = some content → t.blobs blob_id = some content
  owned : t.owned = s.owned

variable {t : Database BlobId Bytes Rest}

theorem Grows.kept (grows : Grows s t) (kept : Kept s) : Kept t := by
  intro blob_id content member
  rw [grows.owned] at member
  exact grows.blobs blob_id content (kept blob_id content member)
theorem put_grows {blob_id : BlobId} {data : Bytes} {edges : List (BlobEdge BlobId)}
    (puts : put_blob_tx s blob_id data edges = some t) : Grows s t := by
  unfold put_blob_tx at puts
  dsimp only at puts
  split_ifs at puts
  obtain rfl := Option.some.inj puts
  refine ⟨?_,rfl⟩
  intro other content found
  show Function.update s.blobs blob_id (some ((s.blobs blob_id).getD data)) other = some content
  by_cases same : other = blob_id
  · subst same
    rw [Function.update_self,found]
    rfl
  · rw [Function.update_of_ne same,found]
theorem link_grows {request_id artifact_type source metadata_json : String} {blob_id : BlobId}
    (links : link_cursor_trace_artifact s request_id artifact_type source blob_id metadata_json = some t) : Grows s t := by
  unfold link_cursor_trace_artifact at links
  split_ifs at links
  obtain rfl := Option.some.inj links
  exact ⟨fun _ _ found => found,rfl⟩

theorem step_kept (kept : Kept s) {action : Action BlobId Bytes Rest} (allowed : Allowed s action) : Kept (step digest s action) := by
  cases action with
  | change _ | startTrace _ | startCall _ | recordRequest _ | recordChunk _ _ => exact kept
  | clear scope => exact (clear_kept kept scope).mpr allowed
  | put data edges =>
    rw [step,put_blob]
    cases puts : put_blob_tx s (digest data) data edges with
    | none => exact kept
    | some t =>
      intro blob_id content member
      rcases List.mem_append.mp member with before | now
      · exact (put_grows puts).kept kept blob_id content before
      · simp only [List.mem_map,Option.mem_toList,Prod.mk.injEq] at now
        obtain ⟨_,found,rfl,rfl⟩ := now
        exact found
  | link request_id artifact_type source blob_id metadata_json =>
    rw [step]
    cases links : link_cursor_trace_artifact s request_id artifact_type source blob_id metadata_json with
    | none => exact kept
    | some t => exact (link_grows links).kept kept
  | append request_id artifact_type source data metadata_json =>
    rw [step,append_cursor_trace_artifact]
    cases puts : put_blob_tx s (digest data) data [] with
    | none => exact kept
    | some t =>
      have stored := (put_grows puts).kept kept
      rw [Option.bind_some]
      cases links : link_cursor_trace_artifact t request_id artifact_type source (digest data) metadata_json with
      | none => exact kept
      | some u => exact (link_grows links).kept stored

/-- After every run in which the clears found the linked blobs guarded, the next
    clear keeps all blobs of other purposes exactly if they are guarded again; it
    never touches the other tables. -/
theorem clear_keeps_blobs (rest : Rest) (actions : List (Action BlobId Bytes Rest))
    (meets : Meets (step digest) Allowed { rest } actions) (scope : StatisticsStorageScope) :
    (Kept (clear (after (step digest) { rest } actions) scope) ∧
      (clear (after (step digest) { rest } actions) scope).rest = (after (step digest) { rest } actions).rest) ↔
    Guarded (after (step digest) { rest } actions) := by
  have kept : Kept (after (step digest) { rest } actions) :=
    meets.invariant (fun _ _ member => by cases member) fun _ _ kept allowed => step_kept kept allowed
  rw [clear_kept kept]
  exact and_iff_left (clear_rest _ scope)

end Tables

abbrev ExampleAction := Action (List UInt8) (List UInt8) Unit
/-- `persist` puts a blob and links it in the trace of its request. -/
def persist (blob : List UInt8) (edges : List (BlobEdge (List UInt8))) : List ExampleAction :=
  [.put blob edges,.link "r" "blob_set" "byok_server" blob "null"]
def leaf : List ExampleAction := .startTrace "r" :: persist [1] []
def tree : List ExampleAction := .startTrace "r" :: persist [1] [] ++ persist [2] [⟨[1],"turn"⟩]

/-- A persisted blob that no other refers to is gone after a clear. -/
theorem leaf_lost : (after (step id) { rest := () } leaf).blobs [1] = some [1] ∧
      (clear (after (step id) { rest := () } leaf) .Details).blobs [1] = none ∧
      (clear (after (step id) { rest := () } leaf) .All).blobs [1] = none ∧
      ¬ Kept (clear (after (step id) { rest := () } leaf) .Details) := by
  have lost : (clear (after (step id) { rest := () } leaf) .Details).blobs [1] = none := by decide +kernel
  refine ⟨by decide +kernel,lost,by decide +kernel,?_⟩
  intro kept
  have there := kept [1] [1] (by decide +kernel)
  rw [lost] at there
  cases there

theorem clear_keeps_blobs_tree : Kept (clear (after (step id) { rest := () } tree) .All) ∧
      (clear (after (step id) { rest := () } tree) .All).rest = (after (step id) { rest := () } tree).rest := by
  refine (clear_keeps_blobs () tree ⟨trivial,trivial,trivial,trivial,trivial,trivial⟩ .All).mpr ?_
  have guarded : ∀ row ∈ (after (step id) { rest := () } tree).owned, linked (after (step id) { rest := () } tree) row.1 = true →
      hasEdge (after (step id) { rest := () } tree) row.1 = true := by
    decide +kernel
  exact fun blob_id content member isLinked => guarded (blob_id,content) member isLinked

end MyCursor.StatisticsStorage
