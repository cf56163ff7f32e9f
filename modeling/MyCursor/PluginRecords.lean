import Mathlib.Data.List.Permutation
import MyCursor.Error
import MyCursor.Message
import MyCursor.Text
import MyCursor.Updates

/-!
# Resources and models of plugins

`PluginStateStore` of `plugin/state.rs` over the files of `plugin/data.rs`. Each
operation reads its whole file, changes the records and writes them back; the lock
of the data store is held for the read and for the write, not between them.
-/
namespace MyCursor.PluginRecords
open Message Text
open Transitions Updates

inductive ResourceState where
  | Ready
  | Cooling (retry_at_ms : Option Int) (message : Option String)
  | Invalid (message : Option String)
deriving DecidableEq

structure ResourceRecord where
  id : String
  key : String
  private_data : Value
  state : ResourceState
  created_at_ms : Int
  updated_at_ms : Int
deriving DecidableEq

structure ResourceDraft where
  key : String
  private_data : Value
  state : Option ResourceState
deriving DecidableEq

structure ResourcePatch where
  private_data : Option Value
  state : Option ResourceState
deriving DecidableEq

structure StoredModel where
  id : String
  display_name : String
  description : Option String
  max_output_tokens : Option Nat
  images : Bool
  enabled : Bool
  private_data : Value
deriving DecidableEq

inductive File (α : Type) where
  | Missing
  | Malformed (error : String)
  | Records (records : List α)
deriving DecidableEq

/-- `resources` and `models`. -/
def File.read {α : Type} : File α → Except Error (List α)
  | .Missing => .ok []
  | .Malformed error => .error (.Json error)
  | .Records records => .ok records

structure UpsertOutcome where
  added : Nat
  updated : Nat
deriving DecidableEq

def changeFirst {α : Type} (found : α → Bool) (change : α → α) : List α → List α
  | [] => []
  | record :: rest => if found record then change record :: rest else record :: changeFirst found change rest

def upsertDrafts (now : Int) (records : List ResourceRecord) (outcome : UpsertOutcome) :
    List (ResourceDraft × String) → Except Error (List ResourceRecord × UpsertOutcome)
  | [] => .ok (records,outcome)
  | (draft,id) :: rest =>
    if trim draft.key = "" then .error (.Protocol "plugin resource draft requires key")
    else
      let state := draft.state.getD .Ready
      if records.any (·.key = draft.key) then
        upsertDrafts now (changeFirst (·.key = draft.key)
            (fun existing => { existing with private_data := draft.private_data, state, updated_at_ms := now }) records)
          { outcome with updated := outcome.updated + 1 } rest
      else
        upsertDrafts now (records ++ [⟨id,draft.key,draft.private_data,state,now,now⟩])
          { outcome with added := outcome.added + 1 } rest
def upsert_resources (records : List ResourceRecord) (drafts : List (ResourceDraft × String)) (now : Int) :
    Except Error (List ResourceRecord × UpsertOutcome) :=
  upsertDrafts now records ⟨0,0⟩ drafts

def apply_patch (records : List ResourceRecord) (resource_id : String) (patch : ResourcePatch) (now : Int) :
    Except Error (List ResourceRecord) :=
  if records.any (·.id = resource_id) then
    .ok (changeFirst (·.id = resource_id)
      (fun record => { record with
        private_data := patch.private_data.getD record.private_data
        state := patch.state.getD record.state
        updated_at_ms := now }) records)
  else .error (.RunNotFound s!"plugin resource {resource_id}")

def remove_resource (records : List ResourceRecord) (resource_id : String) : Except Error (List ResourceRecord × ResourceRecord) :=
  match records.find? (·.id = resource_id) with
  | none => .error (.RunNotFound s!"plugin resource {resource_id}")
  | some removed => .ok (records.eraseP (·.id = resource_id),removed)

def replace_models (previous models : List StoredModel) : List StoredModel :=
  models.map fun model =>
    match previous.find? (·.id = model.id) with
    | none => model
    | some old => { model with enabled := old.enabled }

def set_model_enabled (models : List StoredModel) (model_id : String) (enabled : Bool) : Except Error (List StoredModel) :=
  if models.any (·.id = model_id) then .ok (changeFirst (·.id = model_id) (fun model => { model with enabled }) models)
  else .error (.RunNotFound s!"plugin model {model_id}")

/-- The file of a resource type and that of a provider. -/
inductive DataFile where
  | Resources
  | Models
deriving DecidableEq

def Content : DataFile → Type
  | .Resources => File ResourceRecord
  | .Models => File StoredModel
instance : ∀ file, DecidableEq (Content file)
  | .Resources => inferInstanceAs (DecidableEq (File ResourceRecord))
  | .Models => inferInstanceAs (DecidableEq (File StoredModel))

inductive Operation where
  | UpsertResources (drafts : List (ResourceDraft × String)) (now : Int)
  | ApplyPatch (resource_id : String) (patch : ResourcePatch) (now : Int)
  | RemoveResource (resource_id : String)
  | ReplaceModels (models : List StoredModel)
  | SetModelEnabled (model_id : String) (enabled : Bool)
deriving DecidableEq

def Operation.file : Operation → DataFile
  | .UpsertResources _ _ | .ApplyPatch _ _ _ | .RemoveResource _ => .Resources
  | .ReplaceModels _ | .SetModelEnabled _ _ => .Models

def Operation.change : (op : Operation) → Content op.file → Except Error (Content op.file)
  | .UpsertResources drafts now => fun content =>
    ((File.read content).bind (upsert_resources · drafts now)).map (File.Records ·.1)
  | .ApplyPatch resource_id patch now => fun content =>
    ((File.read content).bind (apply_patch · resource_id patch now)).map File.Records
  | .RemoveResource resource_id => fun content =>
    ((File.read content).bind (remove_resource · resource_id)).map (File.Records ·.1)
  | .ReplaceModels models => fun content => (File.read content).map fun previous => File.Records (replace_models previous models)
  | .SetModelEnabled model_id enabled => fun content =>
    ((File.read content).bind (set_model_enabled · model_id enabled)).map File.Records

/-- Where no write comes between the read and the write of another operation on the
    same file, the files are as if the operations had not overlapped. -/
theorem updates_serial (initial : (file : DataFile) → Content file) (actions : List (Action Operation Error))
    (meets : Meets (step Operation.change) Untouched { store := initial } actions) :
    Serial Operation.change initial (after (step Operation.change) { store := initial } actions) :=
  serial_of_untouched meets

def account (id token : String) : ResourceRecord :=
  { id, key := id, private_data := .String token, state := .Ready, created_at_ms := 0, updated_at_ms := 0 }
def accounts : (file : DataFile) → Content file
  | .Resources => File.Records [account "1" "old",account "2" "old"]
  | .Models => File.Missing
def refresh (id : String) : Operation := .ApplyPatch id ⟨some (.String "new"),none⟩ 0
def overlapping : List (Action Operation Error) :=
  [.read 0 (refresh "1") none,.read 1 (refresh "2") none,.write 0 none,.write 1 none]
def oneByOne : List (Action Operation Error) :=
  [.read 0 (refresh "1") none,.write 0 none,.read 1 (refresh "2") none,.write 1 none]

/-- Both tokens are answered with success, and the first is lost. -/
theorem token_lost : (after (step Operation.change) { store := accounts } overlapping).committed = [refresh "1",refresh "2"] ∧
      (after (step Operation.change) { store := accounts } overlapping).store .Resources =
        File.Records [account "1" "old",account "2" "new"] ∧
      ¬ Serial Operation.change accounts (after (step Operation.change) { store := accounts } overlapping) := by
  have committed : (after (step Operation.change) { store := accounts } overlapping).committed = [refresh "1",refresh "2"] := by
    decide +kernel
  have stored : (after (step Operation.change) { store := accounts } overlapping).store .Resources =
      File.Records [account "1" "old",account "2" "new"] := by
    rfl
  refine ⟨committed,stored,?_⟩
  rintro ⟨order,perm,serial⟩
  rw [committed] at perm
  have isOrder : order ∈ [[refresh "1",refresh "2"],[refresh "2",refresh "1"]] := List.mem_pair.mpr (List.perm_pair.mp perm)
  have found := congrArg (Option.map fun store => store DataFile.Resources) serial
  rw [Option.map_some,stored] at found
  have both : ∀ order ∈ [[refresh "1",refresh "2"],[refresh "2",refresh "1"]],
      ((serially Operation.change accounts order).map fun store => store DataFile.Resources) =
        some (File.Records [account "1" "new",account "2" "new"]) := by
    intro order isOrder
    rcases List.mem_pair.mp isOrder with rfl | rfl <;> rfl
  rw [both order isOrder] at found
  revert found
  show ¬ (some (File.Records [account "1" "new",account "2" "new"]) = some (File.Records [account "1" "old",account "2" "new"]))
  decide

theorem updates_serial_oneByOne : Serial Operation.change accounts (after (step Operation.change) { store := accounts } oneByOne) :=
  updates_serial accounts oneByOne (by decide +kernel)

end MyCursor.PluginRecords
