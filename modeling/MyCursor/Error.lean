/-!
# Errors

The server-wide error type of `error.rs`. Errors of other crates are kept by
their rendered text.
-/
namespace MyCursor

inductive Error where
  | Config (message : String)
  | Protocol (message : String)
  | Provider (message : String)
  | Store (message : String)
  | Cancelled
  | RunNotFound (run_id : String)
  | Database (message : String)
  | Migration (message : String)
  | MigrationTimeout (stage : String) (timeout_seconds : Nat)
  | Http (message : String)
  | Decode (message : String)
  | Encode (message : String)
  | Json (message : String)
  | Io (message : String)
deriving DecidableEq

/-- The texts of `Display`. -/
def Error.to_string : Error → String
  | .Config message => s!"configuration error: {message}"
  | .Protocol message => s!"protocol error: {message}"
  | .Provider message => s!"provider error: {message}"
  | .Store message => s!"store error: {message}"
  | .Cancelled => "run was cancelled"
  | .RunNotFound run_id => s!"run not found: {run_id}"
  | .Database message => s!"database error: {message}"
  | .Migration message => s!"database migration error: {message}"
  | .MigrationTimeout stage timeout_seconds =>
    s!"database migration stage '{stage}' timed out after {timeout_seconds} seconds; " ++ "close other My Cursor processes and try again"
  | .Http message => s!"http error: {message}"
  | .Decode message => s!"protobuf decode error: {message}"
  | .Encode message => s!"protobuf encode error: {message}"
  | .Json message => s!"json error: {message}"
  | .Io message => s!"io error: {message}"

end MyCursor
