import MyCursor.CheckpointCodec
import MyCursor.ModelCycle

/-!
# The events of providers

What the adapters for the providers share: an event of a response has a name and
a text, and may report an error instead of content.
-/
namespace MyCursor.ProviderEvents
open Message Store Run ModelCycle

/-- What the response yields next: an event, a failure, or the cancellation. -/
inductive Source where
  | Event (event data : String)
  | Failed (error : Error)
  | Cancelled
deriving DecidableEq

def stringOf (value : Value) (name : String) : Option String := (Json.get value name).bind Json.as_str

/-- `provider/mod.rs`: the error that an event reports. -/
def provider_event_error (label : String) (value : Value) : Option Error :=
  let direct_error := (Json.get value "error").filter (· ≠ .Null)
  let failed := stringOf value "type" = some "error" || stringOf value "type" = some "response.failed"
  if !failed && direct_error.isNone then none
  else
    let message := (((((stringOf value "message").or
      ((Json.pointer value ["error","message"]).bind Json.as_str)).or
      ((Json.pointer value ["response","error","message"]).bind Json.as_str)).or
      (direct_error.bind Json.as_str)).or
      ((Json.pointer value ["response","error"]).bind Json.as_str)).getD "provider returned an error event without a message"
    some (.Provider s!"{label} error: {message}")

end MyCursor.ProviderEvents
