import EasyJob.Ipc.Client
import EasyJob.Lib.Json

/-!
# The frames of the protocol

Model of `IpcRequest`, `IpcResponse` and `IpcEvent`
(`crates/ipc/src/protocol.rs` lines 4–62) as JSON documents: what is written for
them and what the derived `Deserialize` accepts, from an object or from an array
of all fields. `IpcClient` reads each line as a response first and then as an
event (`client.rs` lines 82–91).

* `parseResponse_event`: an event is never read as a response.
* `parseResponse_toJson`: a response is read as it was written.
-/

namespace EasyJob.Ipc

/-- The text of a document as a `Value`. -/
def Value.ofJson (j : Json) : Value := String.ofList j.render

/-! ## Events -/

structure IpcEvent where
  event : String
  data : Json

def IpcEvent.toJson (e : IpcEvent) : Json := .obj [("event", .str e.event), ("data", e.data)]

def parseEvent : Json → Option IpcEvent
  | .obj members => do
    let event ← (← Json.required "event" members).toString?
    let data ← Json.required "data" members
    some ⟨event, data⟩
  | .arr [event, data] => do
    let event ← event.toString?
    some ⟨event, data⟩
  | _ => none

theorem parseEvent_toJson (e : IpcEvent) : parseEvent e.toJson = some e := by
  simp [parseEvent, IpcEvent.toJson, Json.required, Json.field]

/-! ## Responses -/

/-- `IpcResponse` with its `id` and with its `data` as a document. -/
def responseToJson (id : String) (ok : Bool) (data : Option Json) (error : Option String) : Json :=
  .obj [("id", .str id), ("ok", .bool ok), ("data", data.getD .null),
    ("error", (error.map Json.str).getD .null)]

/-- The optional `error` of a response. -/
def parseError : Option Json → Option (Option String)
  | none => some none
  | some j => j.toString?.map some

/-- The response in a frame, with its `id`. -/
def parseResponse : Json → Option (String × IpcResponse)
  | .obj members => do
    let id ← (← Json.required "id" members).toString?
    let ok ← (← Json.required "ok" members).toBool?
    let data ← Json.optional "data" members
    let error ← parseError (← Json.optional "error" members)
    some (id, ⟨ok, data.map Value.ofJson, error⟩)
  | .arr [id, ok, data, error] => do
    let id ← id.toString?
    let ok ← ok.toBool?
    let data ← Json.optional "data" [("data", data)]
    let error ← parseError (← Json.optional "error" [("error", error)])
    some (id, ⟨ok, data.map Value.ofJson, error⟩)
  | _ => none

/-- What the agent writes for an event has no `id` and no `ok`. -/
theorem parseResponse_event (e : IpcEvent) : parseResponse e.toJson = none := by
  simp [parseResponse, IpcEvent.toJson, Json.required, Json.field]

/-- A response is read as it was written; `null` as data is the same as none. -/
theorem parseResponse_toJson (id : String) (ok : Bool) (data : Json) (hdata : data ≠ .null)
    (error : Option String) :
    parseResponse (responseToJson id ok (some data) error) =
      some (id, ⟨ok, some (Value.ofJson data), error⟩) := by
  cases error <;> cases data <;>
    simp_all [parseResponse, responseToJson, Json.required, Json.optional, Json.field, parseError]

end EasyJob.Ipc
