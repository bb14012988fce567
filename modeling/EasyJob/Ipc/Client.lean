import Mathlib.Data.List.Basic

/-!
# The IPC client

Model of the result of `IpcClient::call_timeout` (`crates/ipc/src/client.rs`
lines 128–174) for each way in which the wait for a response can end, with the
error type of `crates/common/src/error.rs` and the response of
`crates/ipc/src/protocol.rs`.
-/

namespace EasyJob.Ipc

/-- A `serde_json::Value` is its serialised text: no function of the model looks
    inside one. -/
abbrev Value := String

def Value.null : Value := "null"

/-! ## Errors and responses -/

/-- `easyjob_common::Error`. The inner errors of `Serialization` and `Io` are their
    texts. -/
inductive Error
  | Validation (msg : String)
  | NotFound (msg : String)
  | Process (msg : String)
  | Scheduler (msg : String)
  | Database (msg : String)
  | Serialization (msg : String)
  | Io (msg : String)
  | Other (msg : String)
  deriving DecidableEq, Repr

/-- `Display` of an error. -/
def Error.toString : Error → String
  | .Validation msg => "Validation error: " ++ msg
  | .NotFound msg => "Not found: " ++ msg
  | .Process msg => "Process execution error: " ++ msg
  | .Scheduler msg => "Scheduler error: " ++ msg
  | .Database msg => "Database error: " ++ msg
  | .Serialization msg => "Serialization error: " ++ msg
  | .Io msg => "IO error: " ++ msg
  | .Other msg => "Unknown error: " ++ msg

/-- `IpcResponse`; its `id` has already been matched with the request. -/
structure IpcResponse where
  ok : Bool
  data : Option Value
  error : Option String
  deriving DecidableEq, Repr

/-! ## Results of a call -/

/-- How one `call` on a connected client ends. -/
inductive Outcome
  /-- `req_tx.send` fails: the writer is gone. -/
  | sendFailed
  /-- The response arrives. -/
  | response (resp : IpcResponse)
  /-- The sender of the response channel is dropped: the reader is gone. -/
  | channelClosed
  /-- No response within the timeout. -/
  | timedOut
  deriving DecidableEq, Repr

/-- Model of the end of `call_timeout` (lines 147–173) as called by `call`, with a
    timeout of 30 s. Both channel errors of tokio print as "channel closed". -/
def callResult : Outcome → Except Error Value
  | .sendFailed => .error (.Other ("Failed to send IPC request: " ++ "channel closed"))
  | .response resp =>
    if resp.ok then .ok (resp.data.getD Value.null)
    else .error (.Other (resp.error.getD "IPC error"))
  | .channelClosed => .error (.Other ("IPC response channel closed: " ++ "channel closed"))
  | .timedOut => .error (.Other ("IPC request timed out after " ++ "30s"))

end EasyJob.Ipc
