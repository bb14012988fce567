import EasyJob.Ipc.Protocol
import EasyJob.Lib.Transition
import Mathlib.Data.List.Nodup

/-!
# Requests and responses on one connection

Model of `IpcClient` (`crates/ipc/src/client.rs` lines 36–174): any number of
concurrent `call_timeout` calls, the writer, the reader with its map of pending
responses, and a server that may send any line at any time. Lines are JSON
documents or something else; a call keeps the number of the line that carried
its response.

* `correlation`: each call returns the response of a line with its own id or a
  local error, no line is delivered to two calls, no event is delivered, and the
  map is empty once all calls have returned.
* `call_can_return`: from every state each call can still return.
-/

namespace EasyJob.Ipc

open Transition

/-! ## States -/

structure IpcRequest where
  id : String
  method : String
  params : Value
  deriving DecidableEq, Repr

/-- Model of the end of `call_timeout` (lines 147–173) for any timeout, given by its
    `Debug` text. -/
def callTimeoutResult (timeout : String) : Outcome → Except Error Value
  | .timedOut => .error (.Other ("IPC request timed out after " ++ timeout))
  | outcome => callResult outcome

/-- The `oneshot` channel of a call. -/
inductive OneshotState
  | empty
  /-- The response of line `line`. -/
  | value (line : ℕ) (resp : IpcResponse)
  /-- The sender was dropped. -/
  | closed
  deriving DecidableEq, Repr

inductive CallStage
  /-- Before lines 139–142. -/
  | created
  /-- In `req_tx.send` (line 144). -/
  | registered
  /-- Waits for the response (line 150). -/
  | awaiting
  /-- Before `map.remove` on one of the error paths; the receiver is dropped, or will
      not be used any more. -/
  | removing (outcome : Outcome)
  | returned (outcome : Outcome)
  deriving DecidableEq, Repr

structure PendingCall where
  req : IpcRequest
  timeout : String
  channel : OneshotState
  stage : CallStage
  deriving DecidableEq, Repr

inductive ReaderStage
  | reading
  /-- A response was parsed from this line; before lines 83–86. -/
  | delivering (line : ℕ) (id : String) (resp : IpcResponse)
  /-- Before line 102. -/
  | cancelling
  /-- Before lines 103–104. -/
  | clearing
  | stopped
  deriving DecidableEq, Repr

inductive WriterStage
  | running
  /-- Before line 70. -/
  | cancelling
  /-- `req_rx` is dropped. -/
  | stopped
  deriving DecidableEq, Repr

structure Connection where
  calls : List PendingCall
  /-- `pending_responses`: the ids with the call whose sender is stored. -/
  pending : List (String × ℕ)
  /-- The requests in the channel. -/
  queue : List IpcRequest
  /-- The lines read so far, where they are JSON. -/
  lines : List (Option Json)
  reader : ReaderStage
  writer : WriterStage
  /-- `cancel_token`. -/
  cancelled : Bool

/-! ## Steps -/

/-- The capacity of line 39. -/
def requestCapacity : ℕ := 256

def Connection.modifyCall (s : Connection) (i : ℕ) (f : PendingCall → PendingCall) : Connection :=
  { s with calls := s.calls.modify i f }

def Connection.setStage (s : Connection) (i : ℕ) (stage : CallStage) : Connection :=
  s.modifyCall i fun c => { c with stage := stage }

/-- The entries with such keys leave the map and their senders are dropped. -/
def Connection.dropSenders (s : Connection) (p : String → Bool) : Connection :=
  { s with
    pending := s.pending.filter fun e => !p e.1
    calls := s.calls.mapIdx fun i c =>
      if s.pending.any fun e => p e.1 && e.2 == i then { c with channel := .closed } else c }

/-- `map.insert` (line 141) of the sender of call `i`. -/
def Connection.insertPending (s : Connection) (id : String) (i : ℕ) : Connection :=
  let s := s.dropSenders (· = id)
  { s with pending := s.pending ++ [(id, i)] }

/-- `ch.send(resp)` (line 85): the response is lost if the call does not listen any more. -/
def PendingCall.receive (line : ℕ) (resp : IpcResponse) (c : PendingCall) : PendingCall :=
  match c.stage with
  | .registered | .awaiting => { c with channel := .value line resp }
  | _ => c

/-- Lines 83–86. -/
def Connection.deliver (s : Connection) (line : ℕ) (id : String) (resp : IpcResponse) :
    Connection :=
  match s.pending.find? (·.1 = id) with
  | some e =>
    { s with pending := s.pending.filter (·.1 ≠ id) }.modifyCall e.2 (PendingCall.receive line resp)
  | none => s

inductive ClientAction
  /-- `call_timeout` is called. -/
  | call (req : IpcRequest) (timeout : String)
  /-- Call `i` registers (lines 139–142). -/
  | register (i : ℕ)
  /-- `req_tx.send` of call `i` returns. -/
  | send (i : ℕ)
  /-- The wait of call `i` ends with what is in its channel. -/
  | receive (i : ℕ)
  /-- The wait of call `i` ends without anything in its channel. -/
  | timeout (i : ℕ)
  /-- Call `i` removes its id and returns its error. -/
  | remove (i : ℕ)
  /-- The reader gets a line, and its document if it is JSON. -/
  | read (line : Option Json)
  | deliver
  /-- The reader leaves its loop: at the end or an error of the stream, or on the token. -/
  | stopReading (byToken : Bool)
  | cancelReading
  | clear
  /-- `sink.send` of the next request returns. -/
  | write (ok : Bool)
  /-- The writer leaves its loop without writing. -/
  | stopWriting
  | cancelWriting

/-- One step of a call, of the reader or of the writer. -/
def clientStep (s : Connection) (a : ClientAction) : Option (Connection × List IpcEvent) :=
  match a with
  | .call req timeout =>
    some ({ s with calls := s.calls ++ [⟨req, timeout, .empty, .created⟩] }, [])
  | .register i =>
    match s.calls[i]? with
    | some ⟨req, _, _, .created⟩ =>
      some ((s.insertPending req.id i).setStage i .registered, [])
    | _ => none
  | .send i =>
    match s.calls[i]?, s.writer with
    | some ⟨_, _, _, .registered⟩, .stopped => some (s.setStage i (.removing .sendFailed), [])
    | some ⟨req, _, _, .registered⟩, _ =>
      if s.queue.length < requestCapacity then
        some ({ s with queue := s.queue ++ [req] }.setStage i .awaiting, [])
      else none
    | _, _ => none
  | .receive i =>
    match s.calls[i]? with
    | some ⟨_, _, .value _ resp, .awaiting⟩ => some (s.setStage i (.returned (.response resp)), [])
    | some ⟨_, _, .closed, .awaiting⟩ => some (s.setStage i (.removing .channelClosed), [])
    | _ => none
  | .timeout i =>
    match s.calls[i]? with
    | some ⟨_, _, .empty, .awaiting⟩ => some (s.setStage i (.removing .timedOut), [])
    | _ => none
  | .remove i =>
    match s.calls[i]? with
    | some ⟨req, _, _, .removing outcome⟩ =>
      some ((s.dropSenders (· = req.id)).setStage i (.returned outcome), [])
    | _ => none
  | .read line =>
    if s.reader = .reading then
      let t := { s with lines := s.lines ++ [line] }
      match line.bind parseResponse, line.bind parseEvent with
      | some (id, resp), _ => some ({ t with reader := .delivering s.lines.length id resp }, [])
      | none, some event => some (t, [event])
      | none, none => some (t, [])
    else none
  | .deliver =>
    match s.reader with
    | .delivering line id resp => some ({ s.deliver line id resp with reader := .reading }, [])
    | _ => none
  | .stopReading byToken =>
    if s.reader = .reading ∧ (byToken → s.cancelled) then
      some ({ s with reader := .cancelling }, [])
    else none
  | .cancelReading =>
    if s.reader = .cancelling then some ({ s with reader := .clearing, cancelled := true }, [])
    else none
  | .clear =>
    if s.reader = .clearing then
      some ({ s.dropSenders (fun _ => true) with reader := .stopped }, [])
    else none
  | .write ok =>
    match s.queue with
    | _ :: queue =>
      if s.writer = .running then
        some ({ s with queue := queue, writer := if ok then .running else .cancelling }, [])
      else none
    | [] => none
  | .stopWriting =>
    if s.writer = .running then some ({ s with writer := .cancelling }, []) else none
  | .cancelWriting =>
    if s.writer = .cancelling then
      some ({ s with writer := .stopped, queue := [], cancelled := true }, [])
    else none

def client : Machine Connection ClientAction IpcEvent where
  init := ⟨[], [], [], [], .reading, .running, false⟩
  step := clientStep

/-- Request ids are pairwise distinct: a new call has an id that no call has had. -/
def FreshId (s : Connection) (a : ClientAction) : Prop :=
  match a with
  | .call req _ => ∀ c ∈ s.calls, c.req.id ≠ req.id
  | _ => True

/-! ## The invariant -/

/-- The line carries a response with this id. -/
def Carries (lines : List (Option Json)) (line : ℕ) (id : String) (resp : IpcResponse) : Prop :=
  ∃ j, lines[line]? = some (some j) ∧ parseResponse j = some (id, resp)

/-- The call has registered and has not returned. -/
def CallStage.Registered : CallStage → Prop
  | .registered | .awaiting | .removing _ => True
  | .created | .returned _ => False

structure CallInv (lines : List (Option Json)) (c : PendingCall) : Prop where
  value : ∀ k resp, c.channel = .value k resp → Carries lines k c.req.id resp
  created : c.stage = .created → c.channel = .empty
  removing : ∀ outcome, c.stage = .removing outcome → ∀ resp, outcome ≠ .response resp
  returned : ∀ resp, c.stage = .returned (.response resp) → ∃ k, c.channel = .value k resp

structure ConnectionInv (s : Connection) : Prop where
  ids : (s.calls.map fun c => c.req.id).Nodup
  keys : (s.pending.map Prod.fst).Nodup
  /-- Whoever is in the map has registered and waits for its channel. -/
  pending : ∀ e ∈ s.pending, ∃ c, s.calls[e.2]? = some c ∧ c.req.id = e.1 ∧
    c.channel = .empty ∧ c.stage.Registered
  calls : ∀ (i : ℕ) (c : PendingCall), s.calls[i]? = some c → CallInv s.lines c
  reader : ∀ k id resp, s.reader = .delivering k id resp → Carries s.lines k id resp

theorem ConnectionInv.init : ConnectionInv client.init where
  ids := List.nodup_nil
  keys := List.nodup_nil
  pending := fun _ he => absurd he List.not_mem_nil
  calls := fun _ _ hc => by cases hc
  reader := fun _ _ _ hr => by cases hr

/-- More lines do not change what the earlier ones carry. -/
theorem Carries.append {lines : List (Option Json)} {k : ℕ} {id : String} {resp : IpcResponse}
    (h : Carries lines k id resp) (line : Option Json) : Carries (lines ++ [line]) k id resp := by
  obtain ⟨j, hj, hparse⟩ := h
  obtain ⟨hlt, -⟩ := List.getElem?_eq_some_iff.mp hj
  exact ⟨j, by rw [List.getElem?_append_left hlt, hj], hparse⟩

theorem CallInv.append {lines : List (Option Json)} {c : PendingCall} (h : CallInv lines c)
    (line : Option Json) : CallInv (lines ++ [line]) c :=
  ⟨fun k resp hv => (h.value k resp hv).append line, h.created, h.removing, h.returned⟩

/-- A call goes on to a later stage. -/
theorem CallInv.setStage {lines : List (Option Json)} {c : PendingCall} (h : CallInv lines c)
    {stage : CallStage} (hcreated : stage ≠ .created)
    (hremoving : ∀ outcome, stage = .removing outcome → ∀ resp, outcome ≠ .response resp)
    (hreturned : ∀ resp, stage = .returned (.response resp) → ∃ k, c.channel = .value k resp) :
    CallInv lines { c with stage := stage } :=
  ⟨h.value, fun heq => absurd heq hcreated, hremoving, hreturned⟩

section Steps

variable {s : Connection}

/-- Two calls with one id are one call. -/
theorem ConnectionInv.call_unique (h : ConnectionInv s) {i j : ℕ} {c d : PendingCall}
    (hc : s.calls[i]? = some c) (hd : s.calls[j]? = some d) (hid : c.req.id = d.req.id) :
    i = j := by
  obtain ⟨hi, hic⟩ := List.getElem?_eq_some_iff.mp hc
  obtain ⟨hj, hjd⟩ := List.getElem?_eq_some_iff.mp hd
  have hi' : i < (s.calls.map fun c => c.req.id).length := by simpa using hi
  have hj' : j < (s.calls.map fun c => c.req.id).length := by simpa using hj
  have hiff : (s.calls.map fun c => c.req.id)[i] = (s.calls.map fun c => c.req.id)[j] ↔ i = j :=
    h.ids.getElem_inj_iff
  apply hiff.mp
  simpa [hic, hjd] using hid

/-- One call changes, without changing its request. -/
theorem ConnectionInv.modifyCall (h : ConnectionInv s) {i : ℕ} {c : PendingCall}
    (hget : s.calls[i]? = some c) {f : PendingCall → PendingCall} (hreq : ∀ c, (f c).req = c.req)
    (hcall : CallInv s.lines (f c))
    (hpending : ∀ e ∈ s.pending, e.2 = i → (f c).channel = .empty ∧ (f c).stage.Registered) :
    ConnectionInv (s.modifyCall i f) := by
  refine ⟨?_, h.keys, ?_, ?_, h.reader⟩
  · have hids : (s.calls.modify i f).map (fun c => c.req.id) = s.calls.map fun c => c.req.id := by
      apply List.ext_getElem?
      intro j
      rw [List.getElem?_map, List.getElem?_map, List.getElem?_modify]
      cases s.calls[j]? with
      | none => rfl
      | some d =>
        by_cases hij : i = j
        · simp [hij, hreq]
        · simp [hij]
    show ((s.calls.modify i f).map fun c => c.req.id).Nodup
    rw [hids]
    exact h.ids
  · intro e he
    obtain ⟨d, hd, hid, hch, hreg⟩ := h.pending e he
    show ∃ c, (s.calls.modify i f)[e.2]? = some c ∧ _
    rw [List.getElem?_modify, hd]
    by_cases hi : i = e.2
    · rw [← hi, hget] at hd
      cases hd
      obtain ⟨hch', hreg'⟩ := hpending e he hi.symm
      exact ⟨f c, by simp [hi], by rw [hreq, hid], hch', hreg'⟩
    · exact ⟨d, by simp [hi], hid, hch, hreg⟩
  · intro j d hd
    rw [Connection.modifyCall, List.getElem?_modify] at hd
    cases hj : s.calls[j]? with
    | none => simp [hj] at hd
    | some d' =>
      rw [hj] at hd
      by_cases hi : i = j
      · rw [← hi, hget] at hj
        cases hj
        obtain rfl : f c = d := by simpa [hi] using hd
        exact hcall
      · obtain rfl : d' = d := by simpa [hi] using hd
        exact h.calls j d' hj

/-- Entries leave the map and their channels are closed. -/
theorem ConnectionInv.dropSenders (h : ConnectionInv s) (p : String → Bool) :
    ConnectionInv (s.dropSenders p) := by
  have hget (i : ℕ) : (s.dropSenders p).calls[i]? = s.calls[i]?.map fun c =>
      if s.pending.any fun e => p e.1 && e.2 == i then { c with channel := .closed } else c :=
    List.getElem?_mapIdx
  refine ⟨?_, h.keys.sublist (List.filter_sublist.map _), ?_, ?_, h.reader⟩
  · have hids : (s.dropSenders p).calls.map (fun c => c.req.id) =
        s.calls.map fun c => c.req.id := by
      apply List.ext_getElem?
      intro i
      rw [List.getElem?_map, List.getElem?_map, hget, Option.map_map]
      congr 1
      funext c
      show (if _ then _ else _ : PendingCall).req.id = _
      split_ifs <;> rfl
    rw [hids]
    exact h.ids
  · intro e he
    obtain ⟨he, hp⟩ := List.mem_filter.mp he
    obtain ⟨c, hc, hid, hch, hreg⟩ := h.pending e he
    -- An entry that leaves is not the one of this call: it has another key.
    have hother : (s.pending.any fun e' => p e'.1 && e'.2 == e.2) = false := by
      rw [List.any_eq_false]
      intro e' he' hdrop
      obtain ⟨hp', hi⟩ : p e'.1 = true ∧ e'.2 = e.2 := by simpa using hdrop
      obtain ⟨c', hc', hid', -⟩ := h.pending e' he'
      rw [hi, hc] at hc'
      cases hc'
      rw [← hid', hid] at hp'
      simp [hp'] at hp
    exact ⟨c, by rw [hget, hc, Option.map_some, hother]; rfl, hid, hch, hreg⟩
  · intro i c hc
    rw [hget] at hc
    obtain ⟨d, hd, rfl⟩ := Option.map_eq_some_iff.mp hc
    have hinv := h.calls i d hd
    split_ifs with hdrop
    · obtain ⟨e, he, hpe⟩ := List.any_eq_true.mp hdrop
      obtain ⟨-, rfl⟩ : p e.1 = true ∧ e.2 = i := by simpa using hpe
      obtain ⟨d', hd', -, -, hreg⟩ := h.pending e he
      rw [hd] at hd'
      cases hd'
      refine ⟨?_, ?_, hinv.removing, ?_⟩
      · intro k resp hv
        cases hv
      · intro hcreated
        rw [hcreated] at hreg
        exact hreg.elim
      · intro resp hret
        rw [hret] at hreg
        exact hreg.elim
    · exact hinv

/-- A stage change of one call. -/
theorem ConnectionInv.setStage (h : ConnectionInv s) {i : ℕ} {c : PendingCall}
    (hget : s.calls[i]? = some c) {stage : CallStage}
    (hcall : CallInv s.lines { c with stage := stage })
    (hpending : ∀ e ∈ s.pending, e.2 = i → stage.Registered) :
    ConnectionInv (s.setStage i stage) := by
  apply h.modifyCall (f := fun c => { c with stage := stage }) hget (fun _ => rfl) hcall
  intro e he hi
  obtain ⟨d, hd, -, hch, -⟩ := h.pending e he
  rw [hi, hget] at hd
  cases hd
  exact ⟨hch, hpending e he hi⟩

/-- A call gives up with a local error; its id stays in the map until it removes it. -/
theorem ConnectionInv.giveUp (h : ConnectionInv s) {i : ℕ} {c : PendingCall}
    (hget : s.calls[i]? = some c) {outcome : Outcome} (hlocal : ∀ resp, outcome ≠ .response resp) :
    ConnectionInv (s.setStage i (.removing outcome)) := by
  apply h.setStage hget
  · apply (h.calls i c hget).setStage (by simp)
    · intro o heq
      cases heq
      exact hlocal
    · intro resp heq
      cases heq
  · exact fun _ _ _ => trivial

/-- A call whose stage or channel differs from theirs is not in the map. -/
theorem ConnectionInv.not_pending (h : ConnectionInv s) {i : ℕ} {c : PendingCall}
    (hget : s.calls[i]? = some c) (hc : c.channel = .empty → ¬c.stage.Registered) :
    ∀ e ∈ s.pending, e.2 ≠ i := by
  intro e he hi
  obtain ⟨d, hd, -, hch, hreg⟩ := h.pending e he
  rw [hi, hget] at hd
  cases hd
  exact hc hch hreg

/-- A call enters the map. -/
theorem ConnectionInv.addPending (h : ConnectionInv s) {i : ℕ} {c : PendingCall}
    (hget : s.calls[i]? = some c) (hch : c.channel = .empty) (hreg : c.stage.Registered)
    (hkey : ∀ e ∈ s.pending, e.1 ≠ c.req.id) :
    ConnectionInv { s with pending := s.pending ++ [(c.req.id, i)] } := by
  refine ⟨h.ids, ?_, ?_, h.calls, h.reader⟩
  · show ((s.pending ++ [(c.req.id, i)]).map Prod.fst).Nodup
    rw [List.map_append, List.nodup_append]
    refine ⟨h.keys, List.nodup_singleton _, ?_⟩
    intro k hk k' hk' heq
    obtain ⟨e, he, rfl⟩ := List.mem_map.mp hk
    exact hkey e he (heq.trans (List.mem_singleton.mp hk'))
  · intro e he
    rcases List.mem_append.mp he with he | he
    · exact h.pending e he
    · rw [List.mem_singleton.mp he]
      exact ⟨c, hget, rfl, hch, hreg⟩

/-- A new call registers (lines 139–142). -/
theorem ConnectionInv.register (h : ConnectionInv s) {i : ℕ} {c : PendingCall}
    (hget : s.calls[i]? = some c) (hcreated : c.stage = .created) :
    ConnectionInv ((s.insertPending c.req.id i).setStage i .registered) := by
  have hdrop := h.dropSenders (· = c.req.id)
  obtain ⟨d, hd, hreq, hstage⟩ : ∃ d, (s.dropSenders (· = c.req.id)).calls[i]? = some d ∧
      d.req = c.req ∧ d.stage = c.stage := by
    refine ⟨_, by rw [Connection.dropSenders, List.getElem?_mapIdx, hget]; rfl, ?_, ?_⟩
    all_goals split_ifs <;> rfl
  have hcall := hdrop.calls i d hd
  have hempty := hcall.created (hstage.trans hcreated)
  have hset : ConnectionInv ((s.dropSenders (· = c.req.id)).setStage i .registered) :=
    hdrop.setStage hd (hcall.setStage (by simp) (by simp) (by simp)) fun _ _ _ => trivial
  have hd' : ((s.dropSenders (· = c.req.id)).setStage i .registered).calls[i]? =
      some { d with stage := .registered } := by
    rw [Connection.setStage, Connection.modifyCall, List.getElem?_modify, hd]
    simp
  have hkey : ∀ e ∈ (s.dropSenders (· = c.req.id)).pending, e.1 ≠ d.req.id := by
    intro e he
    rw [hreq]
    simpa using (List.mem_filter.mp he).2
  have hadd := hset.addPending hd' hempty trivial hkey
  rw [hreq] at hadd
  exact hadd

/-- A call with an error leaves the map and returns (lines 145–147, 161–163 and 166–171). -/
theorem ConnectionInv.remove (h : ConnectionInv s) {i : ℕ} {c : PendingCall} {outcome : Outcome}
    (hget : s.calls[i]? = some c) (hremoving : c.stage = .removing outcome) :
    ConnectionInv ((s.dropSenders (· = c.req.id)).setStage i (.returned outcome)) := by
  have hdrop := h.dropSenders (· = c.req.id)
  obtain ⟨d, hd⟩ : ∃ d, (s.dropSenders (· = c.req.id)).calls[i]? = some d :=
    ⟨_, by rw [Connection.dropSenders, List.getElem?_mapIdx, hget]; rfl⟩
  have hno := (h.calls i c hget).removing outcome hremoving
  apply hdrop.setStage hd
  · apply (hdrop.calls i d hd).setStage (by simp) (by simp)
    intro resp heq
    exact absurd (CallStage.returned.inj heq) (hno resp)
  · intro e he hi
    obtain ⟨he, hkey⟩ := List.mem_filter.mp he
    obtain ⟨c', hc', hid, -⟩ := h.pending e he
    rw [hi, hget] at hc'
    cases hc'
    exact absurd hid.symm (by simpa using hkey)

/-- A line arrives, and the reader perhaps takes a response from it. -/
theorem ConnectionInv.read (h : ConnectionInv s) (line : Option Json) {reader : ReaderStage}
    (hreader : ∀ k id resp, reader = .delivering k id resp →
      Carries (s.lines ++ [line]) k id resp) :
    ConnectionInv { s with lines := s.lines ++ [line], reader := reader } :=
  ⟨h.ids, h.keys, h.pending, fun i c hc => (h.calls i c hc).append line, hreader⟩

/-- What a call gets is a response to it. -/
theorem CallInv.receive {lines : List (Option Json)} {c : PendingCall} (h : CallInv lines c)
    {line : ℕ} {resp : IpcResponse} (hline : Carries lines line c.req.id resp) :
    CallInv lines (c.receive line resp) := by
  have hvalue : ∀ k r, OneshotState.value line resp = .value k r → Carries lines k c.req.id r := by
    intro k r heq
    cases heq
    exact hline
  unfold PendingCall.receive
  split
  · rename_i hstage
    exact ⟨hvalue, by simp [hstage], by simp [hstage], by simp [hstage]⟩
  · rename_i hstage
    exact ⟨hvalue, by simp [hstage], by simp [hstage], by simp [hstage]⟩
  · exact h

/-- The reader hands a response over (lines 83–86). -/
theorem ConnectionInv.deliver (h : ConnectionInv s) {line : ℕ} {id : String} {resp : IpcResponse}
    (hline : Carries s.lines line id resp) : ConnectionInv (s.deliver line id resp) := by
  unfold Connection.deliver
  split
  · rename_i e hfind
    obtain rfl : e.1 = id := by simpa using List.find?_some hfind
    have hrest : ConnectionInv { s with pending := s.pending.filter (·.1 ≠ e.1) } :=
      ⟨h.ids, h.keys.sublist (List.filter_sublist.map _),
        fun e' he' => h.pending e' (List.mem_filter.mp he').1, h.calls, h.reader⟩
    obtain ⟨c, hc, hid, -⟩ := h.pending e (List.mem_of_find?_eq_some hfind)
    apply hrest.modifyCall (c := c) hc
    · intro d
      unfold PendingCall.receive
      split <;> rfl
    · exact (h.calls e.2 c hc).receive (hid ▸ hline)
    · intro e' he' hi
      obtain ⟨he', hkey⟩ := List.mem_filter.mp he'
      obtain ⟨c', hc', hid', -⟩ := h.pending e' he'
      rw [hi, hc] at hc'
      cases hc'
      exact absurd (hid'.symm.trans hid) (by simpa using hkey)
  · exact h

/-- A call begins, under an id that no call of the connection has. -/
theorem ConnectionInv.call (h : ConnectionInv s) {req : IpcRequest}
    (hfresh : ∀ c ∈ s.calls, c.req.id ≠ req.id) (timeout : String) :
    ConnectionInv { s with calls := s.calls ++ [⟨req, timeout, .empty, .created⟩] } := by
  refine ⟨?_, h.keys, ?_, ?_, h.reader⟩
  · show ((s.calls ++ [_]).map fun c : PendingCall => c.req.id).Nodup
    rw [List.map_append, List.nodup_append]
    refine ⟨h.ids, List.nodup_singleton _, ?_⟩
    intro k hk k' hk' heq
    obtain ⟨c, hc, rfl⟩ := List.mem_map.mp hk
    exact hfresh c hc (heq.trans (List.mem_singleton.mp hk'))
  · intro e he
    obtain ⟨c, hc, hrest⟩ := h.pending e he
    obtain ⟨hlt, -⟩ := List.getElem?_eq_some_iff.mp hc
    exact ⟨c, by rw [List.getElem?_append_left hlt, hc], hrest⟩
  · intro i c hc
    rcases Nat.lt_or_ge i s.calls.length with hlt | hge
    · rw [List.getElem?_append_left hlt] at hc
      exact h.calls i c hc
    · rw [List.getElem?_append_right hge, List.getElem?_singleton] at hc
      split_ifs at hc
      cases hc
      exact ⟨by simp, by simp, by simp, by simp⟩

theorem ConnectionInv.step {s' : Connection} {a : ClientAction} {o : List IpcEvent}
    (h : ConnectionInv s) (hfresh : FreshId s a) (hst : clientStep s a = some (s', o)) :
    ConnectionInv s' := by
  cases a with
  | call req timeout =>
    cases hst
    exact h.call hfresh timeout
  | register i =>
    simp only [clientStep] at hst
    split at hst
    · rename_i req timeout channel hget
      cases hst
      have hregistered := h.register hget rfl
      exact hregistered
    · cases hst
  | send i =>
    simp only [clientStep] at hst
    split at hst
    · rename_i hget _
      cases hst
      exact h.giveUp hget (by simp)
    · rename_i req _ _ hget _
      split_ifs at hst
      cases hst
      have hq : ConnectionInv { s with queue := s.queue ++ [req] } :=
        ⟨h.ids, h.keys, h.pending, h.calls, h.reader⟩
      apply hq.setStage hget
      · exact (h.calls i _ hget).setStage (by simp) (by simp) (by simp)
      · exact fun _ _ _ => trivial
    · cases hst
  | receive i =>
    simp only [clientStep] at hst
    split at hst
    · rename_i hget
      cases hst
      apply h.setStage hget
      · exact (h.calls i _ hget).setStage (by simp) (by simp) (by simp)
      · intro e he hi
        exact absurd hi (h.not_pending hget (by simp) e he)
    · rename_i hget
      cases hst
      exact h.giveUp hget (by simp)
    · cases hst
  | timeout i =>
    simp only [clientStep] at hst
    split at hst
    · rename_i hget
      cases hst
      exact h.giveUp hget (by simp)
    · cases hst
  | remove i =>
    simp only [clientStep] at hst
    split at hst
    · rename_i req timeout channel outcome hget
      cases hst
      have hremoved := h.remove hget rfl
      exact hremoved
    · cases hst
  | read line =>
    simp only [clientStep] at hst
    split_ifs at hst with hreading
    split at hst
    · rename_i id resp hparse
      cases hst
      apply h.read line
      intro k id' resp' heq
      cases heq
      obtain ⟨j, rfl, hj⟩ := Option.bind_eq_some_iff.mp hparse
      exact ⟨j, by simp, hj⟩
    · cases hst
      exact h.read line (by simp [hreading])
    · cases hst
      exact h.read line (by simp [hreading])
  | deliver =>
    simp only [clientStep] at hst
    split at hst
    · rename_i line id resp hreader
      cases hst
      have hdeliver := h.deliver (h.reader _ _ _ hreader)
      exact ⟨hdeliver.ids, hdeliver.keys, hdeliver.pending, hdeliver.calls, by simp⟩
    · cases hst
  | stopReading byToken | cancelReading | stopWriting | cancelWriting =>
    simp only [clientStep] at hst
    split_ifs at hst
    cases hst
    exact ⟨h.ids, h.keys, h.pending, h.calls, by first | exact h.reader | simp⟩
  | clear =>
    simp only [clientStep] at hst
    split_ifs at hst
    cases hst
    have hdrop := h.dropSenders fun _ => true
    exact ⟨hdrop.ids, hdrop.keys, hdrop.pending, hdrop.calls, by simp⟩
  | write ok =>
    simp only [clientStep] at hst
    split at hst
    · split_ifs at hst <;>
      · cases hst
        exact ⟨h.ids, h.keys, h.pending, h.calls, h.reader⟩
    · cases hst

end Steps

theorem reachable_connectionInv {s : Connection} (h : client.Reachable FreshId s) :
    ConnectionInv s :=
  h.invariant (I := ConnectionInv) ConnectionInv.init fun _ _ _ _ hi hok hst => hi.step hok hst

/-! ## Every call can return -/

/-- The stage of a call after a step that sets it. -/
theorem Connection.setStage_stage {s : Connection} {i : ℕ} {c : PendingCall}
    (hget : s.calls[i]? = some c) (stage : CallStage) :
    (s.setStage i stage).calls[i]? = some { c with stage := stage } := by
  rw [Connection.setStage, Connection.modifyCall, List.getElem?_modify, hget]
  simp

/-- A state from which call `i` can return. -/
def CanReturn (s : Connection) (i : ℕ) : Prop :=
  ∃ tr t c outcome, client.Run FreshId s tr t ∧ t.calls[i]? = some c ∧
    c.stage = .returned outcome

theorem CanReturn.of_step {s t : Connection} {a : ClientAction} {i : ℕ} {o : List IpcEvent}
    (hfresh : FreshId s a) (hst : clientStep s a = some (t, o)) (h : CanReturn t i) :
    CanReturn s i := by
  obtain ⟨tr, u, c, outcome, hr, hc⟩ := h
  exact ⟨_, u, c, outcome, hr.cons hfresh hst, hc⟩

section Progress

variable {s : Connection} {i : ℕ} {req : IpcRequest} {timeout : String} {channel : OneshotState}

theorem canReturn_returned {outcome : Outcome}
    (hget : s.calls[i]? = some ⟨req, timeout, channel, .returned outcome⟩) : CanReturn s i :=
  ⟨[], s, _, outcome, .nil s, hget, rfl⟩

theorem canReturn_removing {outcome : Outcome}
    (hget : s.calls[i]? = some ⟨req, timeout, channel, .removing outcome⟩) : CanReturn s i := by
  obtain ⟨d, hd⟩ : ∃ d, (s.dropSenders (· = req.id)).calls[i]? = some d :=
    ⟨_, by rw [Connection.dropSenders, List.getElem?_mapIdx, hget]; rfl⟩
  apply CanReturn.of_step (a := .remove i)
    (t := (s.dropSenders (· = req.id)).setStage i (.returned outcome)) trivial
  · simp only [clientStep, hget]
    rfl
  · exact canReturn_returned (Connection.setStage_stage hd _)

theorem canReturn_awaiting (hget : s.calls[i]? = some ⟨req, timeout, channel, .awaiting⟩) :
    CanReturn s i := by
  cases channel with
  | empty =>
    apply CanReturn.of_step (a := .timeout i) (t := s.setStage i (.removing .timedOut)) trivial
    · simp only [clientStep, hget]
      rfl
    · exact canReturn_removing (Connection.setStage_stage hget _)
  | value line resp =>
    apply CanReturn.of_step (a := .receive i) (t := s.setStage i (.returned (.response resp)))
      trivial
    · simp only [clientStep, hget]
      rfl
    · exact canReturn_returned (Connection.setStage_stage hget _)
  | closed =>
    apply CanReturn.of_step (a := .receive i) (t := s.setStage i (.removing .channelClosed)) trivial
    · simp only [clientStep, hget]
      rfl
    · exact canReturn_removing (Connection.setStage_stage hget _)

/-- A call that sends goes on once the writer has stopped. -/
theorem canReturn_stopped (hget : s.calls[i]? = some ⟨req, timeout, channel, .registered⟩)
    (hwriter : s.writer = .stopped) : CanReturn s i := by
  apply CanReturn.of_step (a := .send i) (t := s.setStage i (.removing .sendFailed)) trivial
  · simp only [clientStep, hget, hwriter]
    rfl
  · exact canReturn_removing (Connection.setStage_stage hget _)

theorem canReturn_cancelling (hget : s.calls[i]? = some ⟨req, timeout, channel, .registered⟩)
    (hwriter : s.writer = .cancelling) : CanReturn s i := by
  apply CanReturn.of_step (a := .cancelWriting)
    (t := { s with writer := .stopped, queue := [], cancelled := true }) trivial
  · simp only [clientStep, hwriter, if_true]
    rfl
  · exact canReturn_stopped hget rfl

theorem canReturn_registered (hget : s.calls[i]? = some ⟨req, timeout, channel, .registered⟩) :
    CanReturn s i := by
  cases hwriter : s.writer with
  | running =>
    apply CanReturn.of_step (a := .stopWriting) (t := { s with writer := .cancelling }) trivial
    · simp only [clientStep, hwriter, if_true]
      rfl
    · exact canReturn_cancelling hget rfl
  | cancelling => exact canReturn_cancelling hget hwriter
  | stopped => exact canReturn_stopped hget hwriter

theorem canReturn_created (hget : s.calls[i]? = some ⟨req, timeout, channel, .created⟩) :
    CanReturn s i := by
  obtain ⟨⟨req', timeout', channel', stage'⟩, hd⟩ :
      ∃ d, (s.insertPending req.id i).calls[i]? = some d :=
    ⟨_, by rw [Connection.insertPending, Connection.dropSenders, List.getElem?_mapIdx, hget]; rfl⟩
  apply CanReturn.of_step (a := .register i)
    (t := (s.insertPending req.id i).setStage i .registered) trivial
  · simp only [clientStep, hget]
    rfl
  · exact canReturn_registered (Connection.setStage_stage hd _)

/-- From every state, every call can return: with a response, after its timeout, or
    because the writer has stopped. -/
theorem call_can_return {c : PendingCall} (hget : s.calls[i]? = some c) : CanReturn s i := by
  obtain ⟨req, timeout, channel, stage⟩ := c
  cases stage with
  | created => exact canReturn_created hget
  | registered => exact canReturn_registered hget
  | awaiting => exact canReturn_awaiting hget
  | removing outcome => exact canReturn_removing hget
  | returned outcome => exact canReturn_returned hget

end Progress

/-! ## Correlation -/

/-- What a response says: its data, `null` without any, if it is ok, and its error otherwise. -/
inductive IpcResponse.Says (resp : IpcResponse) : Except Error Value → Prop
  | data (v : Value) : resp.ok = true → resp.data = some v → Says resp (.ok v)
  | null : resp.ok = true → resp.data = none → Says resp (.ok "null")
  | error (msg : String) : resp.ok = false → resp.error = some msg → Says resp (.error (.Other msg))
  | noError : resp.ok = false → resp.error = none → Says resp (.error (.Other "IPC error"))

/-- What the result of a call can be: what the response of a line says that has the id of the
    call, or one of the three local errors. -/
inductive Explained (s : Connection) (c : PendingCall) : Except Error Value → Prop
  | response (k : ℕ) (resp : IpcResponse) (result : Except Error Value) :
    c.channel = .value k resp → Carries s.lines k c.req.id resp → resp.Says result →
    Explained s c result
  | sendFailed : Explained s c (.error (.Other "Failed to send IPC request: channel closed"))
  | channelClosed : Explained s c (.error (.Other "IPC response channel closed: channel closed"))
  | timedOut : Explained s c (.error (.Other ("IPC request timed out after " ++ c.timeout)))

/-- The end of `call_timeout` reads a response as what it says. -/
theorem says_callTimeoutResult (timeout : String) (resp : IpcResponse) :
    resp.Says (callTimeoutResult timeout (.response resp)) := by
  obtain ⟨ok, data, error⟩ := resp
  cases ok with
  | true =>
    cases data with
    | some v => exact .data v rfl rfl
    | none => exact .null rfl rfl
  | false =>
    cases error with
    | some msg => exact .error msg rfl rfl
    | none => exact .noError rfl rfl

/-- In every reachable state, with request ids pairwise distinct: a call that has
    returned has the result of a line with its own id or a local error; no line was
    delivered to two calls, and none that was delivered is an event; if all calls have
    returned, no response is pending; and every call can return. -/
theorem correlation {s : Connection} (h : client.Reachable FreshId s) :
    (∀ (i : ℕ) (c : PendingCall) (outcome : Outcome), s.calls[i]? = some c →
      c.stage = .returned outcome → Explained s c (callTimeoutResult c.timeout outcome)) ∧
    (∀ (i j k : ℕ) (c d : PendingCall) (resp resp' : IpcResponse), s.calls[i]? = some c →
      s.calls[j]? = some d → c.channel = .value k resp → d.channel = .value k resp' → i = j) ∧
    (∀ (i k : ℕ) (c : PendingCall) (resp : IpcResponse) (e : IpcEvent), s.calls[i]? = some c →
      c.channel = .value k resp → s.lines[k]? ≠ some (some e.toJson)) ∧
    ((∀ c ∈ s.calls, ∃ outcome, c.stage = .returned outcome) → s.pending = []) ∧
    (∀ (i : ℕ) (c : PendingCall), s.calls[i]? = some c → CanReturn s i) := by
  have hinv := reachable_connectionInv h
  refine ⟨?_, ?_, ?_, ?_, fun _ _ => call_can_return⟩
  · intro i c outcome hc hret
    cases outcome with
    | response resp =>
      obtain ⟨k, hk⟩ := (hinv.calls i c hc).returned resp hret
      have hcarries := (hinv.calls i c hc).value k resp hk
      exact .response k resp _ hk hcarries (says_callTimeoutResult c.timeout resp)
    | sendFailed => exact .sendFailed
    | channelClosed => exact .channelClosed
    | timedOut => exact .timedOut
  · intro i j k c d resp resp' hc hd hck hdk
    obtain ⟨l, hl, hparse⟩ := (hinv.calls i c hc).value k resp hck
    obtain ⟨l', hl', hparse'⟩ := (hinv.calls j d hd).value k resp' hdk
    rw [hl] at hl'
    cases hl'
    rw [hparse] at hparse'
    exact hinv.call_unique hc hd (congrArg Prod.fst (Option.some.inj hparse'))
  · intro i k c resp e hc hck hline
    obtain ⟨l, hl, hparse⟩ := (hinv.calls i c hc).value k resp hck
    rw [hl] at hline
    cases hline
    rw [parseResponse_event] at hparse
    cases hparse
  · intro hall
    rw [List.eq_nil_iff_forall_not_mem]
    intro e he
    obtain ⟨c, hc, -, -, hreg⟩ := hinv.pending e he
    obtain ⟨outcome, hret⟩ := hall c (List.mem_of_getElem? hc)
    rw [hret] at hreg
    exact hreg.elim

instance (s : Connection) (a : ClientAction) : Decidable (FreshId s a) :=
  match a with
  | .call req _ => inferInstanceAs (Decidable (∀ c ∈ s.calls, c.req.id ≠ req.id))
  | .register _ | .send _ | .receive _ | .timeout _ | .remove _ | .read _ | .deliver
  | .stopReading _ | .cancelReading | .clear | .write _ | .stopWriting | .cancelWriting =>
    isTrue trivial

/-- Two calls are answered in the other order, with an event in between and the second
    response sent again; a third call times out, and its response comes too late. -/
def swappedActions : List ClientAction :=
  [.call ⟨"a", "task.list", "{}"⟩ "30s", .call ⟨"b", "task.list", "{}"⟩ "30s",
   .call ⟨"c", "task.list", "{}"⟩ "5s", .register 0, .register 1, .register 2, .send 0, .send 1,
   .send 2, .write true, .write true, .write true,
   .read (some (responseToJson "b" true (some (.bool true)) none)), .deliver,
   .read (some (IpcEvent.toJson ⟨"task.changed", .null⟩)), .timeout 2, .remove 2,
   .read (some (responseToJson "a" false none (some "not found"))), .deliver,
   .read (some (responseToJson "b" true (some (.bool true)) none)), .deliver,
   .read (some (responseToJson "c" true none none)), .deliver, .receive 0, .receive 1]

/-- Each of these steps is possible. -/
theorem swappedActions_possible :
    (client.exec FreshId client.init swappedActions).isSome = true := by decide +kernel

def swappedState : Connection :=
  ((client.exec FreshId client.init swappedActions).get swappedActions_possible).2

/-- The three calls at the end. -/
theorem swappedState_calls :
    swappedState.calls =
      [⟨⟨"a", "task.list", "{}"⟩, "30s", .value 2 ⟨false, none, some "not found"⟩,
        .returned (.response ⟨false, none, some "not found"⟩)⟩,
       ⟨⟨"b", "task.list", "{}"⟩, "30s", .value 0 ⟨true, some "true", none⟩,
        .returned (.response ⟨true, some "true", none⟩)⟩,
       ⟨⟨"c", "task.list", "{}"⟩, "5s", .closed, .returned .timedOut⟩] := by
  decide +kernel

/-- In this run the first call has the error of its response, the second the data of its own,
    the third its local error, and nothing is pending. -/
theorem correlation_swapped :
    client.Reachable FreshId swappedState ∧
      (∃ c, swappedState.calls[0]? = some c ∧ c.req.id = "a" ∧
        Explained swappedState c (.error (.Other "not found"))) ∧
      (∃ c, swappedState.calls[1]? = some c ∧ c.req.id = "b" ∧
        Explained swappedState c (.ok "true")) ∧
      (∃ c, swappedState.calls[2]? = some c ∧ c.req.id = "c" ∧
        Explained swappedState c (.error (.Other "IPC request timed out after 5s"))) ∧
      swappedState.pending = [] := by
  have hreach : client.Reachable FreshId swappedState :=
    ⟨_, Machine.exec_get_run swappedActions_possible⟩
  obtain ⟨hexplained, -, -, hpending, -⟩ := correlation hreach
  have hcalls := swappedState_calls
  refine ⟨hreach, ⟨_, by rw [hcalls]; rfl, rfl, ?_⟩, ⟨_, by rw [hcalls]; rfl, rfl, ?_⟩,
    ⟨_, by rw [hcalls]; rfl, rfl, ?_⟩, ?_⟩
  · exact hexplained 0 _ _ (by rw [hcalls]; rfl) rfl
  · exact hexplained 1 _ _ (by rw [hcalls]; rfl) rfl
  · exact hexplained 2 _ _ (by rw [hcalls]; rfl) rfl
  · apply hpending
    rw [hcalls]
    simp

end EasyJob.Ipc
