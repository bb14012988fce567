import EasyJob.Ipc.Client
import EasyJob.Lib.Transition
import Mathlib.Data.List.Infix
import Mathlib.Tactic.Common

/-!
# Calls of the desktop application

Model of `AgentManager::call` (`apps/desktop/src-tauri/src/agent_manager.rs`
lines 130–149) together with the connection and the agent's server
(`crates/ipc/src/server.rs` lines 71–95): a request that was sent is read by the
server at most once, which then runs its handler; connections break, responses
get lost and timeouts expire at any moment.

* `call_handled_le`: the handler runs at most twice for one call, and at most
  once unless the first attempt timed out or lost its response channel; after a
  response there is no second request.
* `call_handled_twice`: it runs twice when the first attempt times out after the
  server has read the request.
-/

namespace EasyJob.Desktop

open EasyJob.Ipc Transition

/-! ## `is_connection_error` -/

/-- `str::to_lowercase`, as far as ASCII letters come out of it: the Kelvin sign
    becomes `k`, and a capital I with dot an `i` followed by a combining dot. -/
def toLowercase (s : List Char) : List Char :=
  s.flatMap fun c =>
    if 'A' ≤ c ∧ c ≤ 'Z' then [Char.ofNat (c.toNat + 32)]
    else if c.toNat = 0x212A then ['k']
    else if c.toNat = 0x130 then ['i', Char.ofNat 0x307]
    else [c]

/-- `str::contains`. -/
def contains (text : List Char) (pattern : String) : Bool :=
  text.tails.any fun rest => pattern.toList.isPrefixOf rest

/-- Model of `is_connection_error` (lines 259–273). -/
def isConnectionError : Error → Bool
  | .Io _ => true
  | .Other msg =>
    let lower := toLowercase msg.toList
    contains lower "failed to send ipc request" || contains lower "channel closed" ||
      contains lower "connection" || contains lower "broken pipe" ||
      contains lower "reset by peer" || contains lower "timed out"
  | _ => false

/-- The attempt ended with an error that is taken for a connection error. -/
def Retried (outcome : Outcome) : Prop :=
  match callResult outcome with
  | .ok _ => False
  | .error e => isConnectionError e = true

instance : DecidablePred Retried := fun outcome =>
  match h : callResult outcome with
  | .ok _ => isFalse (by simp [Retried, h])
  | .error e => decidable_of_iff (isConnectionError e = true) (by simp [Retried, h])

/-- A pattern is found wherever it stands. -/
theorem contains_append (text rest : List Char) (pattern : String) :
    contains (text ++ (pattern.toList ++ rest)) pattern = true := by
  rw [contains, List.any_eq_true]
  refine ⟨pattern.toList ++ rest, (List.mem_tails _ _).mpr (List.suffix_append _ _), ?_⟩
  rw [List.isPrefixOf_iff_prefix]
  exact List.prefix_append _ _

theorem isConnectionError_channelClosed (text : String) :
    isConnectionError (.Other (text ++ "channel closed")) = true := by
  have hpattern : "channel closed".toList = _ := String.toList_ofList
  have hlower : toLowercase "channel closed".toList = "channel closed".toList ++ [] := by
    rw [hpattern]
    rfl
  have hcontains : contains (toLowercase (text ++ "channel closed").toList) "channel closed" := by
    rw [String.toList_append, toLowercase, List.flatMap_append, ← toLowercase, ← toLowercase,
      hlower]
    exact contains_append _ _ _
  simp only [isConnectionError, hcontains, Bool.or_true, Bool.true_or]

theorem isConnectionError_timedOut (text : String) :
    isConnectionError (.Other ("IPC request timed out after " ++ text)) = true := by
  have hmessage : "IPC request timed out after ".toList = _ := String.toList_ofList
  have hpattern : "timed out".toList = _ := String.toList_ofList
  have hlower : toLowercase "IPC request timed out after ".toList =
      ['i', 'p', 'c', ' ', 'r', 'e', 'q', 'u', 'e', 's', 't', ' '] ++
        ("timed out".toList ++ [' ', 'a', 'f', 't', 'e', 'r', ' ']) := by
    rw [hmessage, hpattern]
    rfl
  have hcontains :
      contains (toLowercase ("IPC request timed out after " ++ text).toList) "timed out" := by
    rw [String.toList_append, toLowercase, List.flatMap_append, ← toLowercase, ← toLowercase,
      hlower, List.append_assoc, List.append_assoc]
    exact contains_append _ _ _
  simp only [isConnectionError, hcontains, Bool.or_true]

/-- Without a response, the attempt is retried. -/
theorem retried_of_no_response :
    Retried .sendFailed ∧ Retried .channelClosed ∧ Retried .timedOut :=
  ⟨isConnectionError_channelClosed _, isConnectionError_channelClosed _,
    isConnectionError_timedOut _⟩

/-- The result of `call` when no retry follows. -/
def finalResult (outcome : Outcome) : Except String Value :=
  (callResult outcome).mapError Error.toString

/-! ## The machine -/

/-- Where a request that was sent is. -/
inductive Request
  /-- In the client's queue or on the wire. -/
  | sent
  /-- The server has read it and runs the handler. -/
  | handling
  /-- The handler's response is on its way. -/
  | answered (resp : IpcResponse)
  /-- The connection broke before the server read it. -/
  | lost
  deriving DecidableEq, Repr

/-- What `call` does next; `retry` tells the second attempt from the first. -/
inductive CallPhase
  | connecting (retry : Bool)
  | sending (retry : Bool)
  | awaiting (retry : Bool)
  | returned (result : Except String Value)

structure CallState where
  phase : CallPhase
  /-- How the attempts so far ended. -/
  outcomes : List Outcome
  /-- The requests sent so far. -/
  requests : List Request
  /-- How often the agent has run the handler. -/
  handled : ℕ

inductive CallAction
  /-- `ensure_connected` returns. -/
  | connect (result : Except String Unit)
  /-- `req_tx.send` returns. -/
  | send (accepted : Bool)
  /-- The server reads request `i` and runs the handler. -/
  | read (i : ℕ)
  /-- The handler of request `i` responds. -/
  | answer (i : ℕ) (resp : IpcResponse)
  /-- The connection breaks under request `i`. -/
  | lose (i : ℕ)
  /-- The response to the last request arrives. -/
  | deliver
  | closeChannel
  | timeout

/-- The `match` of `call` on how an attempt ended (lines 136–148). -/
def settle (s : CallState) (retry : Bool) (outcome : Outcome) : CallState :=
  { s with
    outcomes := s.outcomes ++ [outcome]
    phase := if retry = false ∧ Retried outcome then .connecting true
      else .returned (finalResult outcome) }

/-- One step of the call, the connection or the server. -/
def callStep (s : CallState) (a : CallAction) : Option (CallState × List Empty) :=
  match a, s.phase with
  | .connect (.ok ()), .connecting retry => some ({ s with phase := .sending retry }, [])
  | .connect (.error msg), .connecting _ => some ({ s with phase := .returned (.error msg) }, [])
  | .send true, .sending retry =>
    some ({ s with phase := .awaiting retry, requests := s.requests ++ [.sent] }, [])
  | .send false, .sending retry => some (settle s retry .sendFailed, [])
  | .read i, _ =>
    if s.requests[i]? = some .sent then
      some ({ s with requests := s.requests.set i .handling, handled := s.handled + 1 }, [])
    else none
  | .answer i resp, _ =>
    if s.requests[i]? = some .handling then
      some ({ s with requests := s.requests.set i (.answered resp) }, [])
    else none
  | .lose i, _ =>
    if s.requests[i]? = some .sent then
      some ({ s with requests := s.requests.set i .lost }, [])
    else none
  | .deliver, .awaiting retry =>
    match s.requests.getLast? with
    | some (.answered resp) => some (settle s retry (.response resp), [])
    | _ => none
  | .closeChannel, .awaiting retry => some (settle s retry .channelClosed, [])
  | .timeout, .awaiting retry => some (settle s retry .timedOut, [])
  | _, _ => none

/-- One call. A request that the server has read stays read when its connection
    breaks: only the response is lost, and the call sees `closeChannel`. -/
def call : Machine CallState CallAction Empty where
  init := ⟨.connecting false, [], [], 0⟩
  step := callStep

/-! ## The invariant -/

/-- The server has read the request. -/
def Request.isRead : Request → Bool
  | .handling | .answered _ => true
  | .sent | .lost => false

/-- What an ended first attempt leaves: it was retried, and no request was sent in
    it if the send failed. -/
def AfterFirst (outcomes : List Outcome) (requests : ℕ) : Prop :=
  ∃ o, outcomes = [o] ∧ Retried o ∧ requests ≤ 1 ∧ (o = .sendFailed → requests = 0)

/-- The outcomes and the number of requests that go with each phase. -/
def PhaseInv (s : CallState) : Prop :=
  match s.phase with
  | .connecting false | .sending false => s.outcomes = [] ∧ s.requests.length = 0
  | .awaiting false => s.outcomes = [] ∧ s.requests.length = 1
  | .connecting true | .sending true => AfterFirst s.outcomes s.requests.length
  | .awaiting true => ∃ n, s.requests.length = n + 1 ∧ AfterFirst s.outcomes n
  | .returned result =>
    (s.outcomes = [] ∧ s.requests.length = 0) ∨
    (∃ o, s.outcomes = [o] ∧ ¬Retried o ∧ s.requests.length ≤ 1 ∧ result = finalResult o) ∨
    AfterFirst s.outcomes s.requests.length ∨
    ∃ o o' n, s.outcomes = [o, o'] ∧ AfterFirst [o] n ∧ s.requests.length ≤ n + 1 ∧
      result = finalResult o'

structure CallInv (s : CallState) : Prop where
  handled : s.handled = s.requests.countP Request.isRead
  phase : PhaseInv s

theorem CallInv.init : CallInv call.init := ⟨rfl, rfl, rfl⟩

/-- Steps of the server and of the connection keep the phase and the number of
    requests. -/
theorem PhaseInv.set {s : CallState} (h : PhaseInv s) (i : ℕ) (r : Request) (handled : ℕ) :
    PhaseInv { s with requests := s.requests.set i r, handled := handled } := by
  unfold PhaseInv at *
  simpa only [List.length_set] using h

/-- Replacing a request changes the number of read ones by the two requests. -/
theorem countP_set_read {requests : List Request} {i : ℕ} {r : Request}
    (h : requests[i]? = some r) (r' : Request) :
    (requests.set i r').countP Request.isRead + (if r.isRead then 1 else 0) =
      requests.countP Request.isRead + (if r'.isRead then 1 else 0) := by
  obtain ⟨hi, hr⟩ := List.getElem?_eq_some_iff.mp h
  rw [List.countP_set hi, hr]
  by_cases hread : r.isRead = true
  · have hmem : r ∈ requests := hr ▸ List.getElem_mem hi
    have hpos : 0 < requests.countP Request.isRead := List.countP_pos_iff.mpr ⟨r, hmem, hread⟩
    rw [if_pos hread]
    omega
  · rw [if_neg hread]
    omega

/-- How the first attempt ends. -/
theorem PhaseInv.settle_first {s : CallState} {o : Outcome} (hnone : s.outcomes = [])
    (hlen : s.requests.length ≤ 1) (hsend : o = .sendFailed → s.requests.length = 0) :
    PhaseInv (settle s false o) := by
  by_cases hr : Retried o
  · simp only [PhaseInv, settle, hr, and_self, if_true]
    exact ⟨o, by rw [hnone]; rfl, hr, hlen, hsend⟩
  · simp only [PhaseInv, settle, hr, and_false, if_false]
    exact .inr (.inl ⟨o, by rw [hnone]; rfl, hr, hlen, rfl⟩)

/-- How the second attempt ends. -/
theorem PhaseInv.settle_retry {s : CallState} {o : Outcome} {n : ℕ}
    (hfirst : AfterFirst s.outcomes n) (hlen : s.requests.length ≤ n + 1) :
    PhaseInv (settle s true o) := by
  obtain ⟨o₁, hout, hr, hn, hsend⟩ := hfirst
  simp only [PhaseInv, settle, Bool.true_eq_false, false_and, if_false]
  refine .inr (.inr (.inr ⟨o₁, o, n, by rw [hout]; rfl, ⟨o₁, rfl, hr, hn, hsend⟩, hlen, rfl⟩))

/-- How an attempt ends that has sent its request. -/
theorem PhaseInv.settle_awaiting {s : CallState} {retry : Bool} {o : Outcome}
    (hphase : s.phase = .awaiting retry) (h : PhaseInv s) (ho : o ≠ .sendFailed) :
    PhaseInv (settle s retry o) := by
  unfold PhaseInv at h
  rw [hphase] at h
  cases retry with
  | false =>
    obtain ⟨hnone, hlen⟩ := h
    exact settle_first hnone (by omega) fun heq => absurd heq ho
  | true =>
    obtain ⟨n, hlen, hfirst⟩ := h
    exact settle_retry hfirst (by omega)

/-- A step of the server or of the connection replaces one request. -/
theorem CallInv.set {s : CallState} (h : CallInv s) {i : ℕ} {r : Request}
    (hget : s.requests[i]? = some r) (r' : Request) (handled : ℕ)
    (hhandled : handled + (if r.isRead then 1 else 0) = s.handled + if r'.isRead then 1 else 0) :
    CallInv { s with requests := s.requests.set i r', handled := handled } := by
  refine ⟨?_, h.phase.set i r' handled⟩
  show handled = (s.requests.set i r').countP Request.isRead
  have hcount := countP_set_read hget r'
  have hold := h.handled
  omega

/-- `ensure_connected` returns. -/
theorem CallInv.connect {s s' : CallState} {result : Except String Unit} {o : List Empty}
    (h : CallInv s) (hst : callStep s (.connect result) = some (s', o)) : CallInv s' := by
  obtain ⟨hhandled, hphase⟩ := h
  cases heq : s.phase with
  | connecting retry =>
    unfold PhaseInv at hphase
    rw [heq] at hphase
    cases result with
    | ok =>
      simp only [callStep, heq] at hst
      cases hst
      cases retry <;> exact ⟨hhandled, hphase⟩
    | error msg =>
      simp only [callStep, heq] at hst
      cases hst
      cases retry with
      | false => exact ⟨hhandled, .inl hphase⟩
      | true => exact ⟨hhandled, .inr (.inr (.inl hphase))⟩
  | sending _ | awaiting _ | returned _ => simp [callStep, heq] at hst

/-- `req_tx.send` returns. -/
theorem CallInv.send {s s' : CallState} {accepted : Bool} {o : List Empty}
    (h : CallInv s) (hst : callStep s (.send accepted) = some (s', o)) : CallInv s' := by
  obtain ⟨hhandled, hphase⟩ := h
  cases heq : s.phase with
  | sending retry =>
    unfold PhaseInv at hphase
    rw [heq] at hphase
    cases accepted with
    | true =>
      simp only [callStep, heq] at hst
      cases hst
      refine ⟨?_, ?_⟩
      · show s.handled = (s.requests ++ [Request.sent]).countP Request.isRead
        rw [List.countP_append, hhandled]
        rfl
      · cases retry with
        | false => exact ⟨hphase.1, by simp [hphase.2]⟩
        | true => exact ⟨s.requests.length, by simp, hphase⟩
    | false =>
      simp only [callStep, heq] at hst
      cases hst
      refine ⟨hhandled, ?_⟩
      cases retry with
      | false => exact PhaseInv.settle_first hphase.1 (by omega) fun _ => hphase.2
      | true => exact PhaseInv.settle_retry hphase (by omega)
  | connecting _ | awaiting _ | returned _ => simp [callStep, heq] at hst

theorem CallInv.step {s s' : CallState} {a : CallAction} {o : List Empty} (h : CallInv s)
    (hst : callStep s a = some (s', o)) : CallInv s' := by
  cases a with
  | connect result => exact h.connect hst
  | send accepted => exact h.send hst
  | read i =>
    rw [callStep] at hst
    split_ifs at hst with hget
    cases hst
    exact h.set hget .handling _ rfl
  | answer i resp =>
    rw [callStep] at hst
    split_ifs at hst with hget
    cases hst
    exact h.set hget (.answered resp) _ rfl
  | lose i =>
    rw [callStep] at hst
    split_ifs at hst with hget
    cases hst
    exact h.set hget .lost _ rfl
  | deliver =>
    cases heq : s.phase with
    | awaiting retry =>
      simp only [callStep, heq] at hst
      split at hst
      · cases hst
        exact ⟨h.handled, PhaseInv.settle_awaiting heq h.phase (by simp)⟩
      · cases hst
    | connecting _ | sending _ | returned _ => simp [callStep, heq] at hst
  | closeChannel | timeout =>
    cases heq : s.phase with
    | awaiting retry =>
      simp only [callStep, heq] at hst
      cases hst
      exact ⟨h.handled, PhaseInv.settle_awaiting heq h.phase (by simp)⟩
    | connecting _ | sending _ | returned _ => simp [callStep, heq] at hst

theorem reachable_callInv {s : CallState} (h : call.Reachable Machine.anyStep s) : CallInv s :=
  h.invariant (I := CallInv) CallInv.init fun _ _ _ _ hi _ hst => hi.step hst

/-! ## How often the handler runs -/

/-- The bounds on the handler's runs, from the attempts that have ended. -/
structure HandledBound (s : CallState) : Prop where
  runs : s.handled ≤ s.requests.length
  requests : s.requests.length ≤ 2
  attempts : s.outcomes.length ≤ 2
  /-- Before the first attempt has ended. -/
  first : s.outcomes = [] → s.requests.length ≤ 1
  /-- The first attempt is not taken for a connection error. -/
  noRetry : ∀ o, s.outcomes.head? = some o → ¬Retried o →
    s.requests.length ≤ 1 ∧ s.phase = .returned (finalResult o)
  notSent : s.outcomes.head? = some .sendFailed → s.requests.length ≤ 1
  /-- The second attempt is the last. -/
  retry : ∀ o o', s.outcomes = [o, o'] → Retried o ∧ s.phase = .returned (finalResult o')

/-- No attempt has ended. -/
theorem HandledBound.of_nil {s : CallState} (hruns : s.handled ≤ s.requests.length)
    (hnone : s.outcomes = []) (hlen : s.requests.length ≤ 1) : HandledBound s := by
  refine ⟨hruns, by omega, by simp [hnone], fun _ => hlen, ?_, ?_, ?_⟩
  · intro o ho
    simp [hnone] at ho
  · intro _
    exact hlen
  · intro o o' ho
    simp [hnone] at ho

/-- The first attempt was retried, and the second has not ended. -/
theorem HandledBound.of_afterFirst {s : CallState} {n : ℕ}
    (hruns : s.handled ≤ s.requests.length) (h : AfterFirst s.outcomes n)
    (hlen : s.requests.length ≤ n + 1) : HandledBound s := by
  obtain ⟨o, hout, hr, hn, hsend⟩ := h
  refine ⟨hruns, by omega, by simp [hout], by simp [hout], ?_, ?_, ?_⟩
  · intro o' ho' hno
    obtain rfl : o = o' := by simpa [hout] using ho'
    exact absurd hr hno
  · intro ho
    have := hsend (by simpa [hout] using ho)
    omega
  · intro o₁ o₂ ho
    simp [hout] at ho

/-- The first attempt was not retried. -/
theorem HandledBound.of_noRetry {s : CallState} {o : Outcome}
    (hruns : s.handled ≤ s.requests.length) (hout : s.outcomes = [o])
    (hlen : s.requests.length ≤ 1) (hphase : s.phase = .returned (finalResult o)) :
    HandledBound s := by
  refine ⟨hruns, by omega, by simp [hout], by simp [hout], ?_, ?_, ?_⟩
  · intro o' ho' _
    obtain rfl : o = o' := by simpa [hout] using ho'
    exact ⟨hlen, hphase⟩
  · intro _
    exact hlen
  · intro o₁ o₂ ho
    simp [hout] at ho

/-- Both attempts have ended. -/
theorem HandledBound.of_retry {s : CallState} {o o' : Outcome} {n : ℕ}
    (hruns : s.handled ≤ s.requests.length) (hout : s.outcomes = [o, o'])
    (hfirst : AfterFirst [o] n) (hlen : s.requests.length ≤ n + 1)
    (hphase : s.phase = .returned (finalResult o')) : HandledBound s := by
  obtain ⟨o₁, ho₁, hr, hn, hsend⟩ := hfirst
  obtain rfl : o = o₁ := by simpa using ho₁
  refine ⟨hruns, by omega, by simp [hout], by simp [hout], ?_, ?_, ?_⟩
  · intro o₁ ho₁ hno
    obtain rfl : o = o₁ := by simpa [hout] using ho₁
    exact absurd hr hno
  · intro ho
    have := hsend (by simpa [hout] using ho)
    omega
  · intro o₁ o₂ ho
    obtain ⟨rfl, rfl⟩ : o = o₁ ∧ o' = o₂ := by simpa [hout] using ho
    exact ⟨hr, hphase⟩

theorem CallInv.handledBound {s : CallState} (h : CallInv s) : HandledBound s := by
  have hruns : s.handled ≤ s.requests.length := h.handled ▸ List.countP_le_length
  have hphase := h.phase
  unfold PhaseInv at hphase
  split at hphase
  · exact .of_nil hruns hphase.1 (by omega)
  · exact .of_nil hruns hphase.1 (by omega)
  · exact .of_nil hruns hphase.1 (by omega)
  · exact .of_afterFirst hruns hphase (by omega)
  · exact .of_afterFirst hruns hphase (by omega)
  · obtain ⟨n, hlen, hfirst⟩ := hphase
    exact .of_afterFirst hruns hfirst (by omega)
  · rename_i result heq
    rcases hphase with ⟨hnone, hlen⟩ | ⟨o, hout, hno, hlen, hres⟩ | hfirst |
      ⟨o, o', n, hout, hfirst, hlen, hres⟩
    · exact .of_nil hruns hnone (by omega)
    · exact .of_noRetry hruns hout hlen (hres ▸ heq)
    · exact .of_afterFirst hruns hfirst (by omega)
    · exact .of_retry hruns hout hfirst hlen (hres ▸ heq)

/-- The agent's own error text reads like a lost connection: it contains one of the texts of
    `is_connection_error`. -/
def NamesConnection (resp : IpcResponse) : Prop :=
  resp.ok = false ∧ isConnectionError (.Other (resp.error.getD "IPC error")) = true

theorem retried_response_iff (resp : IpcResponse) :
    Retried (.response resp) ↔ NamesConnection resp := by
  obtain ⟨ok, data, error⟩ := resp
  cases ok <;> simp [Retried, callResult, NamesConnection]

/-- The response of the first attempt ends the call: no second request is sent, the handler has
    run at most once, and the call returns what the response says. -/
structure EndsCall (s : CallState) (resp : IpcResponse) : Prop where
  requests : s.requests.length ≤ 1
  handled : s.handled ≤ 1
  data : resp.ok = true → s.phase = .returned (.ok (resp.data.getD "null"))
  error : resp.ok = false →
    s.phase = .returned (.error ("Unknown error: " ++ resp.error.getD "IPC error"))

theorem HandledBound.endsCall {s : CallState} (h : HandledBound s) {resp : IpcResponse}
    (hfirst : s.outcomes.head? = some (.response resp)) (hresp : ¬NamesConnection resp) :
    EndsCall s resp := by
  obtain ⟨hlen, hphase⟩ := h.noRetry _ hfirst (mt (retried_response_iff resp).mp hresp)
  refine ⟨hlen, Nat.le_trans h.runs hlen, ?_, ?_⟩
  · intro hok
    rw [hphase, finalResult, callResult, if_pos hok]
    rfl
  · intro hok
    rw [hphase, finalResult, callResult, if_neg (by simp [hok])]
    rfl

/-- Where the agent has not read the first request, the handler has run at most once. -/
theorem CallInv.handled_of_unread {s : CallState} (h : CallInv s) {r : Request}
    (hfirst : s.requests.head? = some r) (hread : r.isRead = false) : s.handled ≤ 1 := by
  have hlen := h.handledBound.requests
  have hhandled := h.handled
  cases hreqs : s.requests with
  | nil => simp [hreqs] at hfirst
  | cons r' rest =>
    obtain rfl : r' = r := by simpa [hreqs] using hfirst
    rw [hreqs, List.countP_cons_of_neg (by simp [hread])] at hhandled
    rw [hreqs, List.length_cons] at hlen
    have hle : rest.countP Request.isRead ≤ rest.length := List.countP_le_length
    omega

/-- For one call the agent runs the handler at most twice, and at most once for each of at most
    two attempts. It runs at most once before the first attempt has ended, and at most once in
    all where the request of that attempt could not be sent or the first request has not been
    read. A response ends the call, unless it is an error whose text reads like a lost
    connection. A second attempt is the last, and the call returns its result. -/
theorem call_handled_le {s : CallState} (h : call.Reachable Machine.anyStep s) :
    s.handled ≤ s.requests.length ∧ s.requests.length ≤ 2 ∧ s.outcomes.length ≤ 2 ∧
    (s.outcomes = [] → s.handled ≤ 1) ∧
    (s.outcomes.head? = some .sendFailed → s.handled ≤ 1) ∧
    (∀ r, s.requests.head? = some r → r.isRead = false → s.handled ≤ 1) ∧
    (∀ resp, s.outcomes.head? = some (.response resp) → ¬NamesConnection resp →
      EndsCall s resp) ∧
    (∀ o o', s.outcomes = [o, o'] → s.phase = .returned (finalResult o')) := by
  have hinv := reachable_callInv h
  have hb := hinv.handledBound
  refine ⟨hb.runs, hb.requests, hb.attempts, ?_, ?_, fun _ => hinv.handled_of_unread,
    fun _ => hb.endsCall, ?_⟩
  · intro hnone
    exact Nat.le_trans hb.runs (hb.first hnone)
  · intro ho
    exact Nat.le_trans hb.runs (hb.notSent ho)
  · intro o o' ho
    exact (hb.retry o o' ho).2

/-- The agent answers the first attempt with an error. -/
def notFoundActions : List CallAction :=
  [.connect (.ok ()), .send true, .read 0, .answer 0 ⟨false, none, some "Not found: task"⟩,
   .deliver]

/-- Each of these steps is possible. -/
theorem notFoundActions_possible :
    (call.exec Machine.anyStep call.init notFoundActions).isSome = true := by decide +kernel

def notFoundState : CallState :=
  ((call.exec Machine.anyStep call.init notFoundActions).get notFoundActions_possible).2

/-- That error ends the call. -/
theorem call_handled_le_notFound :
    call.Reachable Machine.anyStep notFoundState ∧
      EndsCall notFoundState ⟨false, none, some "Not found: task"⟩ := by
  have hreach : call.Reachable Machine.anyStep notFoundState :=
    ⟨_, Machine.exec_get_run notFoundActions_possible⟩
  have hplain : isConnectionError (.Other "Not found: task") = false := by decide +kernel
  obtain ⟨-, -, -, -, -, -, hends, -⟩ := call_handled_le hreach
  refine ⟨hreach, hends _ (by decide +kernel) ?_⟩
  rintro ⟨-, hnames⟩
  rw [Option.getD_some, hplain] at hnames
  cases hnames

/-- The first attempt times out after the server has read its request; the second
    one is answered. -/
def timeoutActions : List CallAction :=
  [.connect (.ok ()), .send true, .read 0, .timeout,
   .connect (.ok ()), .send true, .read 1, .answer 1 ⟨true, none, none⟩, .deliver]

/-- Each of these steps is possible. -/
theorem timeoutActions_possible :
    (call.exec Machine.anyStep call.init timeoutActions).isSome = true := by decide

def timeoutState : CallState :=
  ((call.exec Machine.anyStep call.init timeoutActions).get timeoutActions_possible).2

theorem timeoutState_reachable : call.Reachable Machine.anyStep timeoutState :=
  ⟨_, Machine.exec_get_run timeoutActions_possible⟩

/-- In it the agent runs the handler twice. -/
theorem call_handled_twice :
    ∃ s, call.Reachable Machine.anyStep s ∧ s.handled = 2 :=
  ⟨timeoutState, timeoutState_reachable, by decide⟩

end EasyJob.Desktop
