import EasyJob.Ipc.Protocol
import EasyJob.Lib.LossyChannel
import EasyJob.Lib.Transition

/-!
# Broadcasting events to the clients

Model of `IpcServer::run` (`crates/ipc/src/server.rs` lines 256–295) and of the
client side of `handle_connection` (lines 48–100) while the server runs: events
are sent on the lossy channel of `service.rs` line 104, one task receives them
and tries to hand each to every client, and each client has a queue of 256
frames, which responses use too. Clients connect, stop reading and disconnect at
any time.

* `broadcast_delivers`: while the broadcasting task keeps up, every connected
  client gets every event since it registered, except those that a queue with 256
  frames has lost; once the task has lagged, no later event reaches any client.
* `broadcast_fails`: a burst of 1025 events.
-/

namespace EasyJob.Ipc

open LossyChannel Transition

/-! ## States -/

/-- The capacity of the event channel (`service.rs` line 104). -/
def eventCapacity : ℕ := 1024

/-- The capacity of a client's queue (line 53). -/
def clientCapacity : ℕ := 256

/-- A line for a client: the event of this number, or a response. -/
inductive Frame
  | event (k : ℕ)
  | response
  deriving DecidableEq, Repr

structure ClientConnection where
  /-- In the map of clients. -/
  registered : Bool
  /-- The receiver of the queue exists. -/
  receiving : Bool
  /-- The loop over the client's requests has ended, and the writer is aborted. -/
  hungUp : Bool
  /-- Places of the queue that handlers have taken for their responses. -/
  reserved : ℕ
  queue : List Frame
  /-- The frame in `sink.send`. -/
  writing : Option Frame
  /-- The frames written to the stream. -/
  written : List Frame
  /-- The number of the first event that was handed out after it registered. -/
  since : ℕ
  /-- The events that a full queue has lost. -/
  lost : List ℕ
  deriving DecidableEq, Repr

/-- Where the broadcasting task stands. -/
inductive BroadcastStage
  | receiving
  /-- Has received event `k`; before lines 268–271. -/
  | collecting (k : ℕ)
  /-- In the loop of lines 273–286, with the clients that are left and the dead ones. -/
  | sending (k : ℕ) (targets dead : List ℕ)
  /-- The task has ended. -/
  | stopped
  deriving DecidableEq, Repr

structure ServerState where
  /-- All events sent so far. -/
  sent : List IpcEvent
  /-- The position of `event_rx`. -/
  next : ℕ
  stage : BroadcastStage
  /-- All clients so far, by `client_id`. -/
  clients : List ClientConnection

/-! ## Steps -/

namespace ClientConnection

/-- A client that has just registered (lines 52–58). -/
def new (since : ℕ) : ClientConnection where
  registered := true
  receiving := true
  hungUp := false
  reserved := 0
  queue := []
  writing := none
  written := []
  since := since
  lost := []

/-- The writer task ends, and drops what it has not written. -/
def close (c : ClientConnection) : ClientConnection :=
  { c with receiving := false, queue := [], writing := none }

def hasRoom (c : ClientConnection) : Bool := c.queue.length + c.reserved < clientCapacity

/-- `tx.try_send` (lines 274–285). -/
def trySend (k : ℕ) (c : ClientConnection) : ClientConnection :=
  if c.receiving then
    if c.hasRoom then { c with queue := c.queue ++ [.event k] }
    else { c with lost := c.lost ++ [k] }
  else c

end ClientConnection

def ServerState.modifyClient (s : ServerState) (i : ℕ) (f : ClientConnection → ClientConnection) :
    ServerState :=
  { s with clients := s.clients.modify i f }

/-- The number of the next event whose clients have not been collected. -/
def ServerState.upcoming (s : ServerState) : ℕ :=
  match s.stage with
  | .collecting k => k
  | _ => s.next

/-- The clients in the map. -/
def ServerState.registered (s : ServerState) : List ℕ :=
  (List.range s.clients.length).filter fun i => (s.clients[i]?.map (·.registered)).getD false

inductive ServerAction
  /-- An event is sent on the channel. -/
  | emit (event : IpcEvent)
  /-- A client connects (lines 52–58). -/
  | connect
  | recv
  | collect
  /-- The next `try_send`. -/
  | trySend
  /-- The loop has ended; the dead clients leave the map (lines 287–292). -/
  | removeDead
  /-- A handler gets a place in the queue of client `i`. -/
  | reserve (i : ℕ)
  /-- It puts its response there (line 80). -/
  | respond (i : ℕ)
  /-- The writer of client `i` takes the next frame (line 64). -/
  | take (i : ℕ)
  /-- Its `sink.send` returns (lines 65–67). -/
  | write (i : ℕ) (ok : Bool)
  /-- The loop over the requests ends (line 97). -/
  | hangUp (i : ℕ)
  /-- The aborted writer is gone. -/
  | abort (i : ℕ)
  /-- Lines 98–99. -/
  | unregister (i : ℕ)

/-- One step of a producer, of the broadcasting task or of a client. -/
def serverStep (s : ServerState) (a : ServerAction) : Option (ServerState × List Empty) :=
  match a with
  | .emit event => some ({ s with sent := s.sent ++ [event] }, [])
  | .connect =>
    some ({ s with clients := s.clients ++ [ClientConnection.new s.upcoming] }, [])
  | .recv =>
    match s.stage, LossyChannel.recv eventCapacity s.sent s.next with
    | .receiving, (.value _, next) =>
      some ({ s with next := next, stage := .collecting s.next }, [])
    -- `while let Ok(event)` ends at `Err(Lagged)`.
    | .receiving, (.lagged _, next) => some ({ s with next := next, stage := .stopped }, [])
    | _, _ => none
  | .collect =>
    match s.stage with
    | .collecting k => some ({ s with stage := .sending k s.registered [] }, [])
    | _ => none
  | .trySend =>
    match s.stage with
    | .sending k (i :: targets) dead =>
      match s.clients[i]? with
      | some c =>
        let dead := if c.receiving then dead else dead ++ [i]
        some ({ s with stage := .sending k targets dead }.modifyClient i (·.trySend k), [])
      | none => none
    | _ => none
  | .removeDead =>
    match s.stage with
    | .sending _ [] dead =>
      some ({ s with
        stage := .receiving
        clients := s.clients.mapIdx fun i c =>
          if i ∈ dead then { c with registered := false } else c }, [])
    | _ => none
  | .reserve i =>
    match s.clients[i]? with
    | some c =>
      if c.receiving ∧ c.hasRoom then
        some (s.modifyClient i fun c => { c with reserved := c.reserved + 1 }, [])
      else none
    | none => none
  | .respond i =>
    match s.clients[i]? with
    | some c =>
      if c.receiving ∧ 0 < c.reserved then
        some (s.modifyClient i fun c =>
          { c with reserved := c.reserved - 1, queue := c.queue ++ [.response] }, [])
      else none
    | none => none
  | .take i =>
    match s.clients[i]?.map fun c => (c.receiving, c.writing, c.queue) with
    | some (true, none, frame :: queue) =>
      some (s.modifyClient i fun c => { c with queue := queue, writing := some frame }, [])
    | _ => none
  | .write i ok =>
    match s.clients[i]?.map (·.writing) with
    | some (some frame) =>
      if ok then
        some (s.modifyClient i fun c =>
          { c with writing := none, written := c.written ++ [frame] }, [])
      else some (s.modifyClient i ClientConnection.close, [])
    | _ => none
  | .hangUp i =>
    match s.clients[i]? with
    | some c =>
      if c.hungUp then none else some (s.modifyClient i fun c => { c with hungUp := true }, [])
    | none => none
  | .abort i =>
    match s.clients[i]? with
    | some c =>
      if c.hungUp ∧ c.receiving then some (s.modifyClient i ClientConnection.close, []) else none
    | none => none
  | .unregister i =>
    match s.clients[i]? with
    | some c =>
      if c.hungUp ∧ c.registered then
        some (s.modifyClient i fun c => { c with registered := false }, [])
      else none
    | none => none

def server : Machine ServerState ServerAction Empty where
  init := ⟨[], 0, .receiving, []⟩
  step := serverStep

/-- No event is sent while 1024 events wait for the broadcasting task. -/
def KeepsUp (s : ServerState) (a : ServerAction) : Prop :=
  match a with
  | .emit _ => s.sent.length < s.next + eventCapacity
  | _ => True

instance (s : ServerState) : ∀ a, Decidable (KeepsUp s a)
  | .emit _ => inferInstanceAs (Decidable (_ < _))
  | .connect | .recv | .collect | .trySend | .removeDead | .reserve _ | .respond _ | .take _
  | .write _ _ | .hangUp _ | .abort _ | .unregister _ => isTrue trivial

/-! ## What clients get -/

def Frame.event? : Frame → Option ℕ
  | .event k => some k
  | .response => none

namespace ClientConnection

/-- The events that were or will be written, in their order. -/
def events (c : ClientConnection) : List ℕ :=
  (c.written ++ c.writing.toList ++ c.queue).filterMap Frame.event?

/-- The client is in the map and its queue has a receiver. -/
def Connected (c : ClientConnection) : Prop := c.registered = true ∧ c.receiving = true

/-- The client has got every event from `since` to `upTo`, in order and once, except
    those lost by a full queue. -/
structure Delivered (c : ClientConnection) (upTo : ℕ) : Prop where
  increasing : c.events.Pairwise (· < ·)
  range : ∀ k ∈ c.events, c.since ≤ k ∧ k < upTo
  covered : c.Connected → ∀ k, c.since ≤ k → k < upTo → k ∈ c.events ∨ k ∈ c.lost

end ClientConnection

/-- The events below this number have been tried for client `i`. -/
def ServerState.tried (s : ServerState) (i : ℕ) : ℕ :=
  match s.stage with
  | .collecting k => k
  | .sending k targets _ => if i ∈ targets then k else k + 1
  | _ => s.next

/-- The invariant of the broadcasting task and of each client, while the task keeps up. -/
structure ServerInv (s : ServerState) : Prop where
  keepsUp : s.sent.length ≤ s.next + eventCapacity
  next_le : s.next ≤ s.sent.length
  running : s.stage ≠ .stopped
  collecting : ∀ k, s.stage = .collecting k → s.next = k + 1
  sending : ∀ k targets dead, s.stage = .sending k targets dead → s.next = k + 1 ∧
    targets.Nodup ∧ ∀ i ∈ targets, ∃ c, s.clients[i]? = some c ∧ c.since ≤ k
  since : ∀ c ∈ s.clients, c.since ≤ s.upcoming
  clients : ∀ (i : ℕ) (c : ClientConnection), s.clients[i]? = some c → c.Delivered (s.tried i)

namespace ClientConnection

variable {c c' : ClientConnection} {n : ℕ}

/-- A change that leaves the events alone. -/
theorem Delivered.congr (h : c.Delivered n) (hevents : c'.events = c.events)
    (hsince : c'.since = c.since) (hlost : c'.lost = c.lost)
    (hconnected : c'.Connected → c.Connected) : c'.Delivered n where
  increasing := hevents ▸ h.increasing
  range := by
    intro k hk
    rw [hsince]
    exact h.range k (hevents ▸ hk)
  covered := by
    intro hc k hge hlt
    rw [hevents, hlost]
    exact h.covered (hconnected hc) k (hsince ▸ hge) hlt

/-- A client that is not connected any more may miss events. -/
theorem Delivered.of_sublist (h : c.Delivered n) (hevents : c'.events.Sublist c.events)
    (hsince : c'.since = c.since) {m : ℕ} (hm : n ≤ m) (hconnected : ¬c'.Connected) :
    c'.Delivered m where
  increasing := h.increasing.sublist hevents
  range := by
    intro k hk
    obtain ⟨hge, hlt⟩ := h.range k (hevents.subset hk)
    rw [hsince]
    exact ⟨hge, Nat.lt_of_lt_of_le hlt hm⟩
  covered := fun hc => absurd hc hconnected

theorem events_close (c : ClientConnection) : c.close.events.Sublist c.events := by
  unfold events close
  exact List.Sublist.filterMap _ (by simp)

theorem events_push (c : ClientConnection) (k : ℕ) :
    ({ c with queue := c.queue ++ [.event k] } : ClientConnection).events = c.events ++ [k] := by
  simp [events, Frame.event?, List.filterMap_append]

theorem events_respond (c : ClientConnection) (reserved : ℕ) :
    ({ c with reserved := reserved, queue := c.queue ++ [.response] } : ClientConnection).events =
      c.events := by
  simp [events, Frame.event?, List.filterMap_append]

/-- A frame goes from the queue to the writer. -/
theorem events_take (c : ClientConnection) {frame : Frame} {queue : List Frame}
    (hwriting : c.writing = none) (hqueue : c.queue = frame :: queue) :
    ({ c with queue := queue, writing := some frame } : ClientConnection).events = c.events := by
  simp [events, hwriting, hqueue]

/-- A frame goes from the writer to the stream. -/
theorem events_write (c : ClientConnection) {frame : Frame} (hwriting : c.writing = some frame) :
    ({ c with writing := none, written := c.written ++ [frame] } : ClientConnection).events =
      c.events := by
  simp [events, hwriting]

theorem since_trySend (c : ClientConnection) (k : ℕ) : (c.trySend k).since = c.since := by
  unfold trySend
  split_ifs <;> rfl

/-- Event `k` is handed to a client that has been tried for all before it. -/
theorem Delivered.trySend {k : ℕ} (h : c.Delivered k) (hsince : c.since ≤ k) :
    (c.trySend k).Delivered (k + 1) := by
  have hold : ∀ j ∈ c.events, c.since ≤ j ∧ j < k + 1 := by
    intro j hj
    obtain ⟨hge, hlt⟩ := h.range j hj
    exact ⟨hge, by omega⟩
  unfold ClientConnection.trySend
  split_ifs with hreceiving hroom
  · have hevents := c.events_push k
    refine ⟨?_, ?_, ?_⟩
    · rw [hevents, List.pairwise_append]
      refine ⟨h.increasing, List.pairwise_singleton _ _, ?_⟩
      intro j hj j' hj'
      rw [List.mem_singleton.mp hj']
      exact (h.range j hj).2
    · intro j hj
      rw [hevents] at hj
      rcases List.mem_append.mp hj with hj | hj
      · exact hold j hj
      · rw [List.mem_singleton.mp hj]
        exact ⟨hsince, Nat.lt_succ_self k⟩
    · intro hc j hge hlt
      rw [hevents]
      rcases Nat.lt_succ_iff_lt_or_eq.mp hlt with hlt | rfl
      · rcases h.covered hc j hge hlt with hj | hj
        · exact .inl (List.mem_append_left _ hj)
        · exact .inr hj
      · exact .inl (by simp)
  · refine ⟨h.increasing, hold, ?_⟩
    intro hc j hge hlt
    rcases Nat.lt_succ_iff_lt_or_eq.mp hlt with hlt | rfl
    · rcases h.covered hc j hge hlt with hj | hj
      · exact .inl hj
      · exact .inr (List.mem_append_left _ hj)
    · exact .inr (by simp)
  · exact ⟨h.increasing, hold, fun hc => absurd hc.2 hreceiving⟩

end ClientConnection

/-- The client whose own tasks take the step. -/
def ServerAction.client? : ServerAction → Option ℕ
  | .reserve i | .respond i | .take i | .write i _ | .hangUp i | .abort i | .unregister i => some i
  | _ => none

/-- What a step of the client's own tasks does to what it gets. -/
inductive ClientChange (c c' : ClientConnection) : Prop
  | kept (hevents : c'.events = c.events) (hlost : c'.lost = c.lost)
      (hconnected : c'.Connected → c.Connected)
  | closed (hclose : c' = c.close)

section Steps

variable {s s' : ServerState}

theorem serverStep_client {a : ServerAction} {i : ℕ} {o : List Empty} (ha : a.client? = some i)
    (hst : serverStep s a = some (s', o)) :
    ∃ c f, s.clients[i]? = some c ∧ s' = s.modifyClient i f ∧ (∀ c, (f c).since = c.since) ∧
      ClientChange c (f c) := by
  cases a with
  | emit | connect | recv | collect | trySend | removeDead => cases ha
  | reserve j =>
    cases ha
    simp only [serverStep] at hst
    split at hst
    · rename_i c hget
      split_ifs at hst
      cases hst
      exact ⟨c, _, hget, rfl, fun _ => rfl, .kept rfl rfl id⟩
    · cases hst
  | respond j =>
    cases ha
    simp only [serverStep] at hst
    split at hst
    · rename_i c hget
      split_ifs at hst
      cases hst
      exact ⟨c, _, hget, rfl, fun _ => rfl, .kept (c.events_respond _) rfl id⟩
    · cases hst
  | take j =>
    cases ha
    simp only [serverStep] at hst
    split at hst
    · rename_i frame queue hget
      cases hst
      obtain ⟨c, hc, hfields⟩ := Option.map_eq_some_iff.mp hget
      obtain ⟨-, hwriting, hqueue⟩ : c.receiving = true ∧ c.writing = none ∧
          c.queue = frame :: queue := by simpa using hfields
      exact ⟨c, _, hc, rfl, fun _ => rfl, .kept (c.events_take hwriting hqueue) rfl id⟩
    · cases hst
  | write j ok =>
    cases ha
    simp only [serverStep] at hst
    split at hst
    · rename_i frame hget
      obtain ⟨c, hc, hwriting⟩ := Option.map_eq_some_iff.mp hget
      split_ifs at hst
      · cases hst
        exact ⟨c, _, hc, rfl, fun _ => rfl, .kept (c.events_write hwriting) rfl id⟩
      · cases hst
        exact ⟨c, _, hc, rfl, fun _ => rfl, .closed rfl⟩
    · cases hst
  | hangUp j =>
    cases ha
    simp only [serverStep] at hst
    split at hst
    · rename_i c hget
      split_ifs at hst
      cases hst
      exact ⟨c, _, hget, rfl, fun _ => rfl, .kept rfl rfl id⟩
    · cases hst
  | abort j =>
    cases ha
    simp only [serverStep] at hst
    split at hst
    · rename_i c hget
      split_ifs at hst
      cases hst
      exact ⟨c, _, hget, rfl, fun _ => rfl, .closed rfl⟩
    · cases hst
  | unregister j =>
    cases ha
    simp only [serverStep] at hst
    split at hst
    · rename_i c hget
      split_ifs at hst
      cases hst
      exact ⟨c, _, hget, rfl, fun _ => rfl,
        .kept rfl rfl fun hconnected => absurd hconnected.1 (by simp)⟩
    · cases hst

theorem getElem?_modifyClient (s : ServerState) (i : ℕ) (f : ClientConnection → ClientConnection)
    (j : ℕ) : (s.modifyClient i f).clients[j]? =
      s.clients[j]?.map fun c => if i = j then f c else c :=
  List.getElem?_modify f i s.clients j

/-- One client changes, and the broadcasting task perhaps goes on from it. -/
theorem ServerInv.modify (h : ServerInv s) {i : ℕ} {c : ClientConnection}
    (hget : s.clients[i]? = some c) {f : ClientConnection → ClientConnection}
    (hsince : ∀ c, (f c).since = c.since) {stage : BroadcastStage} (hrunning : stage ≠ .stopped)
    (hcollecting : ∀ k, stage = .collecting k → s.next = k + 1)
    (hsending : ∀ k targets dead, stage = .sending k targets dead → s.next = k + 1 ∧
      targets.Nodup ∧ ∀ i ∈ targets, ∃ c, s.clients[i]? = some c ∧ c.since ≤ k)
    (hupcoming : { s with stage := stage }.upcoming = s.upcoming)
    (htried : ∀ j, i ≠ j → { s with stage := stage }.tried j = s.tried j)
    (hf : (f c).Delivered ({ s with stage := stage }.tried i)) :
    ServerInv ({ s with stage := stage }.modifyClient i f) := by
  have hsince' (j : ℕ) (d : ClientConnection) : (if i = j then f d else d).since = d.since := by
    split_ifs
    · exact hsince d
    · rfl
  refine ⟨h.keepsUp, h.next_le, hrunning, hcollecting, ?_, ?_, ?_⟩
  · intro k targets dead hstage
    obtain ⟨hnext, hnodup, htargets⟩ := hsending k targets dead hstage
    refine ⟨hnext, hnodup, fun j hj => ?_⟩
    obtain ⟨d, hd, hle⟩ := htargets j hj
    exact ⟨_, by rw [getElem?_modifyClient, hd]; rfl, (hsince' j d).symm ▸ hle⟩
  · intro d hd
    obtain ⟨j, hj⟩ := List.getElem?_of_mem hd
    rw [getElem?_modifyClient] at hj
    obtain ⟨d', hd', rfl⟩ := Option.map_eq_some_iff.mp hj
    show (if i = j then f d' else d').since ≤ { s with stage := stage }.upcoming
    rw [hsince', hupcoming]
    exact h.since d' (List.mem_of_getElem? hd')
  · intro j d hd
    rw [getElem?_modifyClient] at hd
    obtain ⟨d', hd', rfl⟩ := Option.map_eq_some_iff.mp hd
    show (if i = j then f d' else d').Delivered ({ s with stage := stage }.tried j)
    split_ifs with hij
    · subst hij
      rw [hget] at hd'
      cases hd'
      exact hf
    · rw [htried j hij]
      exact h.clients j d' hd'

/-- One client changes; the broadcasting task stays where it is. -/
theorem ServerInv.modifyClient (h : ServerInv s) {i : ℕ} {c : ClientConnection}
    (hget : s.clients[i]? = some c) {f : ClientConnection → ClientConnection}
    (hsince : ∀ c, (f c).since = c.since) (hf : (f c).Delivered (s.tried i)) :
    ServerInv (s.modifyClient i f) :=
  h.modify hget hsince h.running h.collecting h.sending rfl (fun _ _ => rfl) hf

/-- A client connects. -/
theorem ServerInv.connect (h : ServerInv s) :
    ServerInv { s with
      clients := s.clients ++ [ClientConnection.new s.upcoming] } := by
  refine ⟨h.keepsUp, h.next_le, h.running, h.collecting, ?_, ?_, ?_⟩
  · intro k targets dead hstage
    obtain ⟨hnext, hnodup, htargets⟩ := h.sending k targets dead hstage
    refine ⟨hnext, hnodup, fun i hi => ?_⟩
    obtain ⟨c, hc, hle⟩ := htargets i hi
    obtain ⟨hlt, -⟩ := List.getElem?_eq_some_iff.mp hc
    exact ⟨c, by rw [List.getElem?_append_left hlt, hc], hle⟩
  · intro c hc
    rcases List.mem_append.mp hc with hc | hc
    · exact h.since c hc
    · rw [List.mem_singleton.mp hc]
      exact Nat.le_refl _
  · intro i c hc
    rcases Nat.lt_or_ge i s.clients.length with hlt | hge
    · rw [List.getElem?_append_left hlt] at hc
      exact h.clients i c hc
    · rw [List.getElem?_append_right hge, List.getElem?_singleton] at hc
      split_ifs at hc
      cases hc
      -- Nothing has been tried for it that counts from `since` on.
      have htried : s.tried i ≤ s.upcoming := by
        unfold ServerState.tried ServerState.upcoming
        cases hstage : s.stage with
        | sending k targets dead =>
          have hnext := (h.sending k targets dead hstage).1
          show (if i ∈ targets then k else k + 1) ≤ s.next
          split_ifs <;> omega
        | receiving | collecting _ | stopped => exact Nat.le_refl _
      refine ⟨List.Pairwise.nil, fun k hk => absurd hk List.not_mem_nil, ?_⟩
      intro _ k hk hlt
      exact absurd (Nat.lt_of_le_of_lt hk (Nat.lt_of_lt_of_le hlt htried)) (Nat.lt_irrefl _)

/-- The broadcasting task receives an event. -/
theorem ServerInv.recv (h : ServerInv s) (hstage : s.stage = .receiving)
    (hlt : s.next < s.sent.length) :
    ServerInv { s with next := s.next + 1, stage := .collecting s.next } := by
  have htried (i : ℕ) : s.tried i = s.next := by rw [ServerState.tried, hstage]
  have hupcoming : s.upcoming = s.next := by rw [ServerState.upcoming, hstage]
  refine ⟨?_, hlt, by simp, ?_, by simp, ?_, ?_⟩
  · have hkeep := h.keepsUp
    show s.sent.length ≤ s.next + 1 + eventCapacity
    omega
  · intro k hk
    cases hk
    rfl
  · intro c hc
    exact hupcoming ▸ h.since c hc
  · intro i c hc
    exact htried i ▸ h.clients i c hc

theorem mem_registered {i : ℕ} :
    i ∈ s.registered ↔ ∃ c, s.clients[i]? = some c ∧ c.registered = true := by
  unfold ServerState.registered
  rw [List.mem_filter, List.mem_range]
  constructor
  · rintro ⟨hlt, hreg⟩
    rw [List.getElem?_eq_getElem hlt] at hreg
    exact ⟨_, List.getElem?_eq_getElem hlt, by simpa using hreg⟩
  · rintro ⟨c, hc, hreg⟩
    obtain ⟨hlt, -⟩ := List.getElem?_eq_some_iff.mp hc
    exact ⟨hlt, by rw [hc]; simpa using hreg⟩

/-- It takes the senders of the clients in the map. -/
theorem ServerInv.collect (h : ServerInv s) {k : ℕ} (hstage : s.stage = .collecting k) :
    ServerInv { s with stage := .sending k s.registered [] } := by
  have hnext := h.collecting k hstage
  have hupcoming : s.upcoming = k := by rw [ServerState.upcoming, hstage]
  have htried (i : ℕ) : s.tried i = k := by rw [ServerState.tried, hstage]
  refine ⟨h.keepsUp, h.next_le, by simp, by simp, ?_, ?_, ?_⟩
  · intro k' targets dead heq
    cases heq
    refine ⟨hnext, List.nodup_range.filter _, fun i hi => ?_⟩
    obtain ⟨c, hc, -⟩ := mem_registered.mp hi
    exact ⟨c, hc, hupcoming ▸ h.since c (List.mem_of_getElem? hc)⟩
  · intro c hc
    have hle := h.since c hc
    show c.since ≤ s.next
    omega
  · intro i c hc
    have hdel := h.clients i c hc
    rw [htried] at hdel
    show c.Delivered (if i ∈ s.registered then k else k + 1)
    split_ifs with hi
    · exact hdel
    · apply hdel.of_sublist (List.Sublist.refl _) rfl (Nat.le_succ k)
      intro hconnected
      exact hi (mem_registered.mpr ⟨c, hc, hconnected.1⟩)

/-- It tries the next client. -/
theorem ServerInv.trySend (h : ServerInv s) {k i : ℕ} {targets dead dead' : List ℕ}
    (hstage : s.stage = .sending k (i :: targets) dead) :
    ServerInv ({ s with stage := .sending k targets dead' }.modifyClient i (·.trySend k)) := by
  obtain ⟨hnext, hnodup, htargets⟩ := h.sending k _ dead hstage
  obtain ⟨hnot, hnodup'⟩ := List.nodup_cons.mp hnodup
  obtain ⟨c, hc, hle⟩ := htargets i List.mem_cons_self
  have htried (j : ℕ) : s.tried j = if j ∈ i :: targets then k else k + 1 := by
    rw [ServerState.tried, hstage]
  apply h.modify hc (fun c => c.since_trySend k) (by simp) (by simp)
  · intro k' targets' dead'' heq
    cases heq
    exact ⟨hnext, hnodup', fun j hj => htargets j (List.mem_cons_of_mem _ hj)⟩
  · show s.next = s.upcoming
    rw [ServerState.upcoming, hstage]
  · intro j hij
    show (if j ∈ targets then k else k + 1) = s.tried j
    rw [htried]
    simp [Ne.symm hij]
  · show (c.trySend k).Delivered (if i ∈ targets then k else k + 1)
    have hdel := h.clients i c hc
    rw [htried, if_pos List.mem_cons_self] at hdel
    rw [if_neg hnot]
    exact hdel.trySend hle

/-- It has tried all clients. -/
theorem ServerInv.removeDead (h : ServerInv s) {k : ℕ} {dead : List ℕ}
    (hstage : s.stage = .sending k [] dead) :
    ServerInv { s with
      stage := .receiving
      clients := s.clients.mapIdx fun i c =>
        if i ∈ dead then { c with registered := false } else c } := by
  obtain ⟨hnext, -, -⟩ := h.sending k [] dead hstage
  have hupcoming : s.upcoming = s.next := by rw [ServerState.upcoming, hstage]
  have htried (i : ℕ) : s.tried i = s.next := by
    rw [ServerState.tried, hstage, hnext]
    exact if_neg List.not_mem_nil
  refine ⟨h.keepsUp, h.next_le, by simp, by simp, by simp, ?_, ?_⟩
  · intro c hc
    obtain ⟨i, hi⟩ := List.getElem?_of_mem hc
    rw [List.getElem?_mapIdx] at hi
    obtain ⟨d, hd, rfl⟩ := Option.map_eq_some_iff.mp hi
    have hle := h.since d (List.mem_of_getElem? hd)
    rw [hupcoming] at hle
    show (if i ∈ dead then { d with registered := false } else d : ClientConnection).since ≤ s.next
    split_ifs <;> exact hle
  · intro i c hc
    rw [List.getElem?_mapIdx] at hc
    obtain ⟨d, hd, rfl⟩ := Option.map_eq_some_iff.mp hc
    have hdel := h.clients i d hd
    rw [htried] at hdel
    show ClientConnection.Delivered (if i ∈ dead then { d with registered := false } else d) s.next
    split_ifs
    · exact hdel.congr rfl rfl rfl fun hconnected => absurd hconnected.1 (by simp)
    · exact hdel

theorem ServerInv.not_lags (h : ServerInv s) : ¬Lags eventCapacity s.sent s.next := by
  have hkeep := h.keepsUp
  unfold Lags
  omega

/-- A client's own tasks take a step. -/
theorem ServerInv.clientStep (h : ServerInv s) {a : ServerAction} {i : ℕ} {o : List Empty}
    (ha : a.client? = some i) (hst : serverStep s a = some (s', o)) : ServerInv s' := by
  obtain ⟨c, f, hget, rfl, hsince, hchange⟩ := serverStep_client ha hst
  apply h.modifyClient hget hsince
  cases hchange with
  | kept hevents hlost hconnected =>
    exact (h.clients i c hget).congr hevents (hsince c) hlost hconnected
  | closed hclose =>
    rw [hclose]
    apply (h.clients i c hget).of_sublist c.events_close rfl (Nat.le_refl _)
    exact fun hconnected => absurd hconnected.2 (by simp [ClientConnection.close])

theorem ServerInv.step {a : ServerAction} {o : List Empty} (h : ServerInv s)
    (hok : KeepsUp s a) (hst : serverStep s a = some (s', o)) : ServerInv s' := by
  cases a with
  | emit event =>
    cases hst
    have hnext := h.next_le
    refine ⟨?_, ?_, h.running, h.collecting, h.sending, h.since, h.clients⟩
    · show (s.sent ++ [event]).length ≤ s.next + eventCapacity
      rw [List.length_append]
      exact hok
    · show s.next ≤ (s.sent ++ [event]).length
      rw [List.length_append]
      omega
  | connect =>
    cases hst
    exact h.connect
  | recv =>
    simp only [serverStep] at hst
    split at hst
    · rename_i event next hstage hrecv
      cases hst
      obtain ⟨-, hevent, rfl⟩ := recv_value hrecv
      obtain ⟨hlt, -⟩ := List.getElem?_eq_some_iff.mp hevent
      exact h.recv hstage hlt
    · rename_i missed next hstage hrecv
      exact absurd (recv_lagged hrecv) h.not_lags
    · cases hst
  | collect =>
    simp only [serverStep] at hst
    split at hst
    · rename_i k hstage
      cases hst
      exact h.collect hstage
    · cases hst
  | trySend =>
    simp only [serverStep] at hst
    split at hst
    · rename_i k i targets dead hstage
      split at hst
      · cases hst
        exact h.trySend hstage
      · cases hst
    · cases hst
  | removeDead =>
    simp only [serverStep] at hst
    split at hst
    · rename_i k dead hstage
      cases hst
      exact h.removeDead hstage
    · cases hst
  | reserve | respond | take | write | hangUp | abort | unregister =>
    exact h.clientStep rfl hst

end Steps

theorem ServerInv.init : ServerInv server.init where
  keepsUp := Nat.zero_le _
  next_le := Nat.le_refl _
  running := by simp [server]
  collecting := by simp [server]
  sending := by simp [server]
  since := fun _ hc => absurd hc List.not_mem_nil
  clients := fun _ _ hc => by cases hc

theorem reachable_serverInv {s : ServerState} (h : server.Reachable KeepsUp s) : ServerInv s :=
  h.invariant (I := ServerInv) ServerInv.init fun _ _ _ _ hi hok hst => hi.step hok hst

/-! ## Events that are still to come -/

section Drain

variable {s : ServerState}

/-- The broadcasting task can receive everything that has been sent. -/
def CanDrain (s : ServerState) : Prop :=
  ∃ tr t, server.Run KeepsUp s tr t ∧ t.stage = .receiving ∧ t.sent = s.sent ∧
    t.next = s.sent.length

theorem CanDrain.of_step {t : ServerState} {a : ServerAction} {o : List Empty} (hok : KeepsUp s a)
    (hst : serverStep s a = some (t, o)) (hsent : t.sent = s.sent) (h : CanDrain t) :
    CanDrain s := by
  obtain ⟨tr, u, hr, hstage, husent, hnext⟩ := h
  exact ⟨_, u, hr.cons hok hst, hstage, husent.trans hsent, hsent ▸ hnext⟩

theorem canDrain_sending {k : ℕ} {targets dead : List ℕ} (h : ServerInv s)
    (hstage : s.stage = .sending k targets dead)
    (hreceiving : ∀ t : ServerState, ServerInv t → t.stage = .receiving → t.sent = s.sent →
      t.next = s.next → CanDrain t) : CanDrain s := by
  induction targets generalizing s dead with
  | nil =>
    have hst : serverStep s .removeDead = some ({ s with
        stage := .receiving
        clients := s.clients.mapIdx fun i c =>
          if i ∈ dead then { c with registered := false } else c }, []) := by
      simp only [serverStep, hstage]
    apply CanDrain.of_step (a := .removeDead) trivial hst rfl
    exact hreceiving _ (h.removeDead hstage) rfl rfl rfl
  | cons i targets ih =>
    obtain ⟨-, -, htargets⟩ := h.sending k _ dead hstage
    obtain ⟨c, hc, -⟩ := htargets i List.mem_cons_self
    have hst : serverStep s .trySend = some (ServerState.modifyClient
        { s with stage := .sending k targets (if c.receiving then dead else dead ++ [i]) }
          i (·.trySend k), []) := by
      simp only [serverStep, hstage, hc]
    apply CanDrain.of_step (a := .trySend) trivial hst rfl
    exact ih (h.trySend hstage) rfl hreceiving

theorem canDrain_collecting {k : ℕ} (h : ServerInv s) (hstage : s.stage = .collecting k)
    (hreceiving : ∀ t : ServerState, ServerInv t → t.stage = .receiving → t.sent = s.sent →
      t.next = s.next → CanDrain t) : CanDrain s := by
  have hst : serverStep s .collect =
      some ({ s with stage := .sending k s.registered [] }, []) := by
    simp only [serverStep, hstage]
  apply CanDrain.of_step (a := .collect) trivial hst rfl
  exact canDrain_sending (h.collect hstage) rfl hreceiving

theorem canDrain_receiving (n : ℕ) : ∀ s : ServerState, ServerInv s → s.stage = .receiving →
    s.sent.length - s.next = n → CanDrain s := by
  induction n with
  | zero =>
    intro s h hstage hn
    have hle := h.next_le
    exact ⟨[], s, .nil s, hstage, rfl, by omega⟩
  | succ n ih =>
    intro s h hstage hn
    have hlt : s.next < s.sent.length := by omega
    have hst : serverStep s .recv =
        some ({ s with next := s.next + 1, stage := .collecting s.next }, []) := by
      simp only [serverStep, hstage, recv_of_lt h.not_lags hlt]
    apply CanDrain.of_step (a := .recv) trivial hst rfl
    apply canDrain_collecting (h.recv hstage hlt) rfl
    intro t ht htstage hsent hnext
    apply ih t ht htstage
    rw [hsent, hnext]
    show s.sent.length - (s.next + 1) = n
    omega

theorem ServerInv.canDrain (h : ServerInv s) : CanDrain s := by
  have hreceiving : ∀ t : ServerState, ServerInv t → t.stage = .receiving → t.sent = s.sent →
      t.next = s.next → CanDrain t :=
    fun t ht hstage _ _ => canDrain_receiving _ t ht hstage rfl
  cases hstage : s.stage with
  | receiving => exact hreceiving s h hstage rfl rfl
  | collecting k => exact canDrain_collecting h hstage hreceiving
  | sending k targets dead => exact canDrain_sending h hstage hreceiving
  | stopped => exact absurd hstage h.running

end Drain

/-! ## After a lag -/

/-- The events that were tried for the client. -/
def ClientConnection.offered (c : ClientConnection) : List ℕ := c.events ++ c.lost

/-- The event that the broadcasting task is handing out. -/
def ServerState.current (s : ServerState) : Option ℕ :=
  match s.stage with
  | .collecting k => some k
  | .sending k _ _ => some k
  | _ => none

/-- No event from number `n` on has been tried or received. -/
structure Below (n : ℕ) (s : ServerState) : Prop where
  offered : ∀ c ∈ s.clients, ∀ k ∈ c.offered, k < n
  current : ∀ k, s.current = some k → k < n

/-- The broadcasting task has ended, or will at its next `recv`. -/
def HasLagged (s : ServerState) : Prop :=
  s.stage = .stopped ∨ Lags eventCapacity s.sent s.next

namespace ClientConnection

variable {c : ClientConnection} {n k : ℕ}

theorem mem_offered : k ∈ c.offered ↔ k ∈ c.events ∨ k ∈ c.lost := List.mem_append

theorem offered_trySend (h : ∀ j ∈ c.offered, j < n) (hk : k < n) :
    ∀ j ∈ (c.trySend k).offered, j < n := by
  have hlost : ∀ j ∈ c.lost, j < n := fun j hj => h j (mem_offered.mpr (.inr hj))
  have hevents : ∀ j ∈ c.events, j < n := fun j hj => h j (mem_offered.mpr (.inl hj))
  intro j hj
  unfold trySend at hj
  split_ifs at hj
  · rw [mem_offered, c.events_push k] at hj
    rcases hj with hj | hj
    · rcases List.mem_append.mp hj with hj | hj
      · exact hevents j hj
      · rw [List.mem_singleton.mp hj]
        exact hk
    · exact hlost j hj
  · rcases mem_offered.mp hj with hj | hj
    · exact hevents j hj
    · rcases List.mem_append.mp hj with hj | hj
      · exact hlost j hj
      · rw [List.mem_singleton.mp hj]
        exact hk
  · exact h j hj

theorem offered_close (h : ∀ j ∈ c.offered, j < n) : ∀ j ∈ c.close.offered, j < n := by
  intro j hj
  rcases mem_offered.mp hj with hj | hj
  · exact h j (mem_offered.mpr (.inl (c.events_close.subset hj)))
  · exact h j (mem_offered.mpr (.inr hj))

end ClientConnection

section Lagged

variable {s s' : ServerState} {n : ℕ}

theorem Below.mono {m : ℕ} (h : Below n s) (hle : n ≤ m) : Below m s where
  offered := fun c hc k hk => Nat.lt_of_lt_of_le (h.offered c hc k hk) hle
  current := fun k hk => Nat.lt_of_lt_of_le (h.current k hk) hle

theorem Below.modifyClient (h : Below n s) {i : ℕ} {c : ClientConnection}
    (hget : s.clients[i]? = some c) {f : ClientConnection → ClientConnection}
    (hf : ∀ k ∈ (f c).offered, k < n) : Below n (s.modifyClient i f) where
  offered := by
    intro d hd
    obtain ⟨j, hj⟩ := List.getElem?_of_mem hd
    rw [getElem?_modifyClient] at hj
    obtain ⟨d', hd', rfl⟩ := Option.map_eq_some_iff.mp hj
    split_ifs with hij
    · subst hij
      rw [hget] at hd'
      cases hd'
      exact hf
    · exact h.offered d' (List.mem_of_getElem? hd')
  current := h.current

theorem Below.clientStep (h : Below n s) {a : ServerAction} {i : ℕ} {o : List Empty}
    (ha : a.client? = some i) (hst : serverStep s a = some (s', o)) : Below n s' := by
  obtain ⟨c, f, hget, rfl, -, hchange⟩ := serverStep_client ha hst
  have hc := h.offered c (List.mem_of_getElem? hget)
  apply h.modifyClient hget
  cases hchange with
  | kept hevents hlost =>
    rw [ClientConnection.offered, hevents, hlost]
    exact hc
  | closed hclose =>
    rw [hclose]
    exact ClientConnection.offered_close hc

theorem Below.step {a : ServerAction} {o : List Empty} (h : Below n s)
    (hst : serverStep s a = some (s', o))
    (hrecv : ∀ e next, a = .recv → recv eventCapacity s.sent s.next = (.value e, next) →
      s.next < n) :
    Below n s' := by
  cases a with
  | emit event =>
    cases hst
    exact ⟨h.offered, h.current⟩
  | connect =>
    cases hst
    refine ⟨fun c hc => ?_, h.current⟩
    rcases List.mem_append.mp hc with hc | hc
    · exact h.offered c hc
    · rw [List.mem_singleton.mp hc]
      exact fun k hk => absurd hk List.not_mem_nil
  | recv =>
    simp only [serverStep] at hst
    split at hst
    · rename_i event next _ hvalue
      cases hst
      refine ⟨h.offered, fun k hk => ?_⟩
      cases hk
      exact hrecv event next rfl hvalue
    · cases hst
      exact ⟨h.offered, fun k hk => by cases hk⟩
    · cases hst
  | collect =>
    simp only [serverStep] at hst
    split at hst
    · rename_i k hstage
      cases hst
      refine ⟨h.offered, fun j hj => ?_⟩
      cases hj
      exact h.current k (by rw [ServerState.current, hstage])
    · cases hst
  | trySend =>
    simp only [serverStep] at hst
    split at hst
    · rename_i k i targets dead hstage
      split at hst
      · rename_i c hget
        cases hst
        have hk : k < n := h.current k (by rw [ServerState.current, hstage])
        have hnew (dead' : List ℕ) : Below n { s with stage := .sending k targets dead' } := by
          refine ⟨h.offered, fun j hj => ?_⟩
          cases hj
          exact hk
        apply (hnew _).modifyClient hget
        exact ClientConnection.offered_trySend (h.offered c (List.mem_of_getElem? hget)) hk
      · cases hst
    · cases hst
  | removeDead =>
    simp only [serverStep] at hst
    split at hst
    · rename_i k dead hstage
      cases hst
      refine ⟨fun c hc => ?_, fun k hk => by cases hk⟩
      obtain ⟨i, hi⟩ := List.getElem?_of_mem hc
      rw [List.getElem?_mapIdx] at hi
      obtain ⟨d, hd, rfl⟩ := Option.map_eq_some_iff.mp hi
      split_ifs
      · exact h.offered d (List.mem_of_getElem? hd)
      · exact h.offered d (List.mem_of_getElem? hd)
    · cases hst
  | reserve | respond | take | write | hangUp | abort | unregister =>
    exact h.clientStep rfl hst

theorem HasLagged.step {a : ServerAction} {o : List Empty} (h : HasLagged s)
    (hst : serverStep s a = some (s', o)) : HasLagged s' := by
  cases a with
  | emit event =>
    cases hst
    rcases h with h | h
    · exact .inl h
    · exact .inr (h.append [event])
  | connect =>
    cases hst
    exact h
  | recv =>
    simp only [serverStep] at hst
    split at hst
    · rename_i event next hstage hvalue
      rcases h with h | h
      · rw [hstage] at h
        cases h
      · exact absurd h (recv_value hvalue).1
    · cases hst
      exact .inl rfl
    · cases hst
  | collect =>
    simp only [serverStep] at hst
    split at hst
    · rename_i k hstage
      cases hst
      exact .inr (h.resolve_left (by simp [hstage]))
    · cases hst
  | trySend =>
    simp only [serverStep] at hst
    split at hst
    · rename_i k i targets dead hstage
      split at hst
      · cases hst
        exact .inr (h.resolve_left (by simp [hstage]))
      · cases hst
    · cases hst
  | removeDead =>
    simp only [serverStep] at hst
    split at hst
    · rename_i k dead hstage
      cases hst
      exact .inr (h.resolve_left (by simp [hstage]))
    · cases hst
  | reserve | respond | take | write | hangUp | abort | unregister =>
    obtain ⟨c, f, -, rfl, -⟩ := serverStep_client rfl hst
    exact h

/-- The position of the broadcasting task only moves when it receives. -/
theorem serverStep_next {a : ServerAction} {o : List Empty}
    (hst : serverStep s a = some (s', o)) (ha : a ≠ .recv) : s'.next = s.next := by
  cases a with
  | recv => exact absurd rfl ha
  | emit | connect => cases hst; rfl
  | collect | removeDead =>
    simp only [serverStep] at hst
    split at hst
    · cases hst
      rfl
    · cases hst
  | trySend =>
    simp only [serverStep] at hst
    split at hst
    · split at hst
      · cases hst
        rfl
      · cases hst
    · cases hst
  | reserve | respond | take | write | hangUp | abort | unregister =>
    obtain ⟨c, f, -, rfl, -⟩ := serverStep_client rfl hst
    rfl

theorem serverStep_recv {o : List Empty} (hst : serverStep s .recv = some (s', o)) :
    s.next < s'.next := by
  simp only [serverStep] at hst
  split at hst
  · rename_i event next _ hvalue
    cases hst
    obtain ⟨-, -, rfl⟩ := recv_value hvalue
    exact Nat.lt_succ_self _
  · rename_i missed next _ hlagged
    cases hst
    exact recv_lagged_lt hlagged
  · cases hst

/-- No event from the position of the broadcasting task on has been tried. -/
theorem reachable_below (h : server.Reachable Machine.anyStep s) : Below s.next s := by
  apply h.invariant (I := fun s => Below s.next s)
  · exact ⟨fun _ hc => absurd hc List.not_mem_nil, fun _ hk => by cases hk⟩
  · intro s a t o hbelow _ hst
    by_cases ha : a = .recv
    · subst ha
      replace hst : serverStep s .recv = some (t, o) := hst
      have hlt := serverStep_recv hst
      exact (hbelow.mono (Nat.le_of_lt hlt)).step hst fun _ _ _ _ => hlt
    · rw [serverStep_next hst ha]
      exact hbelow.step hst fun _ _ heq => absurd heq ha

/-- After a lag no later event is tried for any client. -/
theorem below_of_hasLagged {tr : List (ServerAction × List Empty)} {t : ServerState}
    (hlagged : HasLagged s) (hbelow : Below n s) (hr : server.Run Machine.anyStep s tr t) :
    Below n t := by
  have hinv : HasLagged t ∧ Below n t := by
    apply hr.invariant (I := fun t => HasLagged t ∧ Below n t) ⟨hlagged, hbelow⟩
    rintro s a t o ⟨hlagged, hbelow⟩ _ hst
    refine ⟨hlagged.step hst, hbelow.step hst fun e next ha hvalue => ?_⟩
    subst ha
    -- A task that lags does not receive a value.
    rcases hlagged with hstopped | hlags
    · replace hst : serverStep s .recv = some (t, o) := hst
      simp [serverStep, hstopped] at hst
    · exact absurd hlags (recv_value hvalue).1
  exact hinv.2

/-- The task sees that it lags, and ends. -/
theorem serverStep_lagged (hstage : s.stage = .receiving)
    (hlags : Lags eventCapacity s.sent s.next) :
    ∃ t, serverStep s .recv = some (t, []) ∧ t.stage = .stopped ∧ t.sent = s.sent ∧
      t.clients = s.clients := by
  obtain ⟨missed, next, hrecv⟩ := recv_of_lags hlags
  exact ⟨{ s with next := next, stage := .stopped }, by simp only [serverStep, hstage, hrecv], rfl,
    rfl, rfl⟩

/-- An event is sent while 1024 events wait. -/
theorem hasLagged_of_not_keepsUp {a : ServerAction} {o : List Empty} (hok : ¬KeepsUp s a)
    (hst : serverStep s a = some (s', o)) : HasLagged s' ∧ s'.next = s.next := by
  cases a with
  | emit event =>
    cases hst
    refine ⟨.inr ?_, rfl⟩
    have hfull : ¬s.sent.length < s.next + eventCapacity := hok
    show s.next + eventCapacity < (s.sent ++ [event]).length
    rw [List.length_append, List.length_singleton]
    omega
  | _ => exact absurd trivial hok

end Lagged

/-- An event is lost only while 256 frames are queued for the client or reserved. -/
theorem ClientConnection.lost_trySend {c : ClientConnection} {k : ℕ}
    (h : (c.trySend k).lost ≠ c.lost) : clientCapacity ≤ c.queue.length + c.reserved := by
  unfold trySend at h
  split_ifs at h with hreceiving hroom
  · exact absurd rfl h
  · simpa [hasRoom] using hroom
  · exact absurd rfl h

theorem serverStep_lost {s s' : ServerState} {a : ServerAction} {o : List Empty}
    (hst : serverStep s a = some (s', o)) {i : ℕ} {c c' : ClientConnection}
    (hc : s.clients[i]? = some c) (hc' : s'.clients[i]? = some c') (hne : c'.lost ≠ c.lost) :
    clientCapacity ≤ c.queue.length + c.reserved := by
  -- a step that leaves the client as it is loses nothing
  have hkept (h : s'.clients[i]? = s.clients[i]?) :
      clientCapacity ≤ c.queue.length + c.reserved := by
    rw [hc, hc', Option.some.injEq] at h
    exact absurd (congrArg ClientConnection.lost h) hne
  cases a with
  | emit event =>
    cases hst
    exact hkept rfl
  | connect =>
    cases hst
    exact hkept (List.getElem?_append_left (List.getElem?_eq_some_iff.mp hc).1)
  | recv =>
    simp only [serverStep] at hst
    split at hst
    · cases hst
      exact hkept rfl
    · cases hst
      exact hkept rfl
    · cases hst
  | collect =>
    simp only [serverStep] at hst
    split at hst
    · cases hst
      exact hkept rfl
    · cases hst
  | trySend =>
    simp only [serverStep] at hst
    split at hst
    · rename_i k target targets dead hstage
      split at hst
      · cases hst
        rw [getElem?_modifyClient, hc] at hc'
        cases hc'
        split_ifs at hne
        · exact ClientConnection.lost_trySend hne
        · exact absurd rfl hne
      · cases hst
    · cases hst
  | removeDead =>
    simp only [serverStep] at hst
    split at hst
    · cases hst
      rw [List.getElem?_mapIdx, hc] at hc'
      cases hc'
      split_ifs at hne <;> exact absurd rfl hne
    · cases hst
  | reserve | respond | take | write | hangUp | abort | unregister =>
    obtain ⟨d, f, hd, rfl, -, hchange⟩ := serverStep_client rfl hst
    rw [getElem?_modifyClient, hc] at hc'
    cases hc'
    split_ifs at hne with heq
    · subst heq
      cases hc.symm.trans hd
      cases hchange with
      | kept hevents hlost => exact absurd hlost hne
      | closed hclose =>
        change (f c).lost ≠ c.lost at hne
        rw [hclose] at hne
        exact absurd rfl hne
    · exact absurd rfl hne

/-- In every run in which no event is sent while 1024 events wait, the broadcasting
    task goes on, every client has got each event from the first one after it
    registered up to the last one tried for it, in order and once, except those
    that a full queue has lost, and the task can go on to the last event sent.
    A client loses an event only while 256 frames are queued for it or reserved. After a
    step that sends an event while 1024 wait, no client ever gets any event that the
    task had not received by then. -/
theorem broadcast_delivers (s : ServerState) :
    (server.Reachable KeepsUp s → s.stage ≠ .stopped ∧
      (∀ (i : ℕ) (c : ClientConnection), s.clients[i]? = some c → c.Delivered (s.tried i)) ∧
      CanDrain s) ∧
    (∀ a s' o, server.step s a = some (s', o) → ∀ (i : ℕ) (c c' : ClientConnection),
      s.clients[i]? = some c → s'.clients[i]? = some c' → c'.lost ≠ c.lost →
      clientCapacity ≤ c.queue.length + c.reserved) ∧
    ∀ a s' o, server.Reachable Machine.anyStep s → ¬KeepsUp s a → server.step s a = some (s', o) →
      ∀ tr t, server.Run Machine.anyStep s' tr t → ∀ c ∈ t.clients, ∀ k ∈ c.events, k < s.next := by
  refine ⟨?_, fun a s' o hst i c c' hc hc' hne => serverStep_lost hst hc hc' hne, ?_⟩
  · intro h
    have hinv := reachable_serverInv h
    exact ⟨hinv.running, hinv.clients, hinv.canDrain⟩
  · intro a s' o h hok hst tr t hr c hc k hk
    obtain ⟨hlagged, hnext⟩ := hasLagged_of_not_keepsUp hok hst
    have hbelow := reachable_below (h.step trivial hst)
    rw [hnext] at hbelow
    exact (below_of_hasLagged hlagged hbelow hr).offered c hc k
      (ClientConnection.mem_offered.mpr (.inl hk))

/-! ## Two clients and a burst -/

/-- The event that stands for the others here. -/
def finished : IpcEvent := ⟨"execution.finished", .null⟩

/-- The next event is handed to both of two clients. -/
def handOut : List ServerAction :=
  [.emit finished, .recv, .collect, .trySend, .trySend, .removeDead]

/-- The first event is handed out; then 255 responses are on their way to the first client, and
    the second event has been received. -/
def fillActions : List ServerAction :=
  [.connect, .connect] ++ handOut ++ List.replicate 255 (.reserve 0) ++
    [.emit finished, .recv, .collect]

def bothActions : List ServerAction := fillActions ++ [.trySend, .trySend, .removeDead]

theorem fillActions_possible :
    (server.exec KeepsUp server.init fillActions).isSome = true := by decide +kernel

theorem bothActions_possible :
    (server.exec KeepsUp server.init bothActions).isSome = true := by decide +kernel

/-- The queue of the first client is full. -/
def whenFull : ServerState :=
  ((server.exec KeepsUp server.init fillActions).get fillActions_possible).2

theorem whenFull_trySend : (server.step whenFull .trySend).isSome = true := by decide +kernel

def afterLoss : ServerState × List Empty := (server.step whenFull .trySend).get whenFull_trySend

def afterBoth : ServerState :=
  ((server.exec KeepsUp server.init bothActions).get bothActions_possible).2

/-- One event is queued and 255 responses are on their way. -/
def fullClient : ClientConnection :=
  { ClientConnection.new 0 with reserved := 255, queue := [.event 0] }

def freeClient : ClientConnection :=
  { ClientConnection.new 0 with queue := [.event 0, .event 1] }

/-- Events are sent while the broadcasting task does nothing. -/
theorem run_burst (s : ServerState) (n : ℕ) :
    ∃ tr, server.Run Machine.anyStep s tr
      { s with sent := s.sent ++ List.replicate n finished } := by
  induction n with
  | zero => exact ⟨[], by simpa using .nil s⟩
  | succ n ih =>
    obtain ⟨tr, hr⟩ := ih
    refine ⟨_, hr.snoc (a := .emit finished) (o := []) trivial ?_⟩
    rw [List.replicate_succ', ← List.append_assoc]
    rfl

/-- One client is connected, and the events of a burst of `n` wait. -/
def afterBurst (n : ℕ) : ServerState where
  sent := List.replicate n finished
  next := 0
  stage := .receiving
  clients := [ClientConnection.new 0]

theorem reachable_afterBurst (n : ℕ) : server.Reachable Machine.anyStep (afterBurst n) := by
  have hconnect : server.step server.init .connect = some (afterBurst 0, []) := rfl
  obtain ⟨tr, hr⟩ := run_burst (afterBurst 0) n
  exact ⟨_, hr.cons trivial hconnect⟩

theorem lags_afterBurst {n : ℕ} (h : eventCapacity < n) :
    Lags eventCapacity (afterBurst n).sent (afterBurst n).next := by
  show 0 + eventCapacity < (List.replicate n finished).length
  rw [List.length_replicate]
  omega

/-- The second client gets both events, the first one only the first: its queue is full when
    the second comes. After the 1025th event that waits, no client gets any. -/
theorem broadcast_delivers_two :
    (afterBoth.clients = [{ fullClient with lost := [1] }, freeClient] ∧
      ({ fullClient with lost := [1] } : ClientConnection).Delivered 2 ∧ freeClient.Delivered 2) ∧
    clientCapacity ≤ fullClient.queue.length + fullClient.reserved ∧
    ∀ tr t, server.Run Machine.anyStep (afterBurst 1025) tr t →
      ∀ c ∈ t.clients, ∀ k ∈ c.events, k < 0 := by
  refine ⟨?_, ?_, ?_⟩
  · obtain ⟨-, hclients, -⟩ := (broadcast_delivers afterBoth).1
      ⟨_, Machine.exec_get_run bothActions_possible⟩
    have htried : afterBoth.tried 0 = 2 ∧ afterBoth.tried 1 = 2 := by decide +kernel
    have hboth : afterBoth.clients = [{ fullClient with lost := [1] }, freeClient] := by
      decide +kernel
    refine ⟨hboth, ?_, ?_⟩
    · exact htried.1 ▸ hclients 0 _ (congrArg (·[0]?) hboth)
    · exact htried.2 ▸ hclients 1 _ (congrArg (·[1]?) hboth)
  · have hst : server.step whenFull .trySend = some (afterLoss.1, afterLoss.2) := by
      rw [Prod.eta, afterLoss, Option.some_get]
    have hbefore : whenFull.clients[0]? = some fullClient := by decide +kernel
    have hafter : afterLoss.1.clients[0]? = some { fullClient with lost := [1] } := by
      decide +kernel
    exact (broadcast_delivers whenFull).2.1 _ _ _ hst 0 fullClient _ hbefore hafter (by decide)
  · have hst : server.step (afterBurst 1024) (.emit finished) = some (afterBurst 1025, []) := by
      show some (({ afterBurst 1024 with sent := _ } : ServerState), []) = _
      rw [show (afterBurst 1024).sent ++ [finished] = (afterBurst 1025).sent from
        List.replicate_succ'.symm]
      rfl
    have hfull : ¬KeepsUp (afterBurst 1024) (.emit finished) := by
      show ¬(List.replicate 1024 finished).length < 0 + eventCapacity
      rw [List.length_replicate]
      exact Nat.lt_irrefl _
    exact (broadcast_delivers _).2.2 _ _ _ (reachable_afterBurst 1024) hfull hst

/-- The burst was too long; one more event is sent when the broadcasting task has
    ended. No client is ever tried for any event. -/
theorem burst_fails {n : ℕ} (h : eventCapacity < n) :
    ∃ s, server.Reachable Machine.anyStep s ∧ s.sent.length = n + 1 ∧ s.stage = .stopped ∧
      s.clients = [ClientConnection.new 0] ∧
      ∀ tr t, server.Run Machine.anyStep s tr t → ∀ c ∈ t.clients, c.events = [] ∧ c.lost = [] := by
  have hlags := lags_afterBurst h
  obtain ⟨s, hrecv, hstopped, hsent, hclients⟩ := serverStep_lagged (s := afterBurst n) rfl hlags
  replace hrecv : server.step (afterBurst n) .recv = some (s, []) := hrecv
  have hemit : server.step s (.emit finished) =
      some ({ s with sent := s.sent ++ [finished] }, []) := rfl
  have hreachable := (reachable_afterBurst n).step trivial hrecv
  refine ⟨_, hreachable.step trivial hemit, ?_, hstopped, hclients, ?_⟩
  · show (s.sent ++ [finished]).length = n + 1
    rw [hsent, List.length_append]
    show (List.replicate n finished).length + 1 = n + 1
    rw [List.length_replicate]
  · intro tr t hr c hc
    have hrun := (hr.cons trivial hemit).cons trivial hrecv
    have hbelow := below_of_hasLagged (.inr hlags) (reachable_below (reachable_afterBurst n)) hrun
    have hnone : c.offered = [] :=
      List.eq_nil_iff_forall_not_mem.mpr fun k hk => Nat.not_lt_zero k (hbelow.offered c hc k hk)
    exact List.append_eq_nil_iff.mp hnone

/-- A client is connected while 1025 events are sent, which the broadcasting task
    receives too late. It sees the lag and ends, and of an event sent after that the
    client gets nothing, whatever happens then. -/
theorem broadcast_fails :
    ∃ s, server.Reachable Machine.anyStep s ∧ s.sent.length = 1026 ∧ s.stage = .stopped ∧
      s.clients = [ClientConnection.new 0] ∧
      ∀ tr t, server.Run Machine.anyStep s tr t → ∀ c ∈ t.clients, c.events = [] ∧ c.lost = [] := by
  have hlong : eventCapacity < 1025 := by decide
  exact burst_fails hlong

end EasyJob.Ipc
