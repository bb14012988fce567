import EasyJob.Persistence.TaskRepo
import EasyJob.Scheduler.Loop

/-!
# The agent service

Model of `apps/agent/src/service.rs` around the scheduler: the loading loop of
`AgentService::init_shared` (lines 66–96), the handlers of `task.save` and
`task.delete` (lines 640–692), of which the IPC server runs one for each request
(`crates/ipc/src/server.rs` lines 71–95), the receipt of trigger events by the
dispatcher of `run` (lines 211–219), and the two bounded channels between them.

The parties of the machine `service` take steps in any order. A handler writes
to the repository and later sends its command: two steps, between which others
are taken. The scheduler loop takes its turn and then sends the event of that
turn, if there is one. It can end by a panic; the sends into its channel then
return an error, which the senders ignore.

An output of the machine is a turn of the scheduler loop, so that the outputs
of a run are a run of `scheduler`.
-/

namespace EasyJob.Agent

open EasyJob.Chrono EasyJob.Domain EasyJob.Persistence EasyJob.Scheduler Transition

/-! ## Requests -/

/-- A request whose parameters have been parsed. -/
inductive Request
  | save (task : Task)
  | delete (id : TaskId)

def Request.taskId : Request → TaskId
  | .save task => task.id
  | .delete id => id

/-- The write of the handler; `none` if it fails. -/
def Request.write (db : Database) : Request → Option Database
  | .save task => db.save task
  | .delete id => some (db.delete id)

/-- What the handler sends once the write has succeeded. -/
def Request.command : Request → SchedulerCommand
  | .save task => .AddTask task
  | .delete id => .RemoveTask id

/-! ## The state -/

/-- The capacity of `mpsc::channel(100)`, for commands and for events. -/
def channelCapacity : ℕ := 100

structure ServiceState where
  db : Database
  /-- What the loading loop has still to send; it ends `init_shared`. -/
  loading : List SchedulerCommand
  /-- Handlers that have not yet written to the repository. -/
  accepted : List Request
  /-- Handlers that have written but not sent yet, in the order of their writes. -/
  committed : List Request
  /-- The channel from `scheduler_tx` to the loop. -/
  commands : List SchedulerCommand
  /-- The loop of `Scheduler::run`, or `none` once it has ended. -/
  scheduler : Option SchedulerState
  /-- The event that the loop waits to send. -/
  sending : Option TriggerEvent
  /-- The channel to `event_rx`. -/
  events : List TriggerEvent

/-- The body of the loading loop (lines 82–95): `add_task`, and `TriggerNow` if the
    task has an enabled `AgentStarted` trigger. -/
def loadCommands (task : Task) : List SchedulerCommand :=
  if task.triggers.any fun tr => tr.enabled && tr.kind == .AgentStarted then
    [.AddTask task, .TriggerNow task.id]
  else [.AddTask task]

/-! ## The steps -/

/-- The branch that the loop takes, with what it reads. -/
inductive Turn
  | receive (readings : ℕ → Reading)
  | fire (wake : DateTime) (reading : Reading)
  | tick (wall : DateTime) (mono : ℤ) (now : DateTime) (draws : TaskId → ℕ → ℕ → ℕ)
      (newWall : DateTime) (newMono : ℤ)

/-- The action of the loop, and the commands left in the channel. -/
def Turn.action (commands : List SchedulerCommand) :
    Turn → Option (Scheduler.Action × List SchedulerCommand)
  | .receive readings =>
    match commands with
    | [] => none
    | cmd :: rest => some (.command cmd readings, rest)
  | .fire wake reading => some (.fire wake reading, commands)
  | .tick wall mono now draws newWall newMono =>
    some (.tick wall mono now draws newWall newMono, commands)

inductive ServiceAction
  /-- A send of the loading loop returns. -/
  | load
  /-- The server starts the handler of a request. -/
  | accept (req : Request)
  /-- The write of a handler returns. It may fail for reasons of its own. -/
  | commit (i : ℕ) (ok : Bool)
  /-- The send of a handler returns, and so does the handler. -/
  | send (i : ℕ)
  /-- The loop takes a turn. -/
  | turn (t : Turn)
  /-- The loop panics in a turn. -/
  | stop (t : Turn)
  /-- `event_tx.send` returns. -/
  | deliver
  /-- The dispatcher receives an event. -/
  | dispatch

/-- `scheduler_tx.send(cmd).await` when it returns. Without a receiver it returns an
    error at once, which is ignored. -/
def ServiceState.offer (s : ServiceState) (cmd : SchedulerCommand) : Option ServiceState :=
  match s.scheduler with
  | none => some s
  | some _ =>
    if s.commands.length < channelCapacity then some { s with commands := s.commands ++ [cmd] }
    else none

/-- The event that a turn of the loop sends. -/
def eventOf (o : List Output) : Option TriggerEvent :=
  o.findSome? fun
    | .event ev => some ev
    | _ => none

theorem eventOf_evaluated (es : List Evaluation) (o : List Output) :
    eventOf (es.map .evaluated ++ o) = eventOf o := by
  induction es with
  | nil => rfl
  | cons ev es ih => exact ih

/-- The branch of the turn can be taken. -/
def Turn.enabled (sch : SchedulerState) : Turn → Bool
  | .fire _ _ => sch.queue.peekValid.1.isSome
  | .receive _ | .tick _ _ _ _ _ _ => true

/-- One step of the loading loop, a handler, the scheduler loop or the dispatcher. -/
def serviceStep (env : Env) (s : ServiceState) (a : ServiceAction) :
    Option (ServiceState × List (Scheduler.Action × List Output)) :=
  match a with
  | .load =>
    match s.loading with
    | [] => none
    | cmd :: rest => (({ s with loading := rest }).offer cmd).map fun s => (s, [])
  | .accept req =>
    -- the server runs after `init_shared`
    if s.loading.isEmpty then some ({ s with accepted := s.accepted ++ [req] }, []) else none
  | .commit i ok =>
    match s.accepted[i]? with
    | none => none
    | some req =>
      let s := { s with accepted := s.accepted.eraseIdx i }
      match if ok then req.write s.db else none with
      | none => some (s, [])
      | some db => some ({ s with db := db, committed := s.committed ++ [req] }, [])
  | .send i =>
    match s.committed[i]? with
    | none => none
    | some req =>
      (({ s with committed := s.committed.eraseIdx i }).offer req.command).map fun s => (s, [])
  | .turn t =>
    match s.scheduler, s.sending, t.action s.commands with
    | some sch, none, some (a, commands) =>
      (schedulerStep env sch a).map fun r =>
        ({ s with commands := commands, scheduler := some r.1, sending := eventOf r.2 },
          [(a, r.2)])
    | _, _, _ => none
  | .stop t =>
    match s.scheduler, s.sending, t.action s.commands with
    | some sch, none, some (a, _) =>
      if (schedulerStep env sch a).isNone && t.enabled sch then
        some ({ s with commands := [], scheduler := none }, [])
      else none
    | _, _, _ => none
  | .deliver =>
    match s.sending with
    | none => none
    | some ev =>
      if s.events.length < channelCapacity then
        some ({ s with sending := none, events := s.events ++ [ev] }, [])
      else none
  | .dispatch =>
    -- `run` is called after `init_shared`
    match s.events with
    | [] => none
    | _ :: events => if s.loading.isEmpty then some ({ s with events := events }, []) else none

/-- The agent, started on the database `db` when the clocks show `wall` and `mono`. -/
def service (env : Env) (wall : DateTime) (mono : ℤ) (db : Database) :
    Machine ServiceState ServiceAction (Scheduler.Action × List Output) where
  init :=
    { db := db
      loading := db.findAllEnabled.flatMap loadCommands
      accepted := []
      committed := []
      commands := []
      scheduler := some (scheduler env wall mono).init
      sending := none
      events := [] }
  step := serviceStep env

/-! ## What a step does -/

/-- What a step of the service may do, one constructor for each outcome. -/
inductive ServiceState.Step (env : Env) (s : ServiceState) :
    ServiceAction → ServiceState → List (Scheduler.Action × List Output) → Prop
  | load (cmd : SchedulerCommand) (rest : List SchedulerCommand)
      (hloading : s.loading = cmd :: rest) (hroom : s.commands.length < channelCapacity) :
      Step env s .load { s with loading := rest, commands := s.commands ++ [cmd] } []
  | loadClosed (cmd : SchedulerCommand) (rest : List SchedulerCommand)
      (hloading : s.loading = cmd :: rest) (hend : s.scheduler = none) :
      Step env s .load { s with loading := rest } []
  | accept (req : Request) (hloading : s.loading = []) :
      Step env s (.accept req) { s with accepted := s.accepted ++ [req] } []
  | commit (i : ℕ) (req : Request) (db : Database) (hreq : s.accepted[i]? = some req)
      (hwrite : req.write s.db = some db) :
      Step env s (.commit i true)
        { s with db := db, accepted := s.accepted.eraseIdx i, committed := s.committed ++ [req] } []
  | commitFailed (i : ℕ) (ok : Bool) (req : Request) (hreq : s.accepted[i]? = some req) :
      Step env s (.commit i ok) { s with accepted := s.accepted.eraseIdx i } []
  | send (i : ℕ) (req : Request) (hreq : s.committed[i]? = some req)
      (hroom : s.commands.length < channelCapacity) :
      Step env s (.send i)
        { s with committed := s.committed.eraseIdx i, commands := s.commands ++ [req.command] } []
  | sendClosed (i : ℕ) (hend : s.scheduler = none) :
      Step env s (.send i) { s with committed := s.committed.eraseIdx i } []
  | turn (t : Turn) (sch sch' : SchedulerState) (a : Scheduler.Action)
      (commands : List SchedulerCommand) (o : List Output) (hsch : s.scheduler = some sch)
      (hsending : s.sending = none) (haction : t.action s.commands = some (a, commands))
      (hstep : schedulerStep env sch a = some (sch', o)) :
      Step env s (.turn t)
        { s with commands := commands, scheduler := some sch', sending := eventOf o } [(a, o)]
  | stop (t : Turn) (hsending : s.sending = none) :
      Step env s (.stop t) { s with commands := [], scheduler := none } []
  | deliver (ev : TriggerEvent) (hsending : s.sending = some ev)
      (hroom : s.events.length < channelCapacity) :
      Step env s .deliver { s with sending := none, events := s.events ++ [ev] } []
  | dispatch (ev : TriggerEvent) (events : List TriggerEvent) (hevents : s.events = ev :: events)
      (hloading : s.loading = []) :
      Step env s .dispatch { s with events := events } []

theorem ServiceState.offer_eq_some {s s' : ServiceState} {cmd : SchedulerCommand}
    (h : s.offer cmd = some s') :
    s.scheduler = none ∧ s' = s ∨
      s.commands.length < channelCapacity ∧ s' = { s with commands := s.commands ++ [cmd] } := by
  rw [offer] at h
  split at h
  · cases h
    exact .inl ⟨‹_›, rfl⟩
  · split_ifs at h with hroom
    cases h
    exact .inr ⟨hroom, rfl⟩

theorem serviceStep_spec {env : Env} {s s' : ServiceState} {a : ServiceAction}
    {o : List (Scheduler.Action × List Output)} (h : serviceStep env s a = some (s', o)) :
    s.Step env a s' o := by
  cases a with
  | load =>
    rw [serviceStep] at h
    split at h
    · cases h
    · rename_i cmd rest hloading
      obtain ⟨s₁, hoffer, heq⟩ := Option.map_eq_some_iff.mp h
      cases heq
      rcases ServiceState.offer_eq_some hoffer with ⟨hend, rfl⟩ | ⟨hroom, rfl⟩
      · exact .loadClosed cmd rest hloading hend
      · exact .load cmd rest hloading hroom
  | accept req =>
    rw [serviceStep] at h
    split_ifs at h with hloading
    cases h
    exact .accept req (List.isEmpty_iff.mp hloading)
  | commit i ok =>
    rw [serviceStep] at h
    split at h
    · cases h
    · rename_i req hreq
      dsimp only at h
      split at h
      · cases h
        exact .commitFailed i ok req hreq
      · rename_i db hwrite
        cases h
        split_ifs at hwrite with hok
        subst hok
        exact .commit i req db hreq hwrite
  | send i =>
    rw [serviceStep] at h
    split at h
    · cases h
    · rename_i req hreq
      obtain ⟨s₁, hoffer, heq⟩ := Option.map_eq_some_iff.mp h
      cases heq
      rcases ServiceState.offer_eq_some hoffer with ⟨hend, rfl⟩ | ⟨hroom, rfl⟩
      · exact .sendClosed i hend
      · exact .send i req hreq hroom
  | turn t =>
    rw [serviceStep] at h
    split at h
    · rename_i sch a commands hsch hsending haction
      obtain ⟨⟨sch', o'⟩, hstep, heq⟩ := Option.map_eq_some_iff.mp h
      cases heq
      exact .turn t sch sch' a commands o' hsch hsending haction hstep
    · cases h
  | stop t =>
    rw [serviceStep] at h
    split at h
    · rename_i hsending haction
      split_ifs at h
      cases h
      exact .stop t hsending
    · cases h
  | deliver =>
    rw [serviceStep] at h
    split at h
    · cases h
    · rename_i ev hsending
      split_ifs at h with hroom
      cases h
      exact .deliver ev hsending hroom
  | dispatch =>
    rw [serviceStep] at h
    split at h
    · cases h
    · rename_i ev events hevents
      split_ifs at h with hloading
      cases h
      exact .dispatch ev events hevents (List.isEmpty_iff.mp hloading)

/-! ## Start-up -/

/-- Handlers run only after the tasks are loaded, and no channel holds more than its
    capacity. -/
structure ServiceState.LoadsFirst (s : ServiceState) : Prop where
  handlers : s.loading ≠ [] → s.accepted = [] ∧ s.committed = []
  commands : s.commands.length ≤ channelCapacity
  events : s.events.length ≤ channelCapacity

/-- A turn leaves the channel as it was, or without its first command. -/
theorem Turn.action_suffix {t : Turn} {commands rest : List SchedulerCommand}
    {a : Scheduler.Action} (h : t.action commands = some (a, rest)) : rest <:+ commands := by
  cases t with
  | receive readings =>
    cases commands with
    | nil => cases h
    | cons cmd commands =>
      cases h
      exact List.suffix_cons cmd _
  | fire _ _ | tick _ _ _ _ _ _ =>
    cases h
    exact List.suffix_rfl

theorem ServiceState.Step.loadsFirst {env : Env} {s s' : ServiceState} {a : ServiceAction}
    {o : List (Scheduler.Action × List Output)} (h : s.Step env a s' o) (hs : s.LoadsFirst) :
    s'.LoadsFirst := by
  obtain ⟨hhandlers, hcommands, hevents⟩ := hs
  cases h with
  | load cmd rest hloading hroom =>
    refine ⟨fun _ => hhandlers (by simp [hloading]), ?_, hevents⟩
    show (s.commands ++ [cmd]).length ≤ channelCapacity
    rw [List.length_append, List.length_singleton]
    omega
  | loadClosed cmd rest hloading hend =>
    exact ⟨fun _ => hhandlers (by simp [hloading]), hcommands, hevents⟩
  | accept req hloading => exact ⟨fun hne => absurd hloading hne, hcommands, hevents⟩
  | commit i req db hreq hwrite =>
    refine ⟨?_, hcommands, hevents⟩
    intro hne
    rw [(hhandlers hne).1] at hreq
    cases hreq
  | commitFailed i ok req hreq =>
    refine ⟨?_, hcommands, hevents⟩
    intro hne
    rw [(hhandlers hne).1] at hreq
    cases hreq
  | send i req hreq hroom =>
    refine ⟨?_, ?_, hevents⟩
    · intro hne
      rw [(hhandlers hne).2] at hreq
      cases hreq
    · show (s.commands ++ [req.command]).length ≤ channelCapacity
      rw [List.length_append, List.length_singleton]
      omega
  | sendClosed i hend =>
    refine ⟨?_, hcommands, hevents⟩
    intro hne
    obtain ⟨haccepted, hcommitted⟩ := hhandlers hne
    exact ⟨haccepted, by rw [hcommitted]; rfl⟩
  | turn t sch sch' a commands o hsch hsending haction hstep =>
    exact ⟨hhandlers, le_trans (Turn.action_suffix haction).length_le hcommands, hevents⟩
  | stop t hsending => exact ⟨hhandlers, Nat.zero_le _, hevents⟩
  | deliver ev hsending hroom =>
    refine ⟨hhandlers, hcommands, ?_⟩
    show (s.events ++ [ev]).length ≤ channelCapacity
    rw [List.length_append, List.length_singleton]
    omega
  | dispatch ev events hevents' hloading =>
    refine ⟨hhandlers, hcommands, ?_⟩
    rw [hevents', List.length_cons] at hevents
    show events.length ≤ channelCapacity
    omega

theorem init_loadsFirst (env : Env) (wall : DateTime) (mono : ℤ) (db : Database) :
    (service env wall mono db).init.LoadsFirst :=
  ⟨fun _ => ⟨rfl, rfl⟩, Nat.zero_le _, Nat.zero_le _⟩

theorem reachable_loadsFirst {env : Env} {wall : DateTime} {mono : ℤ} {db : Database}
    {ok : ServiceState → ServiceAction → Prop} {s : ServiceState}
    (h : (service env wall mono db).Reachable ok s) : s.LoadsFirst :=
  h.invariant (I := ServiceState.LoadsFirst) (init_loadsFirst env wall mono db)
    fun _ _ _ _ hs _ hst => (serviceStep_spec hst).loadsFirst hs

end EasyJob.Agent
