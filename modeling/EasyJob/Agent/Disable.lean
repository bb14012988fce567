import EasyJob.Agent.Service
import EasyJob.Scheduler.Safety

/-!
# Disabling a task

The dispatcher of `AgentService::run` (`apps/agent/src/service.rs` lines 211–257)
on top of the machine `service`: it receives an event, reads the task of the
event and starts an execution if a permit and a slot are free. It does not look
at `enabled`. `task.save` (lines 640–666) returns once its command is sent;
rerolls and network events send commands too.

* `disable_takes_effect`: while no event of a trigger is on its way when a disabling
  save returns and the timer fires no entry of the task from then on, the
  dispatcher starts nothing for its triggers; after a step that misses this, it can.
* `disable_fails`: an event that waits in the channel when the save returns.
-/

namespace EasyJob.Agent

open EasyJob.Chrono EasyJob.Domain EasyJob.Persistence EasyJob.Scheduler Transition

/-! ## States -/

/-- Where the loop of the dispatcher stands. -/
inductive DispatcherStage
  | waiting
  /-- Before line 221. -/
  | received (event : TriggerEvent)
  /-- The task is read; before line 226. -/
  | loaded (event : TriggerEvent) (task : Task)

def DispatcherStage.events : DispatcherStage → List TriggerEvent
  | .waiting => []
  | .received event | .loaded event _ => [event]

structure DispatchState where
  service : ServiceState
  dispatcher : DispatcherStage
  /-- The tasks with a disabling save that has returned and that no later save has enabled. -/
  disabled : List TaskId

/-- An execution that the dispatcher starts (line 252). -/
structure Started where
  event : TriggerEvent
  task : Task

/-- The repository holds the task, and it is enabled. -/
def storesEnabled (db : Database) (id : TaskId) : Bool := (db.findById id).any (·.enabled)

/-- The events on their way to the start of an execution. -/
def DispatchState.inFlight (s : DispatchState) : List TriggerEvent :=
  s.dispatcher.events ++ s.service.events ++ s.service.sending.toList

/-- The tasks that are disabled by a save that returns with this step. -/
def ServiceState.returned (s : ServiceState) : ServiceAction → List TaskId
  | .send i =>
    match s.committed[i]? with
    | some (.save task) => if task.enabled then [] else [task.id]
    | _ => []
  | _ => []

/-- The task whose entry the timer branch pops. -/
def firedTask (sch : SchedulerState) : Option TaskId :=
  sch.queue.peekValid.2.pop.1.map ScheduledItem.taskId

/-! ## Steps -/

inductive DispatchAction
  /-- A step of the service, but for the receipt of an event. -/
  | service (a : ServiceAction)
  /-- `trigger.reroll` or the network dispatcher sends a command. -/
  | signal (cmd : SchedulerCommand)
  | receive
  /-- `find_by_id` returns, perhaps with an error. -/
  | read (ok : Bool)
  /-- A permit and a slot are free or not. -/
  | start (acquired : Bool)

def isSignal : SchedulerCommand → Bool
  | .TriggerNow _ | .RerollTrigger _ _ => true
  | .AddTask _ | .RemoveTask _ | .Shutdown => false

/-- The service has taken a step with which the saves that disable `returned` return. -/
def DispatchState.withService (s : DispatchState) (service : ServiceState)
    (returned : List TaskId) : DispatchState :=
  { s with
    service := service
    disabled := (s.disabled ++ returned).filter fun id => !storesEnabled service.db id }

def dispatchStep (env : Env) (s : DispatchState) (a : DispatchAction) :
    Option (DispatchState × List Started) :=
  match a with
  | .service .dispatch => none
  | .service a =>
    (serviceStep env s.service a).map fun r => (s.withService r.1 (s.service.returned a), [])
  | .signal cmd =>
    if isSignal cmd && s.service.loading.isEmpty then
      (s.service.offer cmd).map fun service => ({ s with service := service }, [])
    else none
  | .receive =>
    match s.dispatcher, s.service.events with
    | .waiting, event :: _ => (serviceStep env s.service .dispatch).map fun r =>
        ({ s with service := r.1, dispatcher := .received event }, [])
    | _, _ => none
  | .read ok =>
    match s.dispatcher with
    | .received event =>
      match if ok then s.service.db.findById event.taskId else none with
      | some task => some ({ s with dispatcher := .loaded event task }, [])
      | none => some ({ s with dispatcher := .waiting }, [])
    | _ => none
  | .start acquired =>
    match s.dispatcher with
    | .loaded event task =>
      some ({ s with dispatcher := .waiting }, if acquired then [⟨event, task⟩] else [])
    | _ => none

def dispatch (env : Env) (wall : DateTime) (mono : ℤ) (db : Database) :
    Machine DispatchState DispatchAction Started where
  init := ⟨(service env wall mono db).init, .waiting, []⟩
  step := dispatchStep env

/-- When a save that leaves the task disabled returns, no event of one of its triggers is on its
    way; and the timer does not fire an entry of a task that a save has disabled. -/
def TakesEffect (s : DispatchState) : DispatchAction → Prop
  | .service (.send i) =>
    ∀ id ∈ s.service.returned (.send i), storesEnabled s.service.db id = false →
      ∀ event ∈ s.inFlight, event.taskId = id → event.triggerId = none
  | .service (.turn (.fire _ _)) =>
    ∀ sch ∈ s.service.scheduler, ∀ id ∈ firedTask sch, id ∉ s.disabled
  | _ => True

instance (s : DispatchState) : DecidablePred (TakesEffect s)
  | .service (.send i) => inferInstanceAs (Decidable (∀ id ∈ s.service.returned (.send i),
      storesEnabled s.service.db id = false →
        ∀ event ∈ s.inFlight, event.taskId = id → event.triggerId = none))
  | .service (.turn (.fire _ _)) => inferInstanceAs (Decidable
      (∀ sch ∈ s.service.scheduler, ∀ id ∈ firedTask sch, id ∉ s.disabled))
  | .service .load | .service (.accept _) | .service (.commit _ _) | .service (.stop _)
  | .service .deliver | .service .dispatch | .service (.turn (.receive _))
  | .service (.turn (.tick _ _ _ _ _ _)) | .signal _ | .receive | .read _ | .start _ =>
    isTrue trivial

/-! ## The events of a turn -/

theorem eventOf_evaluations (es : List Evaluation) : eventOf (es.map .evaluated) = none := by
  rw [← List.append_nil (es.map Output.evaluated), eventOf_evaluated]
  rfl

section Events

variable {env : Env} {sch sch' : SchedulerState} {o : List Output} {event : TriggerEvent}

/-- A command makes no event of a trigger. -/
theorem eventOf_stepCommand {cmd : SchedulerCommand} {readings : ℕ → Reading}
    (h : stepCommand env sch cmd readings = some (sch', o)) (hevent : eventOf o = some event) :
    event.triggerId = none := by
  unfold stepCommand at h
  split at h
  · split at h
    · cases h
    · cases h
      rw [eventOf_evaluations] at hevent
      cases hevent
  · cases h
    cases hevent
  · cases h
    cases hevent
    rfl
  · split at h
    · cases h
      cases hevent
    · split at h
      · cases h
      · cases h
        rw [eventOf_evaluated] at hevent
        cases hevent
  · cases h

theorem eventOf_stepTick {wall : DateTime} {mono : ℤ} {now : DateTime} {draws : TaskId → ℕ → ℕ → ℕ}
    {newWall : DateTime} {newMono : ℤ}
    (h : stepTick env sch wall mono now draws newWall newMono = some (sch', o)) :
    eventOf o = none := by
  unfold stepTick at h
  split_ifs at h
  · split at h
    · cases h
    · cases h
      exact eventOf_evaluations _
  · cases h
    rfl

/-- The timer branch sends the event of the entry that it pops. -/
theorem eventOf_stepFire {reading : Reading} (h : stepFire env sch reading = some (sch', o)) :
    ∃ item, sch.queue.pop.1 = some item ∧
      eventOf o = some ⟨item.taskId, some item.triggerId, item.nextFireAt⟩ := by
  unfold stepFire at h
  split at h
  · cases h
  · rename_i item q hpop
    split at h
    · cases h
    · cases h
      exact ⟨item, congrArg Prod.fst hpop, eventOf_evaluated _ _⟩

/-- An event of a trigger comes from the timer branch. -/
theorem eventOf_schedulerStep {a : Scheduler.Action}
    (h : schedulerStep env sch a = some (sch', o)) (hevent : eventOf o = some event) :
    event.triggerId = none ∨
      ∃ wake reading, a = .fire wake reading ∧ firedTask sch = some event.taskId := by
  cases a with
  | command cmd readings => exact .inl (eventOf_stepCommand h hevent)
  | tick wall mono now draws newWall newMono =>
    rw [eventOf_stepTick h] at hevent
    cases hevent
  | fire wake reading =>
    unfold schedulerStep at h
    dsimp only at h
    split_ifs at h
    obtain ⟨item, hpop, hsent⟩ := eventOf_stepFire h
    rw [hsent] at hevent
    cases hevent
    exact .inr ⟨wake, reading, rfl, congrArg (Option.map ScheduledItem.taskId) hpop⟩

/-- A turn of the timer branch sends an event of a trigger of the task it fires. -/
theorem eventOf_fire {wake : DateTime} {reading : Reading}
    (h : schedulerStep env sch (.fire wake reading) = some (sch', o)) :
    ∃ event, eventOf o = some event ∧ event.triggerId.isSome = true ∧
      firedTask sch = some event.taskId := by
  unfold schedulerStep at h
  dsimp only at h
  split_ifs at h
  obtain ⟨item, hpop, hsent⟩ := eventOf_stepFire h
  exact ⟨_, hsent, rfl, congrArg (Option.map ScheduledItem.taskId) hpop⟩

end Events

/-! ## No event of a disabled task -/

section Quiet

variable {env : Env} {wall : DateTime} {mono : ℤ} {db : Database} {s s' : DispatchState}

/-- No event of a trigger of a disabled task is on its way. -/
def Quiet (s : DispatchState) : Prop :=
  ∀ id ∈ s.disabled, ∀ event ∈ s.inFlight, event.taskId = id → event.triggerId = none

theorem Quiet.of_subset (h : Quiet s) (hdisabled : s'.disabled ⊆ s.disabled)
    (hinFlight : s'.inFlight ⊆ s.inFlight) : Quiet s' :=
  fun id hid event hevent => h id (hdisabled hid) event (hinFlight hevent)

theorem disabled_withService {service : ServiceState} {returned : List TaskId} {id : TaskId}
    (h : id ∈ (s.withService service returned).disabled) :
    (id ∈ s.disabled ∨ id ∈ returned) ∧ storesEnabled service.db id = false := by
  obtain ⟨hmem, hstored⟩ := List.mem_filter.mp h
  exact ⟨List.mem_append.mp hmem, by simpa using hstored⟩

theorem mem_inFlight {event : TriggerEvent} :
    event ∈ s.inFlight ↔ event ∈ s.dispatcher.events ∨ event ∈ s.service.events ∨
      s.service.sending = some event := by
  rw [DispatchState.inFlight, List.mem_append, List.mem_append, Option.mem_toList, or_assoc]

/-- A step of the service that sends no new event. -/
theorem Quiet.withService (h : Quiet s) {service : ServiceState} {returned : List TaskId}
    (hevents : ∀ event ∈ service.events, event ∈ s.inFlight)
    (hsending : ∀ event, service.sending = some event → event ∈ s.inFlight)
    (hreturned : ∀ id ∈ returned, storesEnabled service.db id = false →
      ∀ event ∈ s.inFlight, event.taskId = id → event.triggerId = none) :
    Quiet (s.withService service returned) := by
  intro id hid event hevent htask
  obtain ⟨hmem, hstored⟩ := disabled_withService hid
  have hold : event ∈ s.inFlight := by
    rcases mem_inFlight.mp hevent with hevent | hevent | hevent
    · exact mem_inFlight.mpr (.inl hevent)
    · exact hevents event hevent
    · exact hsending event hevent
  rcases hmem with hmem | hmem
  · exact h id hmem event hold htask
  · exact hreturned id hmem hstored event hold htask

/-- A turn of the loop. -/
theorem Quiet.turn (h : Quiet s) {t : Turn} {sch sch' : SchedulerState} {a : Scheduler.Action}
    {commands : List SchedulerCommand} {o : List Output} (hsch : s.service.scheduler = some sch)
    (haction : t.action s.service.commands = some (a, commands))
    (hstep : schedulerStep env sch a = some (sch', o)) (hok : TakesEffect s (.service (.turn t))) :
    Quiet (s.withService { s.service with
      commands := commands, scheduler := some sch', sending := eventOf o } []) := by
  intro id hid event hevent htask
  obtain ⟨hmem, -⟩ := disabled_withService hid
  replace hmem := hmem.resolve_right List.not_mem_nil
  rcases mem_inFlight.mp hevent with hevent | hevent | hevent
  · exact h id hmem event (mem_inFlight.mpr (.inl hevent)) htask
  · exact h id hmem event (mem_inFlight.mpr (.inr (.inl hevent))) htask
  · rcases eventOf_schedulerStep hstep hevent with hnone | ⟨wake, reading, rfl, hfired⟩
    · exact hnone
    · -- The timer does not fire an entry of this task.
      cases t with
      | fire wake' reading' => exact absurd (htask ▸ hmem) (hok sch hsch event.taskId hfired)
      | receive readings =>
        cases hcommands : s.service.commands with
        | nil =>
          rw [hcommands] at haction
          cases haction
        | cons cmd rest =>
          rw [hcommands] at haction
          cases haction
      | tick => cases haction

theorem Quiet.serviceStep (h : Quiet s) {a : ServiceAction} {service : ServiceState}
    {o : List (Scheduler.Action × List Output)} (hst : s.service.Step env a service o)
    (hok : TakesEffect s (.service a)) : Quiet (s.withService service (s.service.returned a)) := by
  have hevents : ∀ event ∈ s.service.events, event ∈ s.inFlight :=
    fun event hevent => mem_inFlight.mpr (.inr (.inl hevent))
  have hsending : ∀ event, s.service.sending = some event → event ∈ s.inFlight :=
    fun event hevent => mem_inFlight.mpr (.inr (.inr hevent))
  have hnone : ∀ id ∈ ([] : List TaskId), storesEnabled service.db id = false →
      ∀ event ∈ s.inFlight, event.taskId = id → event.triggerId = none :=
    fun _ hid => absurd hid List.not_mem_nil
  cases hst with
  | load | loadClosed | accept | commit | commitFailed => exact h.withService hevents hsending hnone
  | send | sendClosed => exact h.withService hevents hsending hok
  | turn t sch sch' a commands o hsch hsending' haction hstep => exact h.turn hsch haction hstep hok
  | stop => exact h.withService hevents hsending hnone
  | deliver event hsending' =>
    refine h.withService ?_ (fun _ hevent => by cases hevent) hnone
    intro event' hevent'
    rcases List.mem_append.mp hevent' with hevent' | hevent'
    · exact hevents event' hevent'
    · rw [List.mem_singleton.mp hevent']
      exact hsending event hsending'
  | dispatch event events hevents' =>
    refine h.withService ?_ hsending hnone
    intro event' hevent'
    apply hevents
    rw [hevents']
    exact List.mem_cons_of_mem _ hevent'

/-- What a step may do to the disabled tasks and to the events on their way. -/
theorem Quiet.step {a : DispatchAction} {o : List Started} (h : Quiet s) (hok : TakesEffect s a)
    (hst : dispatchStep env s a = some (s', o)) : Quiet s' := by
  cases a with
  | service a =>
    cases a with
    | dispatch => cases hst
    | load | accept | commit | send | turn | stop | deliver =>
      obtain ⟨⟨service, o'⟩, hservice, heq⟩ := Option.map_eq_some_iff.mp hst
      cases heq
      exact h.serviceStep (serviceStep_spec hservice) hok
  | signal cmd =>
    simp only [dispatchStep] at hst
    split_ifs at hst
    obtain ⟨service, hoffer, heq⟩ := Option.map_eq_some_iff.mp hst
    cases heq
    rcases ServiceState.offer_eq_some hoffer with ⟨-, rfl⟩ | ⟨-, rfl⟩
    · exact h
    · exact h
  | receive =>
    simp only [dispatchStep] at hst
    split at hst
    · rename_i event events hdispatcher hevents
      obtain ⟨⟨service, o'⟩, hservice, heq⟩ := Option.map_eq_some_iff.mp hst
      cases heq
      refine h.of_subset (List.Subset.refl _) fun event' hevent' => ?_
      cases serviceStep_spec hservice with
      | dispatch event₁ events₁ hevents₁ =>
        rw [hevents] at hevents₁
        cases hevents₁
        rw [mem_inFlight, hevents]
        rcases mem_inFlight.mp hevent' with hevent' | hevent' | hevent'
        · exact .inr (.inl (List.mem_cons.mpr (.inl (List.mem_singleton.mp hevent'))))
        · exact .inr (.inl (List.mem_cons_of_mem _ hevent'))
        · exact .inr (.inr hevent')
    · cases hst
  | read ok =>
    simp only [dispatchStep] at hst
    split at hst
    · rename_i event hdispatcher
      split at hst
      · cases hst
        refine h.of_subset (List.Subset.refl _) ?_
        rw [DispatchState.inFlight, DispatchState.inFlight, hdispatcher]
        exact List.Subset.refl _
      · cases hst
        refine h.of_subset (List.Subset.refl _) fun event' hevent' => ?_
        exact mem_inFlight.mpr (.inr ((mem_inFlight.mp hevent').resolve_left List.not_mem_nil))
    · cases hst
  | start acquired =>
    simp only [dispatchStep] at hst
    split at hst
    · cases hst
      refine h.of_subset (List.Subset.refl _) fun event' hevent' => ?_
      exact mem_inFlight.mpr (.inr ((mem_inFlight.mp hevent').resolve_left List.not_mem_nil))
    · cases hst

theorem reachable_quiet (h : (dispatch env wall mono db).Reachable TakesEffect s) : Quiet s :=
  h.invariant (I := Quiet) (fun _ hid => absurd hid List.not_mem_nil)
    fun _ _ _ _ hi hok hst => hi.step hok hst

/-- A started execution belongs to the event that the dispatcher held. -/
theorem dispatchStep_started {a : DispatchAction} {o : List Started}
    (hst : dispatchStep env s a = some (s', o)) {started : Started} (h : started ∈ o) :
    started.event ∈ s.inFlight := by
  cases a with
  | service a =>
    cases a with
    | dispatch => cases hst
    | load | accept | commit | send | turn | stop | deliver =>
      obtain ⟨r, -, heq⟩ := Option.map_eq_some_iff.mp hst
      cases heq
      cases h
  | signal cmd =>
    simp only [dispatchStep] at hst
    split_ifs at hst
    obtain ⟨service, -, heq⟩ := Option.map_eq_some_iff.mp hst
    cases heq
    cases h
  | receive =>
    simp only [dispatchStep] at hst
    split at hst
    · obtain ⟨r, -, heq⟩ := Option.map_eq_some_iff.mp hst
      cases heq
      cases h
    · cases hst
  | read ok =>
    simp only [dispatchStep] at hst
    split at hst
    · split at hst
      · cases hst
        cases h
      · cases hst
        cases h
    · cases hst
  | start acquired =>
    simp only [dispatchStep] at hst
    split at hst
    · rename_i event task hdispatcher
      cases hst
      split_ifs at h
      · rw [List.mem_singleton.mp h]
        exact mem_inFlight.mpr (.inl (by rw [hdispatcher]; exact List.mem_cons_self))
      · cases h
    · cases hst

end Quiet

/-! ## An event of a disabled task -/

section Late

variable {env : Env} {wall : DateTime} {mono : ℤ} {db : Database} {s s' : DispatchState}
  {event : TriggerEvent}

/-- The dispatcher works when a save has disabled a task, which is not enabled then. -/
structure Settled (s : DispatchState) : Prop where
  loads : s.service.LoadsFirst
  disabled : ∀ id ∈ s.disabled, s.service.loading = [] ∧ storesEnabled s.service.db id = false

theorem loading_of_step {service service' : ServiceState} {a : ServiceAction}
    {o : List (Scheduler.Action × List Output)} (h : service.Step env a service' o)
    (hloading : service.loading = []) : service'.loading = [] := by
  cases h with
  | load cmd rest hcons | loadClosed cmd rest hcons =>
    rw [hloading] at hcons
    cases hcons
  | accept | commit | commitFailed | send | sendClosed | turn | stop | deliver | dispatch =>
    exact hloading

theorem loading_of_returned {service : ServiceState} (h : service.LoadsFirst) {a : ServiceAction}
    {id : TaskId} (hid : id ∈ service.returned a) : service.loading = [] := by
  by_contra hloading
  have hcommitted := (h.handlers hloading).2
  cases a with
  | send i =>
    rw [ServiceState.returned, hcommitted] at hid
    cases hid
  | load | accept | commit | turn | stop | deliver | dispatch => cases hid

theorem Settled.step {a : DispatchAction} {o : List Started} (h : Settled s)
    (hst : dispatchStep env s a = some (s', o)) : Settled s' := by
  cases a with
  | service a =>
    cases a with
    | dispatch => cases hst
    | load | accept | commit | send | turn | stop | deliver =>
      obtain ⟨⟨service, o'⟩, hservice, heq⟩ := Option.map_eq_some_iff.mp hst
      cases heq
      have hstep := serviceStep_spec hservice
      refine ⟨hstep.loadsFirst h.loads, fun id hid => ?_⟩
      obtain ⟨hmem, hstored⟩ := disabled_withService hid
      refine ⟨?_, hstored⟩
      rcases hmem with hmem | hmem
      · exact loading_of_step hstep (h.disabled id hmem).1
      · exact loading_of_step hstep (loading_of_returned h.loads hmem)
  | signal cmd =>
    simp only [dispatchStep] at hst
    split_ifs at hst
    obtain ⟨service, hoffer, heq⟩ := Option.map_eq_some_iff.mp hst
    cases heq
    rcases ServiceState.offer_eq_some hoffer with ⟨-, rfl⟩ | ⟨hroom, rfl⟩
    · exact h
    · refine ⟨⟨h.loads.handlers, ?_, h.loads.events⟩, h.disabled⟩
      show (s.service.commands ++ [cmd]).length ≤ channelCapacity
      rw [List.length_append, List.length_singleton]
      omega
  | receive =>
    simp only [dispatchStep] at hst
    split at hst
    · obtain ⟨⟨service, o'⟩, hservice, heq⟩ := Option.map_eq_some_iff.mp hst
      cases heq
      have hstep := serviceStep_spec hservice
      refine ⟨hstep.loadsFirst h.loads, fun id hid => ?_⟩
      obtain ⟨hloading, hstored⟩ := h.disabled id hid
      refine ⟨loading_of_step hstep hloading, ?_⟩
      cases hstep
      exact hstored
    · cases hst
  | read ok =>
    simp only [dispatchStep] at hst
    split at hst
    · split at hst
      · cases hst
        exact ⟨h.loads, h.disabled⟩
      · cases hst
        exact ⟨h.loads, h.disabled⟩
    · cases hst
  | start acquired =>
    simp only [dispatchStep] at hst
    split at hst
    · cases hst
      exact ⟨h.loads, h.disabled⟩
    · cases hst

theorem reachable_settled {ok : DispatchState → DispatchAction → Prop}
    (h : (dispatch env wall mono db).Reachable ok s) : Settled s :=
  h.invariant (I := Settled)
    ⟨init_loadsFirst env wall mono db, fun _ hid => absurd hid List.not_mem_nil⟩
    fun _ _ _ _ hi _ hst => hi.step hst

/-- An event of a trigger of a stored task that a save has disabled. -/
structure Late (s : DispatchState) (event : TriggerEvent) : Prop where
  trigger : event.triggerId.isSome = true
  disabled : event.taskId ∈ s.disabled
  loading : s.service.loading = []
  notEnabled : storesEnabled s.service.db event.taskId = false
  stored : (s.service.db.findById event.taskId).isSome = true

variable (env wall mono db) in
/-- Some continuation starts an execution for a trigger of a task that a save has disabled. -/
def CanStartDisabled (s : DispatchState) : Prop :=
  ∃ tr t t' started, (dispatch env wall mono db).Run Machine.anyStep s tr t ∧
    dispatchStep env t (.start true) = some (t', [started]) ∧
    started.event.triggerId.isSome = true ∧ started.event.taskId ∈ t.disabled

theorem CanStartDisabled.of_step {a : DispatchAction} {o : List Started}
    (hst : dispatchStep env s a = some (s', o)) (h : CanStartDisabled env wall mono db s') :
    CanStartDisabled env wall mono db s := by
  obtain ⟨tr, t, t', started, hr, hstart⟩ := h
  exact ⟨_, t, t', started, hr.cons trivial hst, hstart⟩

theorem canStart_loaded {task : Task} (h : Late s event)
    (hdispatcher : s.dispatcher = .loaded event task) : CanStartDisabled env wall mono db s := by
  refine ⟨[], s, { s with dispatcher := .waiting }, ⟨event, task⟩, .nil s, ?_, h.trigger,
    h.disabled⟩
  simp only [dispatchStep, hdispatcher, if_pos]

theorem canStart_received (h : Late s event) (hdispatcher : s.dispatcher = .received event) :
    CanStartDisabled env wall mono db s := by
  obtain ⟨task, htask⟩ := Option.isSome_iff_exists.mp h.stored
  have hst : dispatchStep env s (.read true) =
      some ({ s with dispatcher := .loaded event task }, []) := by
    simp only [dispatchStep, hdispatcher, if_pos, htask]
  apply CanStartDisabled.of_step hst
  exact canStart_loaded ⟨h.trigger, h.disabled, h.loading, h.notEnabled, h.stored⟩ rfl

/-- The dispatcher takes the next event. -/
theorem dispatchStep_receive {events : List TriggerEvent} (hdispatcher : s.dispatcher = .waiting)
    (hevents : s.service.events = event :: events) (hloading : s.service.loading = []) :
    dispatchStep env s .receive = some ({ s with
      service := { s.service with events := events }, dispatcher := .received event }, []) := by
  simp only [dispatchStep, hdispatcher, hevents, serviceStep, hloading]
  rfl

/-- The read of a task may fail. -/
theorem dispatchStep_read (hdispatcher : s.dispatcher = .received event) :
    dispatchStep env s (.read false) = some ({ s with dispatcher := .waiting }, []) := by
  simp only [dispatchStep, hdispatcher]
  rfl

/-- The dispatcher waits, and these events wait for it. -/
def DispatchState.withEvents (s : DispatchState) (events : List TriggerEvent) : DispatchState :=
  { s with service := { s.service with events := events }, dispatcher := .waiting }

/-- The dispatcher drops the events before the last ones. -/
theorem canStart_of_drop {before events : List TriggerEvent} (hdispatcher : s.dispatcher = .waiting)
    (hevents : s.service.events = before ++ events) (hloading : s.service.loading = [])
    (h : CanStartDisabled env wall mono db (s.withEvents events)) :
    CanStartDisabled env wall mono db s := by
  induction before generalizing s with
  | nil =>
    have heq : s.withEvents events = s := by
      rw [DispatchState.withEvents, ← hdispatcher, ← show s.service.events = events from hevents]
    exact heq ▸ h
  | cons first before ih =>
    apply CanStartDisabled.of_step (dispatchStep_receive hdispatcher hevents hloading)
    apply CanStartDisabled.of_step (dispatchStep_read rfl)
    exact ih rfl rfl hloading h

theorem canStart_events {before events : List TriggerEvent} (h : Late s event)
    (hdispatcher : s.dispatcher = .waiting)
    (hevents : s.service.events = before ++ event :: events) :
    CanStartDisabled env wall mono db s := by
  apply canStart_of_drop hdispatcher hevents h.loading
  have hst : dispatchStep env (s.withEvents (event :: events)) .receive = _ :=
    dispatchStep_receive rfl rfl h.loading
  apply CanStartDisabled.of_step hst
  exact canStart_received ⟨h.trigger, h.disabled, h.loading, h.notEnabled, h.stored⟩ rfl

theorem canStart_sending (h : Late s event) (hdispatcher : s.dispatcher = .waiting)
    (hsending : s.service.sending = some event) : CanStartDisabled env wall mono db s := by
  apply canStart_of_drop hdispatcher (List.append_nil _).symm h.loading
  set service := { s.service with sending := none, events := [event] } with hservice
  have hst : dispatchStep env (s.withEvents []) (.service .deliver) =
      some ((s.withEvents []).withService service [], []) := by
    simp only [dispatchStep, DispatchState.withEvents, serviceStep, hsending]
    rfl
  apply CanStartDisabled.of_step hst
  have hdisabled : event.taskId ∈ ((s.withEvents []).withService service []).disabled := by
    refine List.mem_filter.mpr ⟨List.mem_append_left _ h.disabled, ?_⟩
    simpa using h.notEnabled
  have hlate : Late ((s.withEvents []).withService service []) event :=
    ⟨h.trigger, hdisabled, h.loading, h.notEnabled, h.stored⟩
  have hevents : ((s.withEvents []).withService service []).service.events = [] ++ [event] := rfl
  exact canStart_events hlate rfl hevents

/-- An event on its way can be started. -/
theorem canStart_inFlight (h : Late s event) (hevent : event ∈ s.inFlight) :
    CanStartDisabled env wall mono db s := by
  have hwaiting : Late { s with dispatcher := .waiting } event :=
    ⟨h.trigger, h.disabled, h.loading, h.notEnabled, h.stored⟩
  have hlater (hlater : event ∈ s.service.events ∨ s.service.sending = some event) :
      CanStartDisabled env wall mono db { s with dispatcher := .waiting } := by
    rcases hlater with hevents | hsending
    · obtain ⟨before, events, hevents⟩ := List.append_of_mem hevents
      exact canStart_events hwaiting rfl hevents
    · exact canStart_sending hwaiting rfl hsending
  cases hdispatcher : s.dispatcher with
  | waiting =>
    have heq : { s with dispatcher := .waiting } = s := by rw [← hdispatcher]
    rw [mem_inFlight, hdispatcher] at hevent
    exact heq ▸ hlater (hevent.resolve_left List.not_mem_nil)
  | received held =>
    rw [mem_inFlight, hdispatcher] at hevent
    rcases hevent with hevent | hevent
    · rw [List.mem_singleton.mp hevent] at h
      exact canStart_received h hdispatcher
    · exact CanStartDisabled.of_step (dispatchStep_read hdispatcher) (hlater hevent)
  | loaded held task =>
    rw [mem_inFlight, hdispatcher] at hevent
    rcases hevent with hevent | hevent
    · rw [List.mem_singleton.mp hevent] at h
      exact canStart_loaded h hdispatcher
    · have hst : dispatchStep env s (.start false) =
          some ({ s with dispatcher := .waiting }, []) := by
        simp only [dispatchStep, hdispatcher]
        rfl
      exact CanStartDisabled.of_step hst (hlater hevent)

/-- A step that misses the condition leaves an event of a disabled task on its way. -/
theorem late_of_not_takesEffect (h : Settled s) {a : DispatchAction} {o : List Started}
    (hst : dispatchStep env s a = some (s', o)) (hok : ¬TakesEffect s a) :
    ∃ event ∈ s'.inFlight, event.triggerId.isSome = true ∧ event.taskId ∈ s'.disabled := by
  by_contra hnone
  apply hok
  cases a with
  | signal | receive | read | start => trivial
  | service a =>
    cases a with
    | dispatch => cases hst
    | load | accept | commit | stop | deliver => trivial
    | send i =>
      obtain ⟨⟨service, o'⟩, hservice, heq⟩ := Option.map_eq_some_iff.mp hst
      cases heq
      intro id hid hstored event hevent htask
      by_contra htrigger
      apply hnone
      have hsame : service.db = s.service.db ∧ service.events = s.service.events ∧
          service.sending = s.service.sending := by
        cases serviceStep_spec hservice with
        | send | sendClosed => exact ⟨rfl, rfl, rfl⟩
      obtain ⟨hdb, hevents, hsending⟩ := hsame
      refine ⟨event, ?_, Option.isSome_iff_ne_none.mpr htrigger, ?_⟩
      · rw [mem_inFlight] at hevent ⊢
        show event ∈ s.dispatcher.events ∨ event ∈ service.events ∨ service.sending = some event
        rw [hevents, hsending]
        exact hevent
      · refine List.mem_filter.mpr ⟨List.mem_append_right _ (htask ▸ hid), ?_⟩
        rw [hdb, htask, hstored]
        rfl
    | turn t =>
      cases t with
      | receive | tick => trivial
      | fire wake reading =>
        obtain ⟨⟨service, o'⟩, hservice, heq⟩ := Option.map_eq_some_iff.mp hst
        cases heq
        intro sch hsch id hfired hid
        apply hnone
        cases serviceStep_spec hservice with
        | turn _ sch₁ sch' a commands o hsch₁ hsending haction hstep =>
          rw [hsch] at hsch₁
          cases hsch₁
          cases haction
          obtain ⟨event, hsent, htrigger, hfired'⟩ := eventOf_fire hstep
          rw [hfired] at hfired'
          cases hfired'
          refine ⟨event, mem_inFlight.mpr (.inr (.inr hsent)), htrigger, ?_⟩
          refine List.mem_filter.mpr ⟨List.mem_append_left _ hid, ?_⟩
          have hstored := (h.disabled _ hid).2
          simpa using hstored

end Late

/-- In every run in which no event of a trigger is on its way when a disabling save returns,
    and the timer fires no entry of a task that is disabled so, the dispatcher
    starts no execution for a trigger of such a task. After a step that misses
    this, an event of such a task is on its way, and if the task is stored some
    continuation starts an execution for it. -/
theorem disable_takes_effect (env : Env) (wall : DateTime) (mono : ℤ) (db : Database) :
    (∀ s a s' o, (dispatch env wall mono db).Reachable TakesEffect s →
      (dispatch env wall mono db).step s a = some (s', o) →
      ∀ started ∈ o, started.event.triggerId.isSome = true → started.event.taskId ∉ s.disabled) ∧
    ∀ s a s' o, (dispatch env wall mono db).Reachable Machine.anyStep s →
      (dispatch env wall mono db).step s a = some (s', o) → ¬TakesEffect s a →
      ∃ event ∈ s'.inFlight, event.triggerId.isSome = true ∧ event.taskId ∈ s'.disabled ∧
        ((s'.service.db.findById event.taskId).isSome = true →
          CanStartDisabled env wall mono db s') := by
  constructor
  · intro s a s' o h hst started hstarted htrigger hdisabled
    have hnone := reachable_quiet h _ hdisabled _ (dispatchStep_started hst hstarted) rfl
    rw [hnone] at htrigger
    cases htrigger
  · intro s a s' o h hst hok
    have hsettled := reachable_settled h
    obtain ⟨event, hevent, htrigger, hdisabled⟩ := late_of_not_takesEffect hsettled hst hok
    refine ⟨event, hevent, htrigger, hdisabled, fun hstored => ?_⟩
    obtain ⟨hloading, hnotEnabled⟩ := (hsettled.step hst).disabled _ hdisabled
    exact canStart_inFlight ⟨htrigger, hdisabled, hloading, hnotEnabled, hstored⟩ hevent

/-! ## The hourly task is disabled -/

/-- A save of the task, from the request to the receipt of its command. -/
def savedAt (wall : DateTime) (task : Task) : List DispatchAction :=
  [.service (.accept (.save task)), .service (.commit 0 true), .service (.send 0),
    .service (.turn (.receive fun _ => ⟨wall, fun _ => 0⟩))]

/-- The timer fires, and the event is sent. -/
def firedAt (wall : DateTime) : List DispatchAction :=
  [.service (.turn (.fire wall ⟨wall, fun _ => 0⟩)), .service .deliver]

def disabledHourly : Task := { hourlyTask with enabled := false }

/-- Another task that runs every hour. -/
def otherHourly : Task :=
  { hourlyTask with id := ⟨2⟩, triggers := [⟨⟨8⟩, ⟨2⟩, true, .Interval 3600 none, 0, 0⟩] }

/-- The hourly task is saved, and the dispatcher starts an execution for its first event. Then it
    is saved as disabled, and one hour later the event of another task comes. -/
def disabledInTime : List DispatchAction :=
  savedAt 0 hourlyTask ++ firedAt (3600 * nanosPerSec) ++ [.receive, .read true, .start true] ++
    savedAt (3600 * nanosPerSec) otherHourly ++ savedAt (3600 * nanosPerSec) disabledHourly ++
      firedAt (7200 * nanosPerSec) ++ [.receive, .read true]

/-- It is saved as disabled while its event waits; the save has not returned. -/
def disabledLate : List DispatchAction :=
  savedAt 0 hourlyTask ++ firedAt (3600 * nanosPerSec) ++
    [.service (.accept (.save disabledHourly)), .service (.commit 0 true)]

theorem disabledInTime_possible :
    ((dispatch utcOnly 0 0 .empty).exec TakesEffect (dispatch utcOnly 0 0 .empty).init
      disabledInTime).isSome = true := by decide +kernel

theorem disabledLate_possible :
    ((dispatch utcOnly 0 0 .empty).exec Machine.anyStep (dispatch utcOnly 0 0 .empty).init
      disabledLate).isSome = true := by decide +kernel

def whenDisabledInTime : DispatchState :=
  (((dispatch utcOnly 0 0 .empty).exec TakesEffect (dispatch utcOnly 0 0 .empty).init
    disabledInTime).get disabledInTime_possible).2

def whenDisabledLate : DispatchState :=
  (((dispatch utcOnly 0 0 .empty).exec Machine.anyStep (dispatch utcOnly 0 0 .empty).init
    disabledLate).get disabledLate_possible).2

/-- The execution that the dispatcher starts for the event of the other task. -/
def otherStarted (task : Task) : Started := ⟨⟨⟨2⟩, some ⟨8⟩, 7200 * nanosPerSec⟩, task⟩

/-- Once the hourly task is disabled, the event that starts an execution is that of the other
    task. And when a save returns while an event waits, the dispatcher can still start it. -/
theorem disable_takes_effect_hourly :
    (whenDisabledInTime.disabled = [⟨1⟩] ∧
      ∃ s' task, (dispatch utcOnly 0 0 .empty).step whenDisabledInTime (.start true) =
        some (s', [otherStarted task]) ∧ ⟨2⟩ ∉ whenDisabledInTime.disabled) ∧
    ∃ s', (dispatch utcOnly 0 0 .empty).step whenDisabledLate (.service (.send 0)) =
      some (s', []) ∧ CanStartDisabled utcOnly 0 0 .empty s' := by
  obtain ⟨hnone, hlate⟩ := disable_takes_effect utcOnly 0 0 .empty
  refine ⟨⟨by decide +kernel, _, _, rfl, ?_⟩, _, rfl, ?_⟩
  · exact hnone whenDisabledInTime (.start true) _ _
      ⟨_, Machine.exec_get_run disabledInTime_possible⟩ rfl (otherStarted _) List.mem_cons_self rfl
  · obtain ⟨event, hevent, -, -, hcan⟩ := hlate whenDisabledLate (.service (.send 0)) _ _
      ⟨_, Machine.exec_get_run disabledLate_possible⟩ rfl (by decide +kernel)
    apply hcan
    -- every event on its way is of a stored task
    clear hcan
    revert event
    decide +kernel

/-- After the save has returned, the event of the disabled task is received and read. -/
def readLate : List DispatchAction :=
  disabledLate ++ [.service (.send 0), .receive, .read true]

theorem readLate_possible :
    ((dispatch utcOnly 0 0 .empty).exec Machine.anyStep (dispatch utcOnly 0 0 .empty).init
      readLate).isSome = true := by decide +kernel

def whenReadLate : DispatchState :=
  (((dispatch utcOnly 0 0 .empty).exec Machine.anyStep (dispatch utcOnly 0 0 .empty).init
    readLate).get readLate_possible).2

/-- It starts an execution too. -/
theorem disable_fails :
    (dispatch utcOnly 0 0 .empty).Reachable Machine.anyStep whenReadLate ∧
      ⟨1⟩ ∈ whenReadLate.disabled ∧
      ∃ s' event task, (dispatch utcOnly 0 0 .empty).step whenReadLate (.start true) =
        some (s', [⟨event, task⟩]) ∧ event.taskId = ⟨1⟩ ∧ event.triggerId = some ⟨7⟩ ∧
          task.enabled = false :=
  ⟨⟨_, Machine.exec_get_run readLate_possible⟩, by decide, _, _, _, rfl, rfl, rfl, rfl⟩

end EasyJob.Agent
