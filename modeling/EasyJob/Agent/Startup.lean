import EasyJob.Agent.Service
import EasyJob.Scheduler.Safety

/-!
# Start-up

Before the tasks are loaded nobody receives trigger events. When their channel is
full and the loop has one more to send, it no longer receives commands; the
loading loop goes on only as far as its own channel has room.

* `startup_proceeds_iff`: loading cannot block if every event of that time finds
  room, or else the commands still to come do. From any other event on, loading
  never ends and every run can be continued until nothing moves.
* `loading_blocks`: that happens with 152 tasks that run when the agent starts.
-/

namespace EasyJob.Agent

open EasyJob.Chrono EasyJob.Domain EasyJob.Persistence EasyJob.Scheduler Transition

/-! ## Turns that send an event -/

/-- The branch of the loop sends an event. -/
def sends : Scheduler.Action → Bool
  | .fire _ _ => true
  | .command (.TriggerNow _) _ => true
  | .command (.AddTask _) _ | .command (.RemoveTask _) _ | .command (.RerollTrigger _ _) _
  | .command .Shutdown _ | .tick _ _ _ _ _ _ => false

/-- A turn has an event to send exactly if its branch sends one. -/
theorem eventOf_isSome {env : Env} {sch sch' : SchedulerState} {a : Scheduler.Action}
    {o : List Output} (h : schedulerStep env sch a = some (sch', o)) :
    (eventOf o).isSome = sends a := by
  have hstep := schedulerStep_refines h
  generalize sch'.schedule = next at hstep
  cases hstep with
  | addTask task readings es registered hreg hkeys hes =>
    rw [← List.append_nil (es.map _), eventOf_evaluated]
    rfl
  | reroll taskId triggerId readings es next hlen hkey hes hnext =>
    rw [eventOf_evaluated]
    rfl
  | fire wake reading e rest es hpending hearliest hkeys hes =>
    rw [eventOf_evaluated]
    rfl
  | rebuild wall mono now draws newWall newMono es hkeys hes =>
    rw [← List.append_nil (es.map _), eventOf_evaluated]
    rfl
  | removeTask | triggerNow | rerollRejected | tick => rfl

/-! ## Room for the event or for the commands -/

/-- An event that is sent in this turn finds room in its channel, or all the commands
    that are still to be sent find room in theirs. -/
def FindsRoom (s : ServiceState) : ServiceAction → Prop
  | .turn t => ∀ r ∈ t.action s.commands, sends r.1 = true →
      s.events.length < channelCapacity ∨ s.loading.length + r.2.length ≤ channelCapacity
  | _ => True

instance (s : ServiceState) : DecidablePred (FindsRoom s)
  | .turn t => inferInstanceAs (Decidable (∀ r ∈ t.action s.commands, sends r.1 = true →
      s.events.length < channelCapacity ∨ s.loading.length + r.2.length ≤ channelCapacity))
  | .load | .accept _ | .commit _ _ | .send _ | .stop _ | .deliver | .dispatch => isTrue trivial

/-- While the loop waits to send, its event finds room or the commands do. -/
def SendsFit (s : ServiceState) : Prop :=
  s.sending ≠ none →
    s.events.length < channelCapacity ∨ s.loading.length + s.commands.length ≤ channelCapacity

theorem SendsFit.step {env : Env} {s s' : ServiceState} {a : ServiceAction}
    {o : List (Scheduler.Action × List Output)} (hfirst : s.LoadsFirst) (hfit : SendsFit s)
    (hroom : FindsRoom s a) (h : s.Step env a s' o) : SendsFit s' := by
  cases h with
  | load cmd rest hloading hfree =>
    intro hsending
    have hold := hfit hsending
    rw [hloading, List.length_cons] at hold
    show s.events.length < channelCapacity ∨
      rest.length + (s.commands ++ [cmd]).length ≤ channelCapacity
    rw [List.length_append, List.length_singleton]
    omega
  | loadClosed cmd rest hloading hend =>
    intro hsending
    have hold := hfit hsending
    rw [hloading, List.length_cons] at hold
    show s.events.length < channelCapacity ∨ rest.length + s.commands.length ≤ channelCapacity
    omega
  | accept | commit | commitFailed | sendClosed => exact hfit
  | send i req hreq hfree =>
    intro _
    -- a handler sends, so the tasks are loaded
    have hloading : s.loading = [] := by
      by_contra hne
      rw [(hfirst.handlers hne).2] at hreq
      cases hreq
    right
    show s.loading.length + (s.commands ++ [req.command]).length ≤ channelCapacity
    rw [hloading, List.length_append, List.length_singleton, List.length_nil]
    omega
  | turn t sch sch' a commands out hsch hsending haction hstep =>
    intro hsends
    have hout : (eventOf out).isSome = true := Option.isSome_iff_ne_none.mpr hsends
    rw [eventOf_isSome hstep] at hout
    exact hroom (a, commands) haction hout
  | stop t hsending => exact fun h => absurd hsending h
  | deliver ev hsending hfree => exact fun h => absurd rfl h
  | dispatch ev events hevents hloading =>
    intro hsending
    have hold := hfit hsending
    rw [hevents, List.length_cons] at hold
    show events.length < channelCapacity ∨ s.loading.length + s.commands.length ≤ channelCapacity
    omega

/-! ## Loading proceeds -/

/-- The loading loop can send, or the scheduler loop can send its event or take the
    next command. -/
def Proceeds (env : Env) (s : ServiceState) : Prop :=
  (serviceStep env s .load).isSome ∨ (serviceStep env s .deliver).isSome ∨
    ∃ readings, (serviceStep env s (.turn (.receive readings))).isSome ∨
      (serviceStep env s (.stop (.receive readings))).isSome

theorem load_isSome {env : Env} {s : ServiceState} (hloading : s.loading ≠ [])
    (hfree : s.commands.length < channelCapacity) : (serviceStep env s .load).isSome := by
  obtain ⟨cmd, rest, heq⟩ := List.exists_cons_of_ne_nil hloading
  rw [serviceStep, heq]
  dsimp only
  rw [ServiceState.offer]
  split
  · rfl
  · rw [if_pos hfree]
    rfl

theorem SendsFit.proceeds {env : Env} {s : ServiceState} (hfit : SendsFit s)
    (hloading : s.loading ≠ []) : Proceeds env s := by
  by_cases hfree : s.commands.length < channelCapacity
  · exact .inl (load_isSome hloading hfree)
  · cases hsch : s.scheduler with
    | none =>
      -- the channel is closed
      obtain ⟨cmd, rest, heq⟩ := List.exists_cons_of_ne_nil hloading
      left
      simp [serviceStep, heq, ServiceState.offer, hsch]
    | some sch =>
      cases hsending : s.sending with
      | some ev =>
        right
        left
        have hpos : 0 < s.loading.length := List.length_pos_iff.mpr hloading
        have hroom := hfit (by simp [hsending])
        have hevents : s.events.length < channelCapacity := by omega
        rw [serviceStep, hsending]
        simp [hevents]
      | none =>
        -- the loop takes the next command, or panics in it
        right
        right
        have hne : s.commands ≠ [] := by
          intro hnil
          rw [hnil] at hfree
          exact hfree (by decide)
        obtain ⟨cmd, rest, heq⟩ := List.exists_cons_of_ne_nil hne
        refine ⟨fun _ => ⟨0, fun _ => 0⟩, ?_⟩
        cases hstep : schedulerStep env sch (.command cmd fun _ => ⟨0, fun _ => 0⟩) with
        | some r =>
          left
          simp [serviceStep, hsch, hsending, Turn.action, heq, hstep]
        | none =>
          right
          simp [serviceStep, hsch, hsending, Turn.action, heq, hstep, Turn.enabled]

/-! ## Loading blocks -/

/-- Tasks are still to be loaded and no step is possible. -/
def Blocked (env : Env) (s : ServiceState) : Prop :=
  s.loading ≠ [] ∧ ∀ a, serviceStep env s a = none

/-- The loop waits to send an event that finds no room, and neither do the commands. -/
structure Doomed (s : ServiceState) : Prop where
  scheduler : s.scheduler ≠ none
  sending : s.sending ≠ none
  events : s.events.length = channelCapacity
  remaining : channelCapacity < s.loading.length + s.commands.length

theorem Doomed.loading_ne_nil {s : ServiceState} (h : Doomed s) (hfirst : s.LoadsFirst) :
    s.loading ≠ [] := by
  intro hnil
  have hremaining := h.remaining
  have hcommands := hfirst.commands
  rw [hnil, List.length_nil] at hremaining
  omega

/-- The only step left is a send of the loading loop. -/
theorem Doomed.step {env : Env} {s s' : ServiceState} {a : ServiceAction}
    {o : List (Scheduler.Action × List Output)} (hd : Doomed s) (hfirst : s.LoadsFirst)
    (h : s.Step env a s' o) : Doomed s' ∧ s.commands.length < channelCapacity := by
  have hne := hd.loading_ne_nil hfirst
  obtain ⟨haccepted, hcommitted⟩ := hfirst.handlers hne
  cases h with
  | load cmd rest hloading hfree =>
    refine ⟨⟨hd.scheduler, hd.sending, hd.events, ?_⟩, hfree⟩
    have hremaining := hd.remaining
    rw [hloading, List.length_cons] at hremaining
    show channelCapacity < rest.length + (s.commands ++ [cmd]).length
    rw [List.length_append, List.length_singleton]
    omega
  | loadClosed cmd rest hloading hend => exact absurd hend hd.scheduler
  | accept req hloading => exact absurd hloading hne
  | commit i req db hreq hwrite =>
    rw [haccepted] at hreq
    cases hreq
  | commitFailed i ok req hreq =>
    rw [haccepted] at hreq
    cases hreq
  | send i req hreq hfree =>
    rw [hcommitted] at hreq
    cases hreq
  | sendClosed i hend => exact absurd hend hd.scheduler
  | turn t sch sch' a commands out hsch hsending haction hstep => exact absurd hsending hd.sending
  | stop t hsending => exact absurd hsending hd.sending
  | deliver ev hsending hfree => exact absurd hd.events (Nat.ne_of_lt hfree)
  | dispatch ev events hevents hloading => exact absurd hloading hne

/-- The turn whose event finds no room dooms the start-up. -/
theorem doomed_of_not_findsRoom {env : Env} {s s' : ServiceState} {a : ServiceAction}
    {o : List (Scheduler.Action × List Output)} (hfirst : s.LoadsFirst)
    (h : s.Step env a s' o) (hno : ¬FindsRoom s a) : Doomed s' := by
  cases h with
  | turn t sch sch' a commands out hsch hsending haction hstep =>
    unfold FindsRoom at hno
    simp only [haction, Option.mem_def, Option.some.injEq, forall_eq', Classical.not_imp,
      not_or, not_lt, not_le] at hno
    obtain ⟨hsends, hevents, hremaining⟩ := hno
    refine ⟨by simp, ?_, ?_, hremaining⟩
    · show eventOf out ≠ none
      rw [← Option.isSome_iff_ne_none, eventOf_isSome hstep]
      exact hsends
    · show s.events.length = channelCapacity
      have hle := hfirst.events
      omega
  | _ => exact absurd trivial hno

section Runs

variable {env : Env} {wall : DateTime} {mono : ℤ} {db : Database} {s s' : ServiceState}
  {ok : ServiceState → ServiceAction → Prop}
  {trace : List (ServiceAction × List (Scheduler.Action × List Output))}

theorem run_doomed (h : (service env wall mono db).Run ok s trace s') (hd : Doomed s)
    (hfirst : s.LoadsFirst) : Doomed s' ∧ s'.LoadsFirst :=
  h.invariant (I := fun s => Doomed s ∧ s.LoadsFirst) ⟨hd, hfirst⟩
    fun _ _ _ _ hi _ hst =>
      have hstep := serviceStep_spec hst
      ⟨(hi.1.step hi.2 hstep).1, hstep.loadsFirst hi.2⟩

/-- The loading loop fills its channel, and then nothing moves. -/
theorem Doomed.blocks (hd : Doomed s) (hfirst : s.LoadsFirst) :
    ∃ later s', (service env wall mono db).Run Machine.anyStep s later s' ∧ Blocked env s' := by
  induction hfree : channelCapacity - s.commands.length generalizing s with
  | zero =>
    refine ⟨[], s, Machine.Run.nil s, hd.loading_ne_nil hfirst, ?_⟩
    intro a
    by_contra hsome
    obtain ⟨⟨s', o⟩, hst⟩ := Option.ne_none_iff_exists'.mp hsome
    have hlt := (hd.step hfirst (serviceStep_spec hst)).2
    omega
  | succ n ih =>
    have hload : (serviceStep env s .load).isSome :=
      load_isSome (hd.loading_ne_nil hfirst) (by omega)
    obtain ⟨⟨s₁, o⟩, hst⟩ := Option.isSome_iff_exists.mp hload
    have hstep := serviceStep_spec hst
    change (service env wall mono db).step s .load = some (s₁, o) at hst
    have hcount : channelCapacity - s₁.commands.length = n := by
      cases hstep with
      | load cmd rest hloading hroom =>
        show channelCapacity - (s.commands ++ [cmd]).length = n
        rw [List.length_append, List.length_singleton]
        omega
      | loadClosed cmd rest hloading hend => exact absurd hend hd.scheduler
    obtain ⟨later, s', hrun, hblocked⟩ :=
      ih (hd.step hfirst hstep).1 (hstep.loadsFirst hfirst) hcount
    exact ⟨_, s', Machine.Run.cons trivial hst hrun, hblocked⟩

end Runs

/-! ## Tasks that run when the agent starts -/

/-- The task has an enabled trigger, and all its triggers are for the start of the
    agent. -/
def RunsAtStart (task : Task) : Prop :=
  (∀ tr ∈ task.triggers, tr.kind = .AgentStarted) ∧ ∃ tr ∈ task.triggers, tr.enabled = true

theorem RunsAtStart.loadCommands {task : Task} (h : RunsAtStart task) :
    loadCommands task = [.AddTask task, .TriggerNow task.id] := by
  obtain ⟨hkind, tr, htr, hen⟩ := h
  rw [Agent.loadCommands, if_pos]
  rw [List.any_eq_true]
  exact ⟨tr, htr, by simp [hen, hkind tr htr]⟩

/-- The loop can add such a task: no evaluation of its triggers panics. -/
theorem RunsAtStart.addTask {task : Task} (h : RunsAtStart task) (env : Env)
    (sch : SchedulerState) (readings : ℕ → Reading) :
    ∃ r, schedulerStep env sch (.command (.AddTask task) readings) = some r := by
  have henqueue : ∀ (triggers : List Trigger), (∀ tr ∈ triggers, tr.kind = .AgentStarted) →
      ∀ id gen (readings : ℕ → Reading) q,
        ∃ r, enqueueTriggers env id gen triggers readings q = .ok r := by
    intro triggers
    induction triggers with
    | nil => intro _ id gen readings q; exact ⟨_, rfl⟩
    | cons tr triggers ih =>
      intro hkind id gen readings q
      rw [enqueueTriggers]
      have hrest := fun tr' htr' => hkind tr' (List.mem_cons_of_mem tr htr')
      split_ifs
      · obtain ⟨⟨q', es⟩, heq⟩ := ih hrest id gen (fun k => readings (k + 1)) q
        refine ⟨(q', ⟨id, tr.id, (readings 0).now, none⟩ :: es), ?_⟩
        rw [hkind tr List.mem_cons_self]
        show (enqueueTriggers env id gen triggers (fun k => readings (k + 1)) q).bind _ = _
        rw [heq]
        rfl
      · exact ih hrest id gen readings q
  have hadd : ∃ r, Scheduler.addTask env task readings sch.queue.peekValid.2 = .ok r := by
    rw [Scheduler.addTask]
    split_ifs
    · exact henqueue task.triggers h.1 _ _ _ _
    · exact ⟨_, rfl⟩
  obtain ⟨⟨q, es⟩, heq⟩ := hadd
  have hstep : stepCommand env { sch with queue := sch.queue.peekValid.2 } (.AddTask task)
      readings = some ({ sch with queue := q, registeredTasks := sch.registeredTasks.insert task },
        es.map .evaluated) := by
    rw [stepCommand, heq]
  exact ⟨_, hstep⟩

/-- Both loops wait for the next task of the list, and `n` events are in the channel. -/
structure Ready (tasks : List Task) (n : ℕ) (s : ServiceState) : Prop where
  loading : s.loading = tasks.flatMap loadCommands
  commands : s.commands = []
  scheduler : s.scheduler.isSome
  sending : s.sending = none
  events : s.events.length = n

section ManyTasks

variable {env : Env} {wall : DateTime} {mono : ℤ} {db : Database} {s : ServiceState}

theorem step_load {sch : SchedulerState} {cmd : SchedulerCommand} {rest : List SchedulerCommand}
    (hsch : s.scheduler = some sch) (hloading : s.loading = cmd :: rest)
    (hcommands : s.commands = []) :
    (service env wall mono db).step s .load =
      some ({ s with loading := rest, commands := [cmd] }, []) := by
  show serviceStep env s .load = _
  simp [serviceStep, hloading, ServiceState.offer, hsch, hcommands, channelCapacity]

theorem step_receive {sch sch' : SchedulerState} {cmd : SchedulerCommand} {o : List Output}
    {readings : ℕ → Reading} (hsch : s.scheduler = some sch) (hsending : s.sending = none)
    (hcommands : s.commands = [cmd])
    (hstep : schedulerStep env sch (.command cmd readings) = some (sch', o)) :
    (service env wall mono db).step s (.turn (.receive readings)) =
      some ({ s with commands := [], scheduler := some sch', sending := eventOf o },
        [(.command cmd readings, o)]) := by
  show serviceStep env s (.turn (.receive readings)) = _
  simp [serviceStep, hsch, hsending, hcommands, Turn.action, hstep]

/-- The next task is loaded, added and triggered. -/
theorem Ready.trigger {task : Task} {tasks : List Task} {n : ℕ}
    (h : (service env wall mono db).Reachable Machine.anyStep s) (hr : Ready (task :: tasks) n s)
    (htask : RunsAtStart task) :
    ∃ s', (service env wall mono db).Reachable Machine.anyStep s' ∧
      s'.loading = tasks.flatMap loadCommands ∧ s'.commands = [] ∧ s'.scheduler.isSome ∧
      s'.sending.isSome ∧ s'.events = s.events := by
  obtain ⟨hloading, hcommands, hscheduler, hsending, hevents⟩ := hr
  obtain ⟨sch, hsch⟩ := Option.isSome_iff_exists.mp hscheduler
  obtain ⟨⟨sch', o⟩, hadd⟩ := htask.addTask env sch fun _ => ⟨0, fun _ => 0⟩
  have hnoevent : eventOf o = none := by
    rw [← Option.not_isSome_iff_eq_none, eventOf_isSome hadd]
    simp [sends]
  rw [List.flatMap_cons, htask.loadCommands] at hloading
  change s.loading = .AddTask task :: .TriggerNow task.id :: tasks.flatMap loadCommands at hloading
  have htrigger : schedulerStep env sch' (.command (.TriggerNow task.id) fun _ => ⟨0, fun _ => 0⟩) =
      some ({ sch' with queue := sch'.queue.peekValid.2 }, [.event ⟨task.id, none, 0⟩]) := rfl
  have h₁ := h.step trivial (step_load hsch hloading hcommands)
  have h₂ := h₁.step trivial (step_receive hsch hsending rfl hadd)
  have h₃ := h₂.step trivial (step_load rfl rfl rfl)
  have h₄ := h₃.step trivial (step_receive rfl hnoevent rfl htrigger)
  exact ⟨_, h₄, rfl, rfl, rfl, rfl, rfl⟩

/-- While its channel has room, the event of the task is delivered. -/
theorem Ready.next {task : Task} {tasks : List Task} {n : ℕ}
    (h : (service env wall mono db).Reachable Machine.anyStep s) (hr : Ready (task :: tasks) n s)
    (htask : RunsAtStart task) (hn : n < channelCapacity) :
    ∃ s', (service env wall mono db).Reachable Machine.anyStep s' ∧ Ready tasks (n + 1) s' := by
  obtain ⟨s₁, h₁, hloading, hcommands, hscheduler, hsending, hevents⟩ := hr.trigger h htask
  obtain ⟨ev, hev⟩ := Option.isSome_iff_exists.mp hsending
  have hdeliver : (service env wall mono db).step s₁ .deliver =
      some ({ s₁ with sending := none, events := s₁.events ++ [ev] }, []) := by
    show serviceStep env s₁ .deliver = _
    rw [serviceStep, hev]
    dsimp only
    rw [if_pos (by rw [hevents, hr.events]; exact hn)]
  refine ⟨_, h₁.step trivial hdeliver, hloading, hcommands, hscheduler, rfl, ?_⟩
  show (s₁.events ++ [ev]).length = n + 1
  rw [List.length_append, List.length_singleton, hevents, hr.events]

/-- The first tasks of the list leave their events in the channel. -/
theorem Ready.run {first tasks : List Task} {n : ℕ}
    (h : (service env wall mono db).Reachable Machine.anyStep s)
    (hr : Ready (first ++ tasks) n s) (hfirst : ∀ task ∈ first, RunsAtStart task)
    (hn : n + first.length ≤ channelCapacity) :
    ∃ s', (service env wall mono db).Reachable Machine.anyStep s' ∧
      Ready tasks (n + first.length) s' := by
  induction first generalizing s n with
  | nil => exact ⟨s, h, hr⟩
  | cons task first ih =>
    rw [List.length_cons] at hn ⊢
    obtain ⟨s₁, h₁, hr₁⟩ := Ready.next h hr (hfirst task List.mem_cons_self) (by omega)
    obtain ⟨s', h', hr'⟩ :=
      ih h₁ hr₁ (fun t ht => hfirst t (List.mem_cons_of_mem task ht)) (by omega)
    have hcount : n + 1 + first.length = n + (first.length + 1) := by omega
    exact ⟨s', h', hcount ▸ hr'⟩

theorem length_flatMap_loadCommands {tasks : List Task} (h : ∀ task ∈ tasks, RunsAtStart task) :
    (tasks.flatMap loadCommands).length = 2 * tasks.length := by
  induction tasks with
  | nil => rfl
  | cons task tasks ih =>
    rw [List.flatMap_cons, List.length_append, ih fun t ht => h t (List.mem_cons_of_mem task ht),
      (h task List.mem_cons_self).loadCommands, List.length_cons]
    show 2 + 2 * tasks.length = 2 * (tasks.length + 1)
    omega

/-- With 152 enabled tasks that run when the agent starts, loading can block. -/
theorem loading_blocks (hcount : 152 ≤ db.findAllEnabled.length)
    (htasks : ∀ task ∈ db.findAllEnabled, RunsAtStart task) :
    ∃ s, (service env wall mono db).Reachable Machine.anyStep s ∧ Blocked env s := by
  -- the event of the hundred-and-first task finds no room
  obtain ⟨first, task, rest, hsplit, hfirst⟩ : ∃ first task rest,
      db.findAllEnabled = first ++ task :: rest ∧ first.length = channelCapacity := by
    have hlt : channelCapacity < db.findAllEnabled.length := by
      rw [channelCapacity]
      omega
    refine ⟨db.findAllEnabled.take channelCapacity, db.findAllEnabled.get ⟨_, hlt⟩,
      db.findAllEnabled.drop (channelCapacity + 1), ?_, ?_⟩
    · rw [List.get_eq_getElem, ← List.drop_eq_getElem_cons hlt, List.take_append_drop]
    · rw [List.length_take]
      omega
  rw [hsplit] at htasks
  have hinit : Ready (first ++ task :: rest) 0 (service env wall mono db).init :=
    ⟨congrArg (List.flatMap loadCommands) hsplit, rfl, rfl, rfl, rfl⟩
  obtain ⟨s₁, h₁, hr₁⟩ := Ready.run Machine.Reachable.init hinit
    (fun t ht => htasks t (List.mem_append_left _ ht)) (by omega)
  obtain ⟨s₂, h₂, hloading, hcommands, hscheduler, hsending, hevents⟩ :=
    hr₁.trigger h₁ (htasks task (List.mem_append_right _ List.mem_cons_self))
  have hrest : 51 ≤ rest.length := by
    rw [hsplit, List.length_append, List.length_cons, hfirst, channelCapacity] at hcount
    omega
  have hdoomed : Doomed s₂ := by
    refine ⟨Option.isSome_iff_ne_none.mp hscheduler, Option.isSome_iff_ne_none.mp hsending, ?_, ?_⟩
    · rw [hevents, hr₁.events, hfirst, Nat.zero_add]
    · rw [hloading, hcommands, length_flatMap_loadCommands fun t ht =>
        htasks t (List.mem_append_right _ (List.mem_cons_of_mem task ht)), channelCapacity,
        List.length_nil]
      omega
  obtain ⟨later, s₃, hrun, hblocked⟩ := hdoomed.blocks (reachable_loadsFirst h₂)
  obtain ⟨tr, hreach⟩ := h₂
  exact ⟨s₃, ⟨_, hreach.append hrun⟩, hblocked⟩

end ManyTasks

/-- When can start-up deadlock? As long as every event that the scheduler loop sends
    finds room, or all commands that are still to come do, loading proceeds in every
    reachable state until it is done. Once an event is sent otherwise, it is never
    done, and the run can be continued until no step is possible. -/
theorem startup_proceeds_iff (env : Env) (wall : DateTime) (mono : ℤ) (db : Database) :
    (∀ s, (service env wall mono db).Reachable FindsRoom s → s.loading ≠ [] → Proceeds env s) ∧
    (∀ s a s' o, (service env wall mono db).Reachable Machine.anyStep s →
      serviceStep env s a = some (s', o) → ¬FindsRoom s a →
      (∀ later s'', (service env wall mono db).Run Machine.anyStep s' later s'' →
        s''.loading ≠ []) ∧
      ∃ later s'', (service env wall mono db).Run Machine.anyStep s' later s'' ∧
        Blocked env s'') := by
  refine ⟨?_, ?_⟩
  · intro s h hloading
    have hfit : s.LoadsFirst ∧ SendsFit s := by
      refine h.invariant (I := fun s => s.LoadsFirst ∧ SendsFit s)
        ⟨init_loadsFirst env wall mono db, fun hne => absurd rfl hne⟩ ?_
      intro s a t o hi hok hst
      have hstep := serviceStep_spec hst
      exact ⟨hstep.loadsFirst hi.1, hi.2.step hi.1 hok hstep⟩
    exact hfit.2.proceeds hloading
  · intro s a s' o h hst hno
    have hfirst := reachable_loadsFirst h
    have hstep := serviceStep_spec hst
    have hdoomed := doomed_of_not_findsRoom hfirst hstep hno
    refine ⟨?_, hdoomed.blocks (hstep.loadsFirst hfirst)⟩
    intro later s'' hrun
    obtain ⟨hd, hf⟩ := run_doomed hrun hdoomed (hstep.loadsFirst hfirst)
    exact hd.loading_ne_nil hf

/-- A task that runs when the agent starts. -/
def startTask (i : ℕ) : Task where
  id := ⟨i⟩
  name := "start"
  description := none
  enabled := true
  triggers := [⟨⟨i⟩, ⟨i⟩, true, .AgentStarted, 0, 0⟩]
  actions := []
  executionPolicy := {}
  workingDirectory := none
  environment := ∅
  version := 1
  createdAt := 0
  updatedAt := 0

/-- The rows of `n` such tasks. -/
def startDatabase (n : ℕ) : Database where
  tasks := ⟨(List.range n).map fun i => TaskRow.ofTask (startTask i), by
    rw [List.map_map]
    refine List.nodup_range.map fun i j h => ?_
    simpa [TaskRow.ofTask, startTask] using h⟩
  triggers := ⟨(List.range n).map fun i => ⟨⟨i⟩, ⟨⟨i⟩, ⟨i⟩, true, .AgentStarted, 0, 0⟩⟩, by
    rw [List.map_map]
    refine List.nodup_range.map fun i j h => ?_
    simpa [TriggerRow.id] using h⟩
  actions := .empty

theorem findById_startDatabase {n i : ℕ} (hi : i < n) :
    (startDatabase n).findById ⟨i⟩ = some (startTask i) := by
  have hrow : (startDatabase n).tasks.find ⟨i⟩ = some (TaskRow.ofTask (startTask i)) := by
    rw [Table.find_eq_some]
    exact ⟨List.mem_map.mpr ⟨i, List.mem_range.mpr hi, rfl⟩, rfl⟩
  have htriggers : (startDatabase n).triggersOf ⟨i⟩ = (startTask i).triggers := by
    have hone : (List.range n).filter (fun j => decide (j = i)) = [i] := by
      rw [List.filter_eq, List.count_eq_one_of_mem List.nodup_range (List.mem_range.mpr hi)]
      rfl
    rw [Database.triggersOf, startDatabase]
    simp [List.filter_map, Function.comp_def, hone, startTask]
  rw [Database.findById, hrow, htriggers]
  rfl

theorem findAllEnabled_startDatabase (n : ℕ) :
    (startDatabase n).findAllEnabled = (List.range n).map startTask := by
  have henabled : (startDatabase n).tasks.rows.filter (·.enabled) =
      (startDatabase n).tasks.rows := by
    rw [List.filter_eq_self]
    intro row hrow
    obtain ⟨i, -, rfl⟩ := List.mem_map.mp hrow
    rfl
  rw [Database.findAllEnabled, henabled]
  show ((List.range n).map fun i => TaskRow.ofTask (startTask i)).filterMap _ = _
  rw [List.filterMap_map, ← List.filterMap_eq_map]
  refine List.filterMap_congr fun i hi => ?_
  exact findById_startDatabase (List.mem_range.mp hi)

/-- With two tasks that run at the start, the loop takes the commands of the first one and waits
    to send its event. -/
def firstStarted : List ServiceAction :=
  [.load, .load, .turn (.receive fun _ => ⟨0, fun _ => 0⟩),
    .turn (.receive fun _ => ⟨0, fun _ => 0⟩)]

theorem firstStarted_possible : ((service utcOnly 0 0 (startDatabase 2)).exec FindsRoom
    (service utcOnly 0 0 (startDatabase 2)).init firstStarted).isSome = true := by decide +kernel

def whenFirstStarted : ServiceState :=
  (((service utcOnly 0 0 (startDatabase 2)).exec FindsRoom
    (service utcOnly 0 0 (startDatabase 2)).init firstStarted).get firstStarted_possible).2

/-- There is room for the event, so loading goes on. -/
theorem startup_proceeds_two :
    whenFirstStarted.sending.isSome = true ∧ Proceeds utcOnly whenFirstStarted := by
  have hloading : whenFirstStarted.loading.isEmpty = false := by decide +kernel
  refine ⟨by decide +kernel, ?_⟩
  refine (startup_proceeds_iff utcOnly 0 0 (startDatabase 2)).1 whenFirstStarted
    ⟨_, Machine.exec_get_run firstStarted_possible⟩ ?_
  rintro hnil
  rw [hnil] at hloading
  cases hloading

/-- The agent cannot start with 152 tasks that run at its start. -/
theorem startup_deadlocks :
    ∃ s, (service utcOnly 0 0 (startDatabase 152)).Reachable Machine.anyStep s ∧
      Blocked utcOnly s := by
  apply loading_blocks
  · rw [findAllEnabled_startDatabase, List.length_map, List.length_range]
  · intro task htask
    rw [findAllEnabled_startDatabase] at htask
    obtain ⟨i, -, rfl⟩ := List.mem_map.mp htask
    exact ⟨by simp [startTask], _, List.mem_cons_self, rfl⟩

end EasyJob.Agent
