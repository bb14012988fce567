import EasyJob.Agent.Service
import EasyJob.Scheduler.Entries

/-!
# Repository and scheduler

A handler writes to the repository and then sends its command, in two steps. The
commands of a task reach the scheduler in the order of its writes only if its
handlers send in that order.

* `unapplied_agrees`: once the commands on their way are applied, the scheduler
  has registered what the repository stores.
* `repository_agrees`: with no handler running and an empty channel, both agree.
* `repository_disagrees`: a deleted task stays scheduled when its last `save`
  sends after the `delete` has.
-/

namespace EasyJob.Agent

open EasyJob.Chrono EasyJob.Domain EasyJob.Persistence EasyJob.Scheduler Transition

/-! ## What commands do to the registration of a task -/

/-- The registration of the task `id` after the command. -/
def register (id : TaskId) (registered : Option Task) : SchedulerCommand → Option Task
  | .AddTask task => if id = task.id then some task else registered
  | .RemoveTask removed => if id = removed then none else registered
  | .TriggerNow _ | .RerollTrigger _ _ | .Shutdown => registered

/-- The registration of the task after all the commands. -/
def registerAll (id : TaskId) (cmds : List SchedulerCommand) (registered : Option Task) :
    Option Task :=
  cmds.foldl (register id) registered

/-- The command may change the registration of the task. -/
def concerns (id : TaskId) : SchedulerCommand → Bool
  | .AddTask task => decide (id = task.id)
  | .RemoveTask removed => decide (id = removed)
  | .TriggerNow _ | .RerollTrigger _ _ | .Shutdown => false

theorem registerAll_append (id : TaskId) (cmds cmds' : List SchedulerCommand)
    (registered : Option Task) :
    registerAll id (cmds ++ cmds') registered =
      registerAll id cmds' (registerAll id cmds registered) :=
  List.foldl_append

theorem register_of_not_concerns {id : TaskId} {cmd : SchedulerCommand}
    (h : concerns id cmd = false) (registered : Option Task) :
    register id registered cmd = registered := by
  cases cmd with
  | AddTask task => exact if_neg (by simpa [concerns] using h)
  | RemoveTask removed => exact if_neg (by simpa [concerns] using h)
  | _ => rfl

/-- Only the commands of a task matter to it. -/
theorem registerAll_filter (id : TaskId) (cmds : List SchedulerCommand)
    (registered : Option Task) :
    registerAll id (cmds.filter (concerns id)) registered = registerAll id cmds registered := by
  induction cmds generalizing registered with
  | nil => rfl
  | cons cmd cmds ih =>
    rw [List.filter_cons]
    split_ifs with hc
    · exact ih _
    · rw [ih]
      show registerAll id cmds registered = registerAll id cmds (register id registered cmd)
      rw [register_of_not_concerns (by simpa using hc)]

theorem registerAll_congr {id : TaskId} {cmds cmds' : List SchedulerCommand}
    (h : cmds.filter (concerns id) = cmds'.filter (concerns id)) (registered : Option Task) :
    registerAll id cmds registered = registerAll id cmds' registered := by
  rw [← registerAll_filter, h, registerAll_filter]

/-- A turn of the loop registers what its command says. -/
theorem registered_of_turn {env : Env} {sch sch' : SchedulerState} {t : Turn}
    {commands rest : List SchedulerCommand} {a : Scheduler.Action} {o : List Output}
    (haction : t.action commands = some (a, rest))
    (hstep : schedulerStep env sch a = some (sch', o)) (id : TaskId) :
    registerAll id rest (sch'.registeredTasks.get id) =
      registerAll id commands (sch.registeredTasks.get id) := by
  have hreg := (schedulerStep_refines hstep).registered id
  change sch'.registeredTasks.get id = a.register sch.registeredTasks.get id at hreg
  rw [hreg]
  cases t with
  | receive readings =>
    cases commands with
    | nil => cases haction
    | cons cmd rest' =>
      cases haction
      cases cmd <;> rfl
  | fire wake reading =>
    cases haction
    rfl
  | tick wall mono now draws newWall newMono =>
    cases haction
    rfl

/-! ## Agreement -/

/-- The stored task is what `save` makes of the task. -/
def SameVersion (stored task : Task) : Prop :=
  stored = { task with
    actions := sortBySequence task.actions
    version := stored.version
    createdAt := stored.createdAt }

/-- The scheduler has registered what the repository stores. A disabled task may be
    missing: it is not loaded at start-up. -/
def Agrees : (stored registered : Option Task) → Prop
  | none, registered => registered = none
  | some stored, none => stored.enabled = false
  | some stored, some task => SameVersion stored task

/-- A task that was read from the repository is stored as it is. -/
theorem sameVersion_self {db : Database} {id : TaskId} {task : Task}
    (h : db.findById id = some task) : SameVersion task task := by
  have hsorted := Database.findById_sorted h
  rw [SameVersion, hsorted]

/-- A write and its command keep the agreement. -/
theorem Agrees.write {db db' : Database} {req : Request} (hwrite : req.write db = some db')
    {id : TaskId} {registered : Option Task} (h : Agrees (db.findById id) registered) :
    Agrees (db'.findById id) (register id registered req.command) := by
  cases req with
  | save task =>
    rw [Database.findById_save hwrite id]
    show Agrees _ (if id = task.id then some task else registered)
    split_ifs
    · rfl
    · exact h
  | delete removed =>
    cases hwrite
    rw [Database.findById_delete]
    show Agrees _ (if id = removed then none else registered)
    split_ifs
    · rfl
    · exact h

/-! ## The invariant -/

/-- The commands that have not been applied yet. -/
def ServiceState.unapplied (s : ServiceState) : List SchedulerCommand :=
  s.commands ++ s.loading ++ s.committed.map Request.command

structure RegistrationInv (s : ServiceState) : Prop where
  agrees : ∀ sch, s.scheduler = some sch → ∀ id,
    Agrees (s.db.findById id) (registerAll id s.unapplied (sch.registeredTasks.get id))
  distinct : ∀ task, .AddTask task ∈ s.unapplied → task.DistinctTriggerIds

/-- A handler sends only after the handlers of its task that wrote earlier. -/
def InCommitOrder (s : ServiceState) : ServiceAction → Prop
  | .send i =>
    ∀ req ∈ s.committed[i]?, ∀ earlier ∈ s.committed.take i, earlier.taskId ≠ req.taskId
  | _ => True

instance (s : ServiceState) : DecidablePred (InCommitOrder s)
  | .send i => inferInstanceAs (Decidable (∀ req ∈ s.committed[i]?,
      ∀ earlier ∈ s.committed.take i, earlier.taskId ≠ req.taskId))
  | .load | .accept _ | .commit _ _ | .turn _ | .stop _ | .deliver | .dispatch => isTrue trivial

theorem concerns_command (id : TaskId) (req : Request) :
    concerns id req.command = decide (id = req.taskId) := by
  cases req <;> rfl

/-- Sending in order moves a command before others only if these are for other
    tasks. -/
theorem filter_send {s : ServiceState} {i : ℕ} {req : Request}
    (hreq : s.committed[i]? = some req) (horder : InCommitOrder s (.send i)) (id : TaskId) :
    ([req.command] ++ (s.committed.eraseIdx i).map Request.command).filter (concerns id) =
      (s.committed.map Request.command).filter (concerns id) := by
  obtain ⟨hi, hget⟩ := List.getElem?_eq_some_iff.mp hreq
  have hsplit : s.committed = s.committed.take i ++ req :: s.committed.drop (i + 1) := by
    rw [← hget, ← List.drop_eq_getElem_cons hi, List.take_append_drop]
  rw [List.eraseIdx_eq_take_drop_succ]
  conv_rhs => rw [hsplit]
  simp only [List.map_append, List.map_cons, List.filter_append, List.filter_cons, List.filter_nil,
    concerns_command]
  split_ifs with hid
  · -- the earlier handlers are of other tasks
    have hid' : id = req.taskId := by simpa using hid
    have hnone : ((s.committed.take i).map Request.command).filter (concerns id) = [] := by
      rw [List.filter_eq_nil_iff]
      intro cmd hcmd
      obtain ⟨earlier, hmem, rfl⟩ := List.mem_map.mp hcmd
      have hne := horder req hreq earlier hmem
      rw [concerns_command, hid']
      simpa using hne.symm
    rw [hnone, List.nil_append, List.nil_append]
    rfl
  · rfl

/-- Loading registers the last task with the id in the list, if there is one. -/
theorem registerAll_load (id : TaskId) (tasks : List Task) (registered : Option Task) :
    (∃ task ∈ tasks, task.id = id ∧
        registerAll id (tasks.flatMap loadCommands) registered = some task) ∨
      (∀ task ∈ tasks, task.id ≠ id) ∧
        registerAll id (tasks.flatMap loadCommands) registered = registered := by
  induction tasks generalizing registered with
  | nil => exact .inr ⟨by simp, rfl⟩
  | cons task tasks ih =>
    have hload : registerAll id (loadCommands task) registered =
        if id = task.id then some task else registered := by
      rw [loadCommands]
      split <;> rfl
    rw [List.flatMap_cons, registerAll_append, hload]
    rcases ih (if id = task.id then some task else registered) with
      ⟨t, ht, hid, heq⟩ | ⟨hne, heq⟩
    · exact .inl ⟨t, List.mem_cons_of_mem _ ht, hid, heq⟩
    · rw [heq]
      split_ifs with hid
      · exact .inl ⟨task, List.mem_cons_self, hid.symm, rfl⟩
      · refine .inr ⟨?_, rfl⟩
        intro t ht
        rcases List.mem_cons.mp ht with rfl | ht
        · exact fun h => hid h.symm
        · exact hne t ht

theorem RegistrationInv.init (env : Env) (wall : DateTime) (mono : ℤ) (db : Database) :
    RegistrationInv (service env wall mono db).init := by
  have hunapplied : (service env wall mono db).init.unapplied =
      db.findAllEnabled.flatMap loadCommands := by
    simp [service, ServiceState.unapplied]
  refine ⟨?_, ?_⟩
  · intro sch hsch id
    cases hsch
    rw [hunapplied]
    show Agrees (db.findById id) (registerAll id (db.findAllEnabled.flatMap loadCommands) none)
    rcases registerAll_load id db.findAllEnabled none with ⟨task, htask, rfl, heq⟩ | ⟨hne, heq⟩
    · have hfind := (Database.mem_findAllEnabled.mp htask).1
      rw [heq, hfind]
      exact sameVersion_self hfind
    · rw [heq]
      cases hfind : db.findById id with
      | none => rfl
      | some stored =>
        -- an enabled task would have been loaded
        have hid := Database.findById_id hfind
        show stored.enabled = false
        by_contra hen
        rw [Bool.not_eq_false] at hen
        exact hne stored (Database.mem_findAllEnabled.mpr ⟨hid ▸ hfind, hen⟩) hid
  · intro task htask
    rw [hunapplied] at htask
    obtain ⟨loaded, hloaded, hmem⟩ := List.mem_flatMap.mp htask
    have hdistinct := Database.findById_distinct (Database.mem_findAllEnabled.mp hloaded).1
    rw [loadCommands] at hmem
    split_ifs at hmem
    · obtain rfl : task = loaded := by simpa using hmem
      exact hdistinct
    · obtain rfl : task = loaded := by simpa using hmem
      exact hdistinct

section Inv

variable {s s' : ServiceState}

/-- The order of commands for different tasks does not matter. -/
theorem RegistrationInv.congr (hi : RegistrationInv s) (hdb : s'.db = s.db)
    (hsch : s'.scheduler = s.scheduler)
    (hfilter : ∀ id, s'.unapplied.filter (concerns id) = s.unapplied.filter (concerns id)) :
    RegistrationInv s' where
  agrees sch hsome id := by
    rw [hsch] at hsome
    rw [hdb, registerAll_congr (hfilter id)]
    exact hi.agrees sch hsome id
  distinct task htask := by
    have hmem : .AddTask task ∈ s.unapplied.filter (concerns task.id) := by
      rw [← hfilter]
      exact List.mem_filter.mpr ⟨htask, by simp [concerns]⟩
    exact hi.distinct task (List.mem_of_mem_filter hmem)

/-- Without a scheduler, commands may get lost. -/
theorem RegistrationInv.stopped (hi : RegistrationInv s) (hnone : s'.scheduler = none)
    (hsub : ∀ cmd ∈ s'.unapplied, cmd ∈ s.unapplied) : RegistrationInv s' where
  agrees sch hsome := by
    rw [hnone] at hsome
    cases hsome
  distinct task htask := hi.distinct task (hsub _ htask)

theorem RegistrationInv.commit (hi : RegistrationInv s) {i : ℕ} {req : Request} {db : Database}
    (hwrite : req.write s.db = some db) :
    RegistrationInv { s with
      db := db, accepted := s.accepted.eraseIdx i, committed := s.committed ++ [req] } := by
  have happend : s.commands ++ s.loading ++ (s.committed ++ [req]).map Request.command =
      s.unapplied ++ [req.command] := by
    simp [ServiceState.unapplied]
  refine ⟨?_, ?_⟩
  · intro sch hsch id
    show Agrees _ (registerAll id
      (s.commands ++ s.loading ++ (s.committed ++ [req]).map Request.command) _)
    rw [happend, registerAll_append]
    exact (hi.agrees sch hsch id).write hwrite
  · intro task htask
    change _ ∈ s.commands ++ s.loading ++ (s.committed ++ [req]).map Request.command at htask
    rw [happend] at htask
    rcases List.mem_append.mp htask with hold | hnew
    · exact hi.distinct task hold
    · cases req with
      | save saved =>
        obtain rfl : task = saved := by simpa [Request.command] using hnew
        exact Database.stored_distinct hwrite
      | delete removed => simp [Request.command] at hnew

theorem RegistrationInv.turn {env : Env} (hi : RegistrationInv s) {t : Turn}
    {sch sch' : SchedulerState} {a : Scheduler.Action} {commands : List SchedulerCommand}
    {o : List Output} (hsch : s.scheduler = some sch)
    (haction : t.action s.commands = some (a, commands))
    (hstep : schedulerStep env sch a = some (sch', o)) :
    RegistrationInv { s with
      commands := commands, scheduler := some sch', sending := eventOf o } := by
  have hsuffix := (Turn.action_suffix haction).subset
  refine ⟨?_, ?_⟩
  · intro sch₁ hsch₁ id
    cases hsch₁
    have hagree := hi.agrees sch hsch id
    rw [ServiceState.unapplied, List.append_assoc, registerAll_append] at hagree
    show Agrees _ (registerAll id
      (commands ++ s.loading ++ s.committed.map Request.command) _)
    rw [List.append_assoc, registerAll_append, registered_of_turn haction hstep]
    exact hagree
  · intro task htask
    refine hi.distinct task ?_
    change _ ∈ commands ++ s.loading ++ s.committed.map Request.command at htask
    rw [List.append_assoc] at htask
    rw [ServiceState.unapplied, List.append_assoc]
    rcases List.mem_append.mp htask with hcmd | hrest
    · exact List.mem_append_left _ (hsuffix hcmd)
    · exact List.mem_append_right _ hrest

theorem RegistrationInv.step {env : Env} {a : ServiceAction}
    {o : List (Scheduler.Action × List Output)} (hfirst : s.LoadsFirst) (hi : RegistrationInv s)
    (horder : InCommitOrder s a) (h : s.Step env a s' o) : RegistrationInv s' := by
  cases h with
  | load cmd rest hload hroom =>
    have hsame : s.commands ++ [cmd] ++ rest ++ s.committed.map Request.command = s.unapplied := by
      rw [ServiceState.unapplied, hload]
      simp
    exact hi.congr rfl rfl fun id => congrArg (List.filter (concerns id)) hsame
  | loadClosed cmd rest hload hend =>
    refine hi.stopped hend fun cmd' hcmd => ?_
    simp only [ServiceState.unapplied, hload, List.mem_append, List.mem_cons] at hcmd ⊢
    tauto
  | commit i req db hreq hwrite => exact hi.commit hwrite
  | send i req hreq hroom =>
    have hload : s.loading = [] := by
      by_contra hne
      rw [(hfirst.handlers hne).2] at hreq
      cases hreq
    refine hi.congr rfl rfl fun id => ?_
    show (s.commands ++ [req.command] ++ s.loading ++
      (s.committed.eraseIdx i).map Request.command).filter (concerns id) = _
    rw [ServiceState.unapplied, hload, List.append_nil, List.append_nil, List.append_assoc,
      List.filter_append, filter_send hreq horder, ← List.filter_append]
  | sendClosed i hend =>
    refine hi.stopped hend fun cmd hcmd => ?_
    have hsub : ((s.committed.eraseIdx i).map Request.command).Sublist
        (s.committed.map Request.command) := (List.eraseIdx_sublist _ _).map _
    exact ((List.Sublist.refl _).append hsub).subset hcmd
  | turn t sch sch' a commands o hsch hsending haction hstep => exact hi.turn hsch haction hstep
  | stop t hsending =>
    refine hi.stopped rfl fun cmd hcmd => ?_
    simp only [ServiceState.unapplied, List.nil_append, List.mem_append] at hcmd ⊢
    tauto
  | accept req hload | commitFailed i ok req hreq | deliver ev hsending hroom
  | dispatch ev events hevents hload => exact ⟨hi.agrees, hi.distinct⟩

end Inv

section Runs

variable {env : Env} {wall : DateTime} {mono : ℤ} {db : Database} {s : ServiceState}
  {trace : List (ServiceAction × List (Scheduler.Action × List Output))}

theorem reachable_registrationInv (h : (service env wall mono db).Reachable InCommitOrder s) :
    RegistrationInv s := by
  have hinv : s.LoadsFirst ∧ RegistrationInv s := by
    refine h.invariant (I := fun s => s.LoadsFirst ∧ RegistrationInv s)
      ⟨init_loadsFirst env wall mono db, RegistrationInv.init env wall mono db⟩ ?_
    intro s a t o hi hok hst
    have hstep := serviceStep_spec hst
    exact ⟨hstep.loadsFirst hi.1, hi.2.step hi.1 hok hstep⟩
  exact hinv.2

/-- Once the commands on their way are applied, the scheduler has registered what the
    repository stores. -/
theorem unapplied_agrees (h : (service env wall mono db).Reachable InCommitOrder s)
    {sch : SchedulerState} (hsch : s.scheduler = some sch) (id : TaskId) :
    Agrees (s.db.findById id) (registerAll id s.unapplied (sch.registeredTasks.get id)) :=
  (reachable_registrationInv h).agrees sch hsch id

/-- The turns of the loop are a run of the scheduler, and it adds only tasks whose
    triggers have distinct ids. -/
theorem run_turns
    (h : (service env wall mono db).Run InCommitOrder (service env wall mono db).init trace s)
    {sch : SchedulerState} (hsch : s.scheduler = some sch) :
    DistinctRun env wall mono (Machine.outputs trace) sch := by
  have hrun : ∀ sch, s.scheduler = some sch →
      DistinctRun env wall mono (Machine.outputs trace) sch := by
    refine Machine.Run.history (I := fun trace s => ∀ sch, s.scheduler = some sch →
      DistinctRun env wall mono (Machine.outputs trace) sch) h ?_ ?_
    · intro sch hsch
      cases hsch
      exact Machine.Run.nil _
    · intro trace t a u o hrun ih hok hst sch hsch
      rw [Machine.outputs_append, Machine.outputs_singleton]
      have hinv := reachable_registrationInv ⟨trace, hrun⟩
      cases serviceStep_spec hst with
      | turn turn sch₀ sch₁ action commands out hsch₀ hsending haction hstep =>
        cases hsch
        refine (ih sch₀ hsch₀).snoc ?_ hstep
        cases turn with
        | receive readings =>
          cases hcmds : t.commands with
          | nil =>
            rw [hcmds] at haction
            cases haction
          | cons cmd rest =>
            rw [hcmds] at haction
            cases haction
            cases cmd with
            | AddTask task =>
              exact hinv.distinct task (by simp [ServiceState.unapplied, hcmds])
            | _ => trivial
        | fire wake reading =>
          cases haction
          trivial
        | tick wall mono now draws newWall newMono =>
          cases haction
          trivial
      | stop turn hsending => cases hsch
      | _ =>
        rw [List.append_nil]
        exact ih sch hsch
  exact hrun sch hsch

end Runs

/-! ## Repository and scheduler at rest -/

/-- All handlers have returned and the channel to the scheduler is empty. -/
structure ServiceState.Settled (s : ServiceState) : Prop where
  loading : s.loading = []
  accepted : s.accepted = []
  committed : s.committed = []
  commands : s.commands = []

/-- A trigger that no registered task wants has no valid item. -/
theorem validItemsOf_eq_nil {sch : SchedulerState} (hsafe : sch.schedule.Safe) {id : TaskId}
    {tr : TriggerId} (h : ¬sch.schedule.Wants id tr) : sch.validItemsOf id tr = [] := by
  rw [← List.length_eq_zero_iff, length_validItemsOf, Multiset.count_eq_zero]
  intro hmem
  obtain ⟨e, he, hkey⟩ := Multiset.mem_map.mp hmem
  have hwants := hsafe e he
  obtain ⟨hid, htr⟩ := Prod.mk.inj hkey
  rw [hid, htr] at hwants
  exact h hwants

theorem SameVersion.schedules {stored task : Task} (h : SameVersion stored task) (tr : TriggerId) :
    stored.Schedules tr ↔ task.Schedules tr := by
  rw [h]
  rfl

/-- If every handler sends after the earlier writers of its task have sent, then with
    all handlers returned and the channel drained the scheduler agrees with the
    repository. A task that is not stored is not registered, and a task that is not
    stored, or stored disabled, has no valid item in the queue. A task stored
    enabled is registered as it was saved, only its enabled triggers have valid
    items, and each of them has exactly one if its evaluations since the task was
    last added have given a time. -/
theorem repository_agrees {env : Env} {wall : DateTime} {mono : ℤ} {db : Database}
    {s : ServiceState} {trace : List (ServiceAction × List (Scheduler.Action × List Output))}
    (h : (service env wall mono db).Run InCommitOrder (service env wall mono db).init trace s)
    (hsettled : s.Settled) {sch : SchedulerState} (hsch : s.scheduler = some sch) (id : TaskId) :
    (s.db.findById id = none →
      sch.registeredTasks.get id = none ∧ ∀ tr, sch.validItemsOf id tr = []) ∧
    (∀ stored, s.db.findById id = some stored → stored.enabled = false →
      ∀ tr, sch.validItemsOf id tr = []) ∧
    (∀ stored, s.db.findById id = some stored → stored.enabled = true →
      ∃ task, sch.registeredTasks.get id = some task ∧ SameVersion stored task ∧
        (∀ tr, ¬stored.Schedules tr → sch.validItemsOf id tr = []) ∧
        ∀ tr, stored.Schedules tr → SomeSinceAdded id tr (Machine.outputs trace) →
          (sch.validItemsOf id tr).length = 1) := by
  have hagrees := unapplied_agrees ⟨trace, h⟩ hsch id
  have hunapplied : s.unapplied = [] := by
    simp [ServiceState.unapplied, hsettled.commands, hsettled.loading, hsettled.committed]
  rw [hunapplied] at hagrees
  change Agrees (s.db.findById id) (sch.registeredTasks.get id) at hagrees
  have hrun := run_turns h hsch
  have hsafe : sch.schedule.Safe := reachable_safe ⟨_, hrun⟩
  -- the registered version is the only one that wants a trigger
  have hnone : ∀ tr, (∀ task, sch.registeredTasks.get id = some task → ¬task.Schedules tr) →
      sch.validItemsOf id tr = [] := by
    intro tr hno
    apply validItemsOf_eq_nil hsafe
    rintro ⟨task, hreg, hwants⟩
    exact hno task hreg hwants
  refine ⟨?_, ?_, ?_⟩
  · intro hfind
    rw [hfind] at hagrees
    refine ⟨hagrees, fun tr => hnone tr ?_⟩
    intro task hreg
    cases hreg.symm.trans hagrees
  · intro stored hfind hdis tr
    apply hnone tr
    intro task hreg hwants
    rw [hfind, hreg] at hagrees
    have hstored := (SameVersion.schedules hagrees tr).mpr hwants
    have hen := hstored.1
    rw [hdis] at hen
    cases hen
  · intro stored hfind hen
    rw [hfind] at hagrees
    cases hreg : sch.registeredTasks.get id with
    | none =>
      rw [hreg] at hagrees
      cases hen.symm.trans hagrees
    | some task =>
      rw [hreg] at hagrees
      have hsame : SameVersion stored task := hagrees
      refine ⟨task, rfl, hsame, ?_, ?_⟩
      · intro tr hno
        apply hnone tr
        intro task' hreg' hwants
        cases hreg.symm.trans hreg'
        exact hno ((hsame.schedules tr).mpr hwants)
      · intro tr hwants hsome
        have hmem := run_entry hrun hreg ((hsame.schedules tr).mp hwants) hsome
        rw [length_validItemsOf]
        exact Multiset.count_eq_one_of_mem (run_uniqueKeys hrun) hmem

/-- The hourly task, to be run every two hours. -/
def twoHourlyTask : Task :=
  { hourlyTask with triggers := [⟨⟨7⟩, ⟨1⟩, true, .Interval 7200 none, 0, 0⟩] }

/-- The hourly task is saved while another request for it is handled. Both handlers write before
    the first of them sends. -/
def withSave (req : Request) : List ServiceAction :=
  [.accept (.save hourlyTask), .accept req, .commit 0 true, .commit 0 true, .send 0, .send 0,
    .turn (.receive fun _ => ⟨0, fun _ => 0⟩), .turn (.receive fun _ => ⟨0, fun _ => 0⟩)]

def withSaveExec (req : Request) :=
  (service utcOnly 0 0 .empty).exec InCommitOrder (service utcOnly 0 0 .empty).init (withSave req)

theorem savedTwice_isSome : (withSaveExec (.save twoHourlyTask)).isSome = true := by
  decide +kernel

theorem savedDeleted_isSome : (withSaveExec (.delete ⟨1⟩)).isSome = true := by decide +kernel

def savedTwice : ServiceState := ((withSaveExec (.save twoHourlyTask)).get savedTwice_isSome).2

def savedDeleted : ServiceState := ((withSaveExec (.delete ⟨1⟩)).get savedDeleted_isSome).2

def savedScheduler : SchedulerState := savedTwice.scheduler.get (by decide +kernel)

def deletedScheduler : SchedulerState := savedDeleted.scheduler.get (by decide +kernel)

/-- With two saves, there is one valid item for the task in the end; with a deletion that writes
    last, there is none. -/
theorem repository_agrees_hourly :
    (savedScheduler.validItemsOf ⟨1⟩ ⟨7⟩).length = 1 ∧
      deletedScheduler.registeredTasks.get ⟨1⟩ = none ∧
        ∀ tr, deletedScheduler.validItemsOf ⟨1⟩ tr = [] := by
  constructor
  · have hrun : (service utcOnly 0 0 .empty).Run InCommitOrder (service utcOnly 0 0 .empty).init
        ((withSaveExec (.save twoHourlyTask)).get savedTwice_isSome).1 savedTwice :=
      Machine.exec_get_run savedTwice_isSome
    obtain ⟨-, -, henabled⟩ := repository_agrees hrun ⟨rfl, rfl, rfl, rfl⟩
      (Option.some_get (by decide +kernel)).symm ⟨1⟩
    obtain ⟨task, -, -, -, hone⟩ := henabled _ rfl rfl
    refine hone ⟨7⟩ ⟨rfl, _, List.mem_cons_self, rfl, rfl⟩ ?_
    -- both evaluations give a time
    intro pre a o post heq hnone
    have hout : (Machine.outputs
        ((withSaveExec (.save twoHourlyTask)).get savedTwice_isSome).1).map Prod.snd =
      [[.evaluated ⟨⟨1⟩, ⟨7⟩, 0, some (3600 * nanosPerSec)⟩],
        [.evaluated ⟨⟨1⟩, ⟨7⟩, 0, some (7200 * nanosPerSec)⟩]] := rfl
    have ho : o ∈ [[.evaluated ⟨⟨1⟩, ⟨7⟩, 0, some (3600 * nanosPerSec)⟩],
        [.evaluated ⟨⟨1⟩, ⟨7⟩, 0, some (7200 * nanosPerSec)⟩]] := by
      rw [← hout, heq]
      exact List.mem_map.mpr ⟨(a, o), by simp, rfl⟩
    rcases List.mem_pair.mp ho with rfl | rfl
    · simp [evaluations] at hnone
    · simp [evaluations] at hnone
  · have hrun : (service utcOnly 0 0 .empty).Run InCommitOrder (service utcOnly 0 0 .empty).init
        ((withSaveExec (.delete ⟨1⟩)).get savedDeleted_isSome).1 savedDeleted :=
      Machine.exec_get_run savedDeleted_isSome
    obtain ⟨hdeleted, -⟩ := repository_agrees hrun ⟨rfl, rfl, rfl, rfl⟩
      (Option.some_get (by decide +kernel)).symm ⟨1⟩
    exact hdeleted rfl

/-- The hourly task is saved and then deleted; the handler of the deletion sends
    first. -/
def overtakeActions : List ServiceAction :=
  [.accept (.save hourlyTask), .accept (.delete ⟨1⟩), .commit 0 true, .commit 0 true,
    .send 1, .send 0, .turn (.receive fun _ => ⟨0, fun _ => 0⟩),
    .turn (.receive fun _ => ⟨0, fun _ => 0⟩)]

def overtakeExec :=
  (service utcOnly 0 0 .empty).exec Machine.anyStep (service utcOnly 0 0 .empty).init
    overtakeActions

theorem overtakeExec_isSome : overtakeExec.isSome = true := by decide

def overtakeState : ServiceState := (overtakeExec.get overtakeExec_isSome).2

/-- With all handlers returned and the channel drained, the deleted task has a valid
    item in the queue. -/
theorem repository_disagrees :
    ∃ s sch, (service utcOnly 0 0 .empty).Reachable Machine.anyStep s ∧ s.Settled ∧
      s.scheduler = some sch ∧ s.db.findById ⟨1⟩ = none ∧
      (sch.validItemsOf ⟨1⟩ ⟨7⟩).length = 1 :=
  ⟨overtakeState, overtakeState.scheduler.get (by decide),
    ⟨_, Machine.exec_get_run overtakeExec_isSome⟩, ⟨rfl, rfl, rfl, rfl⟩,
    (Option.some_get _).symm, rfl, by decide⟩

end EasyJob.Agent
