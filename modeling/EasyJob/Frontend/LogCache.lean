import EasyJob.Frontend.ExecutionStore

/-!
# The lines of the executions

Model of what fills `logs` in `apps/desktop/src/stores/executionStore.ts` (lines 69–95 and
118–135): the listener of `execution.output` that the application starts, the one of every log
drawer (`components/console/LiveLogDrawer.vue` lines 108–121 and 143–154), and the requests of
`fetchExecutionLogs`.

* `appendLog_lookup`, `appendLog_frame`: one line more, and what becomes of the other executions.
* `logCache_bounded`: the cache keeps its limits as long as the records that arrive fit.
* `logCache_unbounded`: 2001 records of one execution.
* `liveOutput_once`: the lines of an execution are those of its outputs, as long as no drawer
  follows it.
* `liveOutput_twice`: the drawer is open, and the first line comes.
-/

namespace EasyJob.Frontend

open EasyJob.Domain Transition

/-! ## The last lines -/

/-- What is kept of the lines of an execution. -/
def lastLines (lines : List String) : List String :=
  lines.drop (lines.length - maxLinesPerExecution)

theorem lastLines_nil : lastLines [] = [] := by
  rw [lastLines, List.drop_nil]

theorem length_lastLines_le (lines : List String) :
    (lastLines lines).length ≤ maxLinesPerExecution := by
  rw [lastLines, List.length_drop]
  omega

theorem lastLines_of_le {lines : List String} (h : lines.length ≤ maxLinesPerExecution) :
    lastLines lines = lines := by
  have hzero : lines.length - maxLinesPerExecution = 0 := by omega
  rw [lastLines, hzero, List.drop_zero]

/-- One line more gives the same whether what it follows was cut or not. -/
theorem lastLines_append (lines : List String) (content : String) :
    lastLines (lastLines lines ++ [content]) = lastLines (lines ++ [content]) := by
  have hpos : 0 < maxLinesPerExecution := by decide
  by_cases hle : lines.length ≤ maxLinesPerExecution
  · rw [lastLines_of_le hle]
  · have hlength : (lastLines lines).length = maxLinesPerExecution := by
      rw [lastLines, List.length_drop]
      omega
    have hone : (lastLines lines ++ [content]).length - maxLinesPerExecution = 1 := by
      rw [List.length_append, hlength, List.length_singleton]
      omega
    have hnext : (lines ++ [content]).length - maxLinesPerExecution =
        lines.length - maxLinesPerExecution + 1 := by
      rw [List.length_append, List.length_singleton]
      omega
    have hcut : lastLines (lastLines lines ++ [content]) =
        (lastLines lines).drop 1 ++ [content] := by
      rw [lastLines, hone, List.drop_append_of_le_length (by omega)]
    rw [hcut, lastLines, List.drop_drop, lastLines, hnext,
      List.drop_append_of_le_length (by omega), Nat.add_comm]

/-! ## Assigning an entry -/

namespace ExecutionStore

variable {logs : List (ExecutionId × List String)} {id other : ExecutionId} {lines : List String}

theorem lookup_isSome_iff_mem :
    (logs.lookup id).isSome = true ↔ id ∈ logs.map Prod.fst := by
  induction logs with
  | nil => simp
  | cons log logs ih =>
    rw [List.lookup_cons, List.map_cons, List.mem_cons]
    by_cases hid : id = log.1
    · simp [hid]
    · have hbeq : (id == log.1) = false := beq_eq_false_iff_ne.mpr hid
      rw [hbeq, or_iff_right hid]
      exact ih

theorem lookup_setLog_self : (setLog logs id lines).lookup id = some lines := by
  unfold setLog
  split_ifs with hcached
  · induction logs with
    | nil => cases hcached
    | cons log logs ih =>
      rw [List.lookup_cons] at hcached
      rw [List.map_cons, List.lookup_cons]
      by_cases hid : log.1 = id
      · simp [hid]
      · have hbeq : (id == log.1) = false := beq_eq_false_iff_ne.mpr (Ne.symm hid)
        rw [hbeq] at hcached
        rw [if_neg hid, hbeq]
        exact ih hcached
  · rw [Bool.not_eq_true, Option.isSome_eq_false_iff, Option.isNone_iff_eq_none] at hcached
    simp [List.lookup_append, hcached]

/-- The other executions keep their entries. -/
theorem lookup_setLog_of_ne (hne : other ≠ id) :
    (setLog logs id lines).lookup other = logs.lookup other := by
  have hbeq : (other == id) = false := beq_eq_false_iff_ne.mpr hne
  have hmap : (logs.map fun log => if log.1 = id then (id, lines) else log).lookup other =
      logs.lookup other := by
    induction logs with
    | nil => rfl
    | cons log logs ih =>
      rw [List.map_cons, List.lookup_cons, List.lookup_cons, ih]
      by_cases hid : log.1 = id
      · have hlog : (other == log.1) = false := hid ▸ hbeq
        rw [if_pos hid, hlog]
        simp only [hbeq]
      · rw [if_neg hid]
  unfold setLog
  split_ifs
  · exact hmap
  · simp [List.lookup_append, List.lookup_cons, hbeq]

/-- The keys stay as they are, or there is one more. -/
theorem keys_setLog : (setLog logs id lines).map Prod.fst =
    if (logs.lookup id).isSome then logs.map Prod.fst else logs.map Prod.fst ++ [id] := by
  unfold setLog
  split_ifs
  · rw [List.map_map]
    refine List.map_congr_left fun log _ => ?_
    by_cases hid : log.1 = id <;> simp [hid]
  · simp

theorem mem_setLog {log : ExecutionId × List String} (h : log ∈ setLog logs id lines) :
    log = (id, lines) ∨ log ∈ logs := by
  unfold setLog at h
  split_ifs at h
  · obtain ⟨log', hlog', rfl⟩ := List.mem_map.mp h
    split_ifs
    · exact .inl rfl
    · exact .inr hlog'
  · rcases List.mem_append.mp h with h | h
    · exact .inr h
    · exact .inl (List.mem_singleton.mp h)

/-! ## One line more -/

/-- What stays in the cache when a line of an execution comes. -/
def kept (logs : List (ExecutionId × List String)) (id : ExecutionId) :
    List (ExecutionId × List String) :=
  if (logs.lookup id).isSome ∨ logs.length < maxCachedExecutions then logs else logs.tail

section Append

variable (s : ExecutionStore) (id) (content : String)

/-- The entry of the execution is opened, if need be, and then assigned. -/
theorem appendLog_logs : ∃ opened : List (ExecutionId × List String),
    (s.appendLog id content).logs =
      setLog opened id (lastLines ((s.logs.lookup id).getD [] ++ [content])) ∧
    (opened.lookup id).isSome = true ∧
    (∀ other, other ≠ id → opened.lookup other = (kept s.logs id).lookup other) ∧
    opened.map Prod.fst = (kept s.logs id).map Prod.fst ++
      (if (s.logs.lookup id).isSome then [] else [id]) ∧
    ∀ log ∈ opened, log.2 = [] ∨ log ∈ s.logs := by
  cases hcached : s.logs.lookup id with
  | some lines =>
    refine ⟨s.logs, ?_, by rw [hcached]; rfl, ?_, ?_, fun log hlog => .inr hlog⟩
    · simp only [appendLog, hcached]
      rfl
    · simp [kept, hcached]
    · simp [kept, hcached]
  | none =>
    have hkept : (if maxCachedExecutions ≤ s.logs.length then s.logs.tail else s.logs) =
        kept s.logs id := by
      rw [kept, hcached]
      by_cases hfull : maxCachedExecutions ≤ s.logs.length
      · rw [if_pos hfull, if_neg (by simpa using hfull)]
      · rw [if_neg hfull, if_pos (by right; omega)]
    have hsub : ∀ log ∈ kept s.logs id, log ∈ s.logs := by
      intro log hlog
      unfold kept at hlog
      split_ifs at hlog
      · exact hlog
      · exact List.mem_of_mem_tail hlog
    have hnone : (kept s.logs id).lookup id = none := by
      rw [← Option.not_isSome_iff_eq_none, lookup_isSome_iff_mem]
      intro hmem
      obtain ⟨log, hlog, hid⟩ := List.mem_map.mp hmem
      have hsome : (s.logs.lookup id).isSome = true :=
        lookup_isSome_iff_mem.mpr (List.mem_map.mpr ⟨log, hsub log hlog, hid⟩)
      rw [hcached] at hsome
      cases hsome
    refine ⟨setLog (kept s.logs id) id [], ?_, ?_, ?_, ?_, ?_⟩
    · have hopened : (setLog (kept s.logs id) id []).lookup id = some [] := lookup_setLog_self
      rw [← hkept] at hopened ⊢
      unfold appendLog
      rw [hcached]
      dsimp only
      rw [hopened]
      rfl
    · rw [lookup_setLog_self]
      rfl
    · exact fun other hne => lookup_setLog_of_ne hne
    · rw [keys_setLog, hnone]
      rfl
    · intro log hlog
      rcases mem_setLog hlog with rfl | hlog
      · exact .inl rfl
      · exact .inr (hsub log hlog)

theorem appendLog_lookup : (s.appendLog id content).logs.lookup id =
    some (lastLines ((s.logs.lookup id).getD [] ++ [content])) := by
  obtain ⟨opened, hlogs, -⟩ := s.appendLog_logs id content
  rw [hlogs, lookup_setLog_self]

/-- The others keep their entries, but for the oldest where there are too many. -/
theorem appendLog_frame {other : ExecutionId} (hne : other ≠ id) :
    (s.appendLog id content).logs.lookup other = (kept s.logs id).lookup other := by
  obtain ⟨opened, hlogs, -, hother, -⟩ := s.appendLog_logs id content
  rw [hlogs, lookup_setLog_of_ne hne, hother other hne]

theorem appendLog_keys : (s.appendLog id content).logs.map Prod.fst =
    (kept s.logs id).map Prod.fst ++ (if (s.logs.lookup id).isSome then [] else [id]) := by
  obtain ⟨opened, hlogs, hopened, -, hkeys, -⟩ := s.appendLog_logs id content
  rw [hlogs, keys_setLog, if_pos hopened, hkeys]

theorem mem_appendLog {log : ExecutionId × List String}
    (h : log ∈ (s.appendLog id content).logs) :
    log.2.length ≤ maxLinesPerExecution ∨ log ∈ s.logs := by
  obtain ⟨opened, hlogs, -, -, -, hmem⟩ := s.appendLog_logs id content
  rw [hlogs] at h
  rcases mem_setLog h with hlast | h
  · have hlines : log.2 = lastLines ((s.logs.lookup id).getD [] ++ [content]) := by rw [hlast]
    rw [hlines]
    exact .inl (length_lastLines_le _)
  · rcases hmem log h with hnil | hlog
    · left
      rw [hnil, List.length_nil]
      exact Nat.zero_le maxLinesPerExecution
    · exact .inr hlog

end Append

/-- The execution whose entry goes when a line of another one comes. -/
def evicted (logs : List (ExecutionId × List String)) (id : ExecutionId) : Option ExecutionId :=
  if (logs.lookup id).isSome ∨ logs.length < maxCachedExecutions then none
  else logs.head?.map Prod.fst

theorem lookup_kept {other : ExecutionId} (h : evicted logs id ≠ some other) :
    (kept logs id).lookup other = logs.lookup other := by
  unfold evicted at h
  unfold kept
  split_ifs at h ⊢ with hstays
  · rfl
  · cases logs with
    | nil => rfl
    | cons log logs =>
      have hne : (other == log.1) = false :=
        beq_eq_false_iff_ne.mpr fun heq => h (by rw [heq]; rfl)
      rw [List.tail_cons, List.lookup_cons, hne]

/-! ## The limits -/

/-- The limits of lines 16 and 17. -/
structure Bounded (logs : List (ExecutionId × List String)) : Prop where
  keys_nodup : (logs.map Prod.fst).Nodup
  executions_le : logs.length ≤ maxCachedExecutions
  lines_le : ∀ log ∈ logs, log.2.length ≤ maxLinesPerExecution

theorem kept_sublist : (kept logs id).Sublist logs := by
  unfold kept
  split_ifs
  · exact List.Sublist.refl logs
  · exact List.tail_sublist logs

theorem length_kept_lt (h : logs.length ≤ maxCachedExecutions) (hnew : logs.lookup id = none) :
    (kept logs id).length < maxCachedExecutions := by
  have hpos : 0 < maxCachedExecutions := by decide
  unfold kept
  split_ifs with hstays
  · exact hstays.resolve_left (by rw [hnew]; decide)
  · rw [List.length_tail]
    omega

/-- `appendLog` keeps both limits. -/
theorem appendLog_bounded {s : ExecutionStore} (h : Bounded s.logs) (content : String) :
    Bounded (s.appendLog id content).logs := by
  have hkeys := s.appendLog_keys id content
  have hsub : (kept s.logs id).Sublist s.logs := kept_sublist
  have hlength : (s.appendLog id content).logs.length = (kept s.logs id).length +
      (if (s.logs.lookup id).isSome then [] else [id]).length := by
    rw [← List.length_map Prod.fst, hkeys, List.length_append, List.length_map]
  refine ⟨?_, ?_, fun log hlog => ?_⟩
  · rw [hkeys]
    have hnodup : ((kept s.logs id).map Prod.fst).Nodup := (hsub.map _).nodup h.keys_nodup
    split_ifs with hcached
    · rwa [List.append_nil]
    · have hfresh : id ∉ (kept s.logs id).map Prod.fst := fun hkey =>
        hcached (lookup_isSome_iff_mem.mpr ((hsub.map _).subset hkey))
      exact List.nodup_append_comm.mp (List.nodup_cons.mpr ⟨hfresh, hnodup⟩)
  · rw [hlength]
    split_ifs with hcached
    · exact hsub.length_le.trans h.executions_le
    · rw [Bool.not_eq_true, Option.isSome_eq_false_iff, Option.isNone_iff_eq_none] at hcached
      exact length_kept_lt h.executions_le hcached
  · rcases s.mem_appendLog id content hlog with hlines | hlog
    · exact hlines
    · exact h.lines_le log hlog

theorem mem_setLog_self : (id, lines) ∈ setLog logs id lines := by
  unfold setLog
  split_ifs with hcached
  · obtain ⟨log, hlog, hid⟩ := List.mem_map.mp (lookup_isSome_iff_mem.mp hcached)
    exact List.mem_map.mpr ⟨log, hlog, if_pos hid⟩
  · exact List.mem_append_right _ (List.mem_singleton_self _)

/-- An assignment keeps them if and only if it fits. -/
theorem setLog_bounded_iff (h : Bounded logs) : Bounded (setLog logs id lines) ↔
    lines.length ≤ maxLinesPerExecution ∧
      ((logs.lookup id).isSome = true ∨ logs.length < maxCachedExecutions) := by
  have hkeys : (setLog logs id lines).map Prod.fst = _ := keys_setLog
  have hlength := congrArg List.length hkeys
  rw [List.length_map] at hlength
  constructor
  · intro hset
    refine ⟨hset.lines_le _ mem_setLog_self, or_iff_not_imp_left.mpr fun hcached => ?_⟩
    have hle := hset.executions_le
    rw [hlength, if_neg hcached, List.length_append, List.length_map, List.length_singleton] at hle
    omega
  · rintro ⟨hlines, hroom⟩
    refine ⟨?_, ?_, fun log hlog => ?_⟩
    · rw [hkeys]
      split_ifs with hcached
      · exact h.keys_nodup
      · rw [lookup_isSome_iff_mem] at hcached
        exact List.nodup_append_comm.mp (List.nodup_cons.mpr ⟨hcached, h.keys_nodup⟩)
    · rw [hlength]
      split_ifs with hcached
      · rw [List.length_map]
        exact h.executions_le
      · rw [List.length_append, List.length_map, List.length_singleton]
        exact hroom.resolve_left hcached
    · rcases mem_setLog hlog with hlast | hlog
      · have hsnd : log.2 = lines := by rw [hlast]
        rwa [hsnd]
      · exact h.lines_le log hlog

end ExecutionStore

/-! ## The cache over a session -/

/-- The cache, and the requests of `fetchExecutionLogs` without an answer. -/
structure LogCache where
  store : ExecutionStore
  requests : List ExecutionId
  deriving DecidableEq

/-- What becomes of the calls of `fetchExecutionLogs`. -/
inductive FetchAction
  | call (id : ExecutionId) (force : Bool)
  /-- The records of the `i`-th request arrive. -/
  | arrive (i : ℕ) (records : List String)
  | fail (i : ℕ)
  deriving DecidableEq

inductive CacheAction
  | append (id : ExecutionId) (content : String)
  | fetch (a : FetchAction)
  deriving DecidableEq

/-- Model of `fetchExecutionLogs` (lines 84–95), call by call and answer by answer. -/
def LogCache.fetch (c : LogCache) : FetchAction → Option LogCache
  | .call id force =>
    if !force && (c.store.logs.lookup id).any fun lines => 0 < lines.length then some c
    else some { c with requests := c.requests ++ [id] }
  | .arrive i records =>
    match c.requests[i]? with
    | some id =>
      some { store := c.store.logsFetched id records, requests := c.requests.eraseIdx i }
    | none => none
  | .fail i =>
    match c.requests[i]? with
    | some _ => some { c with requests := c.requests.eraseIdx i }
    | none => none

def cacheStep (c : LogCache) : CacheAction → Option (LogCache × List Empty)
  | .append id content => some ({ c with store := c.store.appendLog id content }, [])
  | .fetch a => (c.fetch a).map fun c' => (c', [])

def logCache : Machine LogCache CacheAction Empty where
  init := ⟨.empty, []⟩
  step := cacheStep

/-- The records that arrive fit into the cache: there is nothing to assign, or the lines are
    no more than 2000 and the execution has an entry or one is free. -/
def FetchFits (c : LogCache) : CacheAction → Prop
  | .fetch (.arrive i records) => records = [] ∨ ∀ id ∈ c.requests[i]?,
      records.length ≤ maxLinesPerExecution ∧
        ((c.store.logs.lookup id).isSome = true ∨ c.store.logs.length < maxCachedExecutions)
  | _ => True

instance (c : LogCache) : DecidablePred (FetchFits c)
  | .fetch (.arrive _ _) => inferInstanceAs (Decidable (_ ∨ ∀ id ∈ _, _))
  | .append _ _ | .fetch (.call _ _) | .fetch (.fail _) => isTrue trivial

section Steps

variable {c c' : LogCache} {a : CacheAction} {f : FetchAction} {o : List Empty}

/-- What becomes of a call leaves the lines alone, unless records arrive. -/
theorem LogCache.fetch_cases (h : c.fetch f = some c') :
    (c'.store = c.store ∧ ∀ i records, f ≠ .arrive i records) ∨
    ∃ i records id, f = .arrive i records ∧ c.requests[i]? = some id ∧
      c'.store = c.store.logsFetched id records := by
  cases f with
  | call id force =>
    rw [fetch] at h
    split_ifs at h <;> cases h <;> exact .inl ⟨rfl, nofun⟩
  | arrive i records =>
    rw [fetch] at h
    split at h
    · rename_i id hid
      cases h
      exact .inr ⟨i, records, id, rfl, hid, rfl⟩
    · cases h
  | fail i =>
    rw [fetch] at h
    split at h
    · cases h
      exact .inl ⟨rfl, nofun⟩
    · cases h

/-- A step keeps the limits if and only if what it assigns fits. -/
theorem cacheStep_bounded_iff (h : ExecutionStore.Bounded c.store.logs)
    (hst : cacheStep c a = some (c', o)) :
    ExecutionStore.Bounded c'.store.logs ↔ FetchFits c a := by
  cases a with
  | append id content =>
    cases hst
    exact iff_of_true (ExecutionStore.appendLog_bounded h content) trivial
  | fetch f =>
    obtain ⟨c'', hfetch, heq⟩ := Option.map_eq_some_iff.mp hst
    cases heq
    rcases LogCache.fetch_cases hfetch with ⟨hstore, hnot⟩ | ⟨i, records, id, rfl, hid, hstore⟩
    · rw [hstore]
      cases f with
      | arrive i records => exact absurd rfl (hnot i records)
      | call | fail => exact iff_of_true h trivial
    · have hfits : FetchFits c (.fetch (.arrive i records)) ↔
          records = [] ∨ ∀ id ∈ c.requests[i]?, records.length ≤ maxLinesPerExecution ∧
            ((c.store.logs.lookup id).isSome = true ∨
              c.store.logs.length < maxCachedExecutions) := Iff.rfl
      rw [hstore, hfits, hid]
      cases records with
      | nil => exact iff_of_true h (.inl rfl)
      | cons record records =>
        rw [or_iff_right (List.cons_ne_nil record records)]
        refine (ExecutionStore.setLog_bounded_iff h).trans ⟨fun hroom other hother => ?_, ?_⟩
        · cases hother
          exact hroom
        · exact fun hroom => hroom id rfl

end Steps

/-- The cache keeps its limits as long as every answer fits, and exceeds one after the first
    answer that does not; a line leaves the entries of the other executions as they are, but
    for the one that is evicted. -/
theorem logCache_bounded {tr : List (CacheAction × List Empty)} {c : LogCache}
    (h : logCache.Run FetchFits logCache.init tr c) :
    ExecutionStore.Bounded c.store.logs ∧
    (∀ a c' o, logCache.step c a = some (c', o) →
      (ExecutionStore.Bounded c'.store.logs ↔ FetchFits c a)) ∧
    ∀ (s : ExecutionStore) (id other : ExecutionId) (content : String), other ≠ id →
      ExecutionStore.evicted s.logs id ≠ some other →
      (s.appendLog id content).logs.lookup other = s.logs.lookup other := by
  have hbounded : ExecutionStore.Bounded c.store.logs := by
    refine h.invariant (I := fun c => ExecutionStore.Bounded c.store.logs) ?_ ?_
    · exact ⟨List.nodup_nil, Nat.zero_le _, nofun⟩
    · exact fun c a c' o hc hfits hst => (cacheStep_bounded_iff hc hst).mpr hfits
  refine ⟨hbounded, fun a c' o hst => cacheStep_bounded_iff hbounded hst, ?_⟩
  intro s id other content hne hstays
  rw [s.appendLog_frame id content hne, ExecutionStore.lookup_kept hstays]

/-- One call, of an execution with 2001 recorded lines. -/
theorem logCache_unbounded :
    ∃ tr c, logCache.Run Machine.anyStep logCache.init tr c ∧
      ¬ExecutionStore.Bounded c.store.logs := by
  have hcall : logCache.step logCache.init (.fetch (.call ⟨1⟩ false)) =
      some (⟨.empty, [⟨1⟩]⟩, []) := rfl
  have harrive : logCache.step ⟨.empty, [⟨1⟩]⟩ (.fetch (.arrive 0 (List.replicate 2001 "x"))) =
      some (⟨ExecutionStore.empty.logsFetched ⟨1⟩ (List.replicate 2001 "x"), []⟩, []) := rfl
  refine ⟨_, _, (Machine.Run.single trivial hcall).snoc trivial harrive, fun h => ?_⟩
  have hle := h.lines_le (⟨1⟩, List.replicate 2001 "x") (List.mem_singleton_self _)
  rw [List.length_replicate] at hle
  exact absurd hle (by decide)

/-- Two executions, the records of the first, and a line more. -/
def fittingActions : List CacheAction :=
  [.append ⟨1⟩ "a", .append ⟨2⟩ "b", .fetch (.call ⟨1⟩ true), .fetch (.call ⟨2⟩ false),
   .fetch (.arrive 0 ["a", "c"]), .append ⟨1⟩ "d"]

theorem fittingActions_possible :
    (logCache.exec FetchFits logCache.init fittingActions).isSome = true := by decide

theorem logCache_bounded_fitting :
    ExecutionStore.Bounded ((logCache.exec FetchFits logCache.init fittingActions).get
      fittingActions_possible).2.store.logs :=
  (logCache_bounded (Machine.exec_get_run fittingActions_possible)).1

/-! ## The drawers -/

/-- The listener of `execution.output` that a drawer starts when it is mounted. -/
inductive Listener
  /-- `onExecutionOutput` has not returned yet. -/
  | awaited
  | listening
  | removed
  deriving DecidableEq

structure LogDrawer where
  executionId : Option ExecutionId
  /-- The handler of the output does not look at it. -/
  shown : Bool
  mounted : Bool
  listener : Listener
  deriving DecidableEq

namespace LogDrawer

/-- The drawer appends the output of this execution. -/
def Follows (d : LogDrawer) (id : ExecutionId) : Prop :=
  d.listener = .listening ∧ d.executionId = some id

instance (d : LogDrawer) (id : ExecutionId) : Decidable (d.Follows id) :=
  inferInstanceAs (Decidable (_ ∧ _))

/-- The handler of `execution.output` (lines 117–121). -/
def onOutput (d : LogDrawer) (id : ExecutionId) (content : String) (s : ExecutionStore) :
    ExecutionStore :=
  if d.Follows id then s.appendLog id content else s

/-- The view that shows the drawer sets its properties. -/
def setProps (d : LogDrawer) (executionId : Option ExecutionId) (shown : Bool) : LogDrawer :=
  { d with executionId := executionId, shown := shown }

/-- `onUnmounted` (lines 143–154): there is nothing to call before the listener is there. -/
def unmount (d : LogDrawer) : LogDrawer :=
  { d with
    mounted := false
    listener := if d.listener = .listening then .removed else d.listener }

end LogDrawer

/-- The cache, with the drawers that there have been. -/
structure LivePage where
  cache : LogCache
  drawers : List LogDrawer
  deriving DecidableEq

inductive LiveAction
  | output (id : ExecutionId) (content : String)
  | fetch (a : FetchAction)
  | mount (executionId : Option ExecutionId) (shown : Bool)
  /-- `onExecutionOutput` registers the listener of the `i`-th drawer and returns: one step
      stands for both. -/
  | listen (i : ℕ)
  /-- The view sets the properties of the `i`-th drawer. -/
  | setProps (i : ℕ) (executionId : Option ExecutionId) (shown : Bool)
  | unmount (i : ℕ)
  deriving DecidableEq

/-- All that listen to an output: the store (lines 133–135) and the drawers. -/
def LivePage.output (p : LivePage) (id : ExecutionId) (content : String) : ExecutionStore :=
  p.drawers.foldl (fun s d => d.onOutput id content s) (p.cache.store.appendLog id content)

def liveStep (p : LivePage) : LiveAction → Option (LivePage × List Empty)
  | .output id content => some ({ p with cache.store := p.output id content }, [])
  | .fetch a => (p.cache.fetch a).map fun cache => ({ p with cache := cache }, [])
  | .mount executionId shown =>
    some ({ p with drawers := p.drawers ++ [⟨executionId, shown, true, .awaited⟩] }, [])
  | .listen i =>
    match p.drawers[i]? with
    | some d =>
      if d.listener = .awaited then
        some ({ p with drawers := p.drawers.set i { d with listener := .listening } }, [])
      else none
    | none => none
  | .setProps i executionId shown =>
    match p.drawers[i]? with
    | some d =>
      if d.mounted then
        some ({ p with drawers := p.drawers.set i (d.setProps executionId shown) }, [])
      else none
    | none => none
  | .unmount i =>
    match p.drawers[i]? with
    | some d =>
      if d.mounted then some ({ p with drawers := p.drawers.set i d.unmount }, []) else none
    | none => none

/-- The store listens, as `App.vue` (line 37) has it, and no drawer has been mounted. -/
def livePage : Machine LivePage LiveAction Empty where
  init := ⟨⟨.empty, []⟩, []⟩
  step := liveStep

/-- The contents of the outputs of an execution, in order. -/
def received (id : ExecutionId) (tr : List (LiveAction × List Empty)) : List String :=
  tr.filterMap fun e =>
    match e.1 with
    | .output id' content => if id' = id then some content else none
    | _ => none

/-- No records replace the entry of this execution. -/
def Unreplaced (id : ExecutionId) (p : LivePage) : LiveAction → Prop
  | .fetch (.arrive i records) => records = [] ∨ p.cache.requests[i]? ≠ some id
  | _ => True

/-- No drawer follows this execution when an output of it comes, and no output of another
    one evicts it. -/
def AppendedOnce (id : ExecutionId) (p : LivePage) : LiveAction → Prop
  | .output id' _ =>
    if id' = id then ∀ d ∈ p.drawers, ¬d.Follows id
    else ExecutionStore.evicted p.cache.store.logs id' ≠ some id
  | _ => True

/-- Each line of this execution gets into the cache once and stays there. -/
def ShownOnce (id : ExecutionId) (p : LivePage) (a : LiveAction) : Prop :=
  Unreplaced id p a ∧ AppendedOnce id p a

instance (id : ExecutionId) (p : LivePage) : DecidablePred (Unreplaced id p)
  | .fetch (.arrive _ _) => inferInstanceAs (Decidable (_ ∨ _))
  | .fetch (.call _ _) | .fetch (.fail _) | .output _ _ | .mount _ _ | .listen _ | .setProps _ _ _
  | .unmount _ => isTrue trivial

instance (id : ExecutionId) (p : LivePage) : DecidablePred (AppendedOnce id p)
  | .output _ _ => inferInstanceAs (Decidable (ite _ _ _))
  | .fetch _ | .mount _ _ | .listen _ | .setProps _ _ _ | .unmount _ => isTrue trivial

instance (id : ExecutionId) (p : LivePage) : DecidablePred (ShownOnce id p) :=
  fun _ => inferInstanceAs (Decidable (_ ∧ _))

section Output

variable {id other : ExecutionId} {lines : List String} {s : ExecutionStore}
  {drawers : List LogDrawer} (content : String)

/-- The drawers that follow an execution. -/
def LivePage.followers (p : LivePage) (id : ExecutionId) : ℕ :=
  p.drawers.countP fun d => decide (d.Follows id)

/-- Each drawer that follows the execution appends the line again. -/
theorem lookup_foldl_onOutput (h : s.logs.lookup id = some (lastLines lines)) :
    (drawers.foldl (fun s d => d.onOutput id content s) s).logs.lookup id =
      some (lastLines (lines ++
        List.replicate (drawers.countP fun d => decide (d.Follows id)) content)) := by
  induction drawers generalizing s lines with
  | nil => simpa using h
  | cons d drawers ih =>
    rw [List.foldl_cons, List.countP_cons, LogDrawer.onOutput]
    by_cases hfollows : d.Follows id
    · have hnext : (s.appendLog id content).logs.lookup id =
          some (lastLines (lines ++ [content])) := by
        rw [s.appendLog_lookup id content, h, Option.getD_some, lastLines_append]
      rw [if_pos hfollows, ih hnext, if_pos (decide_eq_true hfollows), List.append_assoc,
        List.singleton_append, List.replicate_succ]
    · have hnot : ¬decide (d.Follows id) = true := by rwa [decide_eq_true_iff]
      rw [if_neg hfollows, ih h, if_neg hnot, Nat.add_zero]

/-- What the drawers append leaves the other executions alone. -/
theorem lookup_foldl_onOutput_of_ne (hne : other ≠ id)
    (hcached : (s.logs.lookup id).isSome = true) :
    (drawers.foldl (fun s d => d.onOutput id content s) s).logs.lookup other =
      s.logs.lookup other := by
  induction drawers generalizing s with
  | nil => rfl
  | cons d drawers ih =>
    rw [List.foldl_cons, LogDrawer.onOutput]
    split_ifs
    · have hnext : ((s.appendLog id content).logs.lookup id).isSome = true := by
        rw [s.appendLog_lookup id content]
        rfl
      have hkept : ExecutionStore.kept s.logs id = s.logs := if_pos (.inl hcached)
      rw [ih hnext, s.appendLog_frame id content hne, hkept]
    · exact ih hcached

variable {p : LivePage}

theorem LivePage.output_lookup
    (h : (p.cache.store.logs.lookup id).getD [] = lastLines lines) :
    (p.output id content).logs.lookup id =
      some (lastLines (lines ++ List.replicate (p.followers id + 1) content)) := by
  have hstore : (p.cache.store.appendLog id content).logs.lookup id =
      some (lastLines (lines ++ [content])) := by
    rw [p.cache.store.appendLog_lookup id content, h, lastLines_append]
  rw [output, lookup_foldl_onOutput content hstore, List.append_assoc, List.singleton_append,
    followers, List.replicate_succ]

theorem LivePage.output_lookup_of_ne (hne : other ≠ id)
    (hstays : ExecutionStore.evicted p.cache.store.logs id ≠ some other) :
    (p.output id content).logs.lookup other = p.cache.store.logs.lookup other := by
  have hcached : ((p.cache.store.appendLog id content).logs.lookup id).isSome = true := by
    rw [p.cache.store.appendLog_lookup id content]
    rfl
  rw [output, lookup_foldl_onOutput_of_ne content hne hcached,
    p.cache.store.appendLog_frame id content hne, ExecutionStore.lookup_kept hstays]

end Output

section Steps

variable {id : ExecutionId} {p p' : LivePage} {a : LiveAction} {o : List Empty}

/-- The actions of the drawers and their views leave the cache alone. -/
theorem liveStep_drawers (hst : liveStep p a = some (p', o))
    (houtput : ∀ id content, a ≠ .output id content) (hfetch : ∀ f, a ≠ .fetch f) :
    p'.cache = p.cache ∧ received id [(a, o)] = [] := by
  cases a with
  | output id' content => exact absurd rfl (houtput id' content)
  | fetch f => exact absurd rfl (hfetch f)
  | mount executionId shown =>
    cases hst
    exact ⟨rfl, rfl⟩
  | listen i | setProps i executionId shown | unmount i =>
    simp only [liveStep] at hst
    split at hst
    · split_ifs at hst
      cases hst
      exact ⟨rfl, rfl⟩
    · cases hst

/-- Records that do not replace the entry of this execution leave it alone. -/
theorem lookup_fetch {f : FetchAction} {c : LogCache} (hok : Unreplaced id p (.fetch f))
    (h : p.cache.fetch f = some c) :
    c.store.logs.lookup id = p.cache.store.logs.lookup id := by
  rcases LogCache.fetch_cases h with ⟨hstore, -⟩ | ⟨i, records, id', rfl, hid, hstore⟩
  · rw [hstore]
  · rw [hstore, ExecutionStore.logsFetched]
    split_ifs with hempty
    · rfl
    · have hnonempty : records ≠ [] := fun hnil => hempty (by rw [hnil]; rfl)
      have hne : id ≠ id' := by
        rintro rfl
        exact hok.elim hnonempty fun hother => hother hid
      exact ExecutionStore.lookup_setLog_of_ne hne

/-- A step gets the lines of its output into the cache, each once. -/
theorem liveStep_shown {lines : List String} (hok : ShownOnce id p a)
    (hst : liveStep p a = some (p', o))
    (h : (p.cache.store.logs.lookup id).getD [] = lastLines lines) :
    (p'.cache.store.logs.lookup id).getD [] = lastLines (lines ++ received id [(a, o)]) := by
  obtain ⟨hunreplaced, honce⟩ := hok
  by_cases houtput : ∃ id' content, a = .output id' content
  · obtain ⟨id', content, rfl⟩ := houtput
    cases hst
    by_cases hid : id' = id
    · subst hid
      have hnone : ∀ d ∈ p.drawers, ¬d.Follows id' := by simpa [AppendedOnce] using honce
      have hzero : p.followers id' = 0 := by simpa [LivePage.followers] using hnone
      have hreceived : received id' [(LiveAction.output id' content, ([] : List Empty))] =
          [content] := by simp [received]
      rw [p.output_lookup content h, Option.getD_some, hzero, hreceived]
      rfl
    · have hstays : ExecutionStore.evicted p.cache.store.logs id' ≠ some id := by
        simpa [AppendedOnce, hid] using honce
      have hreceived : received id [(LiveAction.output id' content, ([] : List Empty))] = [] := by
        simp [received, hid]
      rw [p.output_lookup_of_ne content (Ne.symm hid) hstays, h, hreceived, List.append_nil]
  · by_cases hfetch : ∃ f, a = .fetch f
    · obtain ⟨f, rfl⟩ := hfetch
      obtain ⟨c, hc, heq⟩ := Option.map_eq_some_iff.mp hst
      cases heq
      rw [lookup_fetch hunreplaced hc, h]
      simp [received]
    · obtain ⟨hcache, hreceived⟩ := liveStep_drawers hst
        (fun id content ha => houtput ⟨id, content, ha⟩) (fun f ha => hfetch ⟨f, ha⟩)
      rw [hcache, h, hreceived, List.append_nil]

end Steps

/-- As long as no drawer follows an execution when an output of it comes, and its entry is
    neither replaced nor evicted, its lines are those of its outputs, each once and in order;
    and from such a state an output is there once more for each drawer that follows it. -/
theorem liveOutput_once (id : ExecutionId) {tr : List (LiveAction × List Empty)} {p : LivePage}
    (h : livePage.Run (ShownOnce id) livePage.init tr p) :
    (p.cache.store.logs.lookup id).getD [] = lastLines (received id tr) ∧
    ∀ content, (p.output id content).logs.lookup id =
      some (lastLines (received id tr ++ List.replicate (p.followers id + 1) content)) := by
  have hshown : (p.cache.store.logs.lookup id).getD [] = lastLines (received id tr) := by
    refine h.history (I := fun tr p => (p.cache.store.logs.lookup id).getD [] =
      lastLines (received id tr)) lastLines_nil.symm fun tr p a p' o _ hp hok hst => ?_
    rw [received, List.filterMap_append]
    exact liveStep_shown hok hst hp
  exact ⟨hshown, fun content => p.output_lookup content hshown⟩

/-- The drawer is opened for an execution that has no records yet, and its first line comes. -/
def openDrawerActions : List LiveAction :=
  [.mount none false, .listen 0, .setProps 0 (some ⟨1⟩) true, .fetch (.call ⟨1⟩ true),
   .fetch (.arrive 0 []), .output ⟨1⟩ "a"]

theorem openDrawerActions_possible :
    (livePage.exec (Unreplaced ⟨1⟩) livePage.init openDrawerActions).isSome = true := by decide

/-- The line is shown twice. -/
theorem liveOutput_twice :
    ∃ tr p, livePage.Run (Unreplaced ⟨1⟩) livePage.init tr p ∧ received ⟨1⟩ tr = ["a"] ∧
      p.cache.store.logs.lookup ⟨1⟩ = some ["a", "a"] ∧
      (p.cache.store.logs.lookup ⟨1⟩).getD [] ≠ lastLines (received ⟨1⟩ tr) :=
  ⟨_, _, Machine.exec_get_run openDrawerActions_possible, by decide, by decide, by decide⟩

/-- The drawer follows another execution, and is unmounted. -/
def otherDrawerActions : List LiveAction :=
  [.mount none false, .output ⟨1⟩ "a", .listen 0, .setProps 0 (some ⟨2⟩) true, .output ⟨1⟩ "b",
   .output ⟨2⟩ "c", .unmount 0, .output ⟨1⟩ "a"]

theorem otherDrawerActions_possible :
    (livePage.exec (ShownOnce ⟨1⟩) livePage.init otherDrawerActions).isSome = true := by decide

theorem liveOutput_once_other :
    (((livePage.exec (ShownOnce ⟨1⟩) livePage.init otherDrawerActions).get
      otherDrawerActions_possible).2.cache.store.logs.lookup ⟨1⟩).getD [] = ["a", "b", "a"] := by
  have hreceived : lastLines (received ⟨1⟩ ((livePage.exec (ShownOnce ⟨1⟩) livePage.init
      otherDrawerActions).get otherDrawerActions_possible).1) = ["a", "b", "a"] := by decide
  exact (liveOutput_once ⟨1⟩ (Machine.exec_get_run otherDrawerActions_possible)).1.trans hreceived

end EasyJob.Frontend
