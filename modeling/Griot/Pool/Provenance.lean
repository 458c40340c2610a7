import Griot.Pool.CacheHistory
import Griot.Pool.Delivery
import Griot.Pool.Lifetime
import Griot.Pool.Refresh

/-! Where replies come from.

Whatever a pool replies to a task is accounted for by the run so far (`Accounted`): rows are
what the engine made of the same text for the same tenant, for this task or, by way of the
cache, for an earlier one, or what the cache the pool was given had for the pair; an error of
the engine is one that it made of this very task; and only a pool that was shut down turns a
task away. This holds of every reply of every run (`replies_accounted`). The signature that
goes with rows from the cache names the task they were computed for. -/
namespace Griot.Pool

open Lib

variable {n : Nat} (setup : Setup)

/-! ### What a run has seen -/

/-- A worker was at the execution of the task when it ended with this outcome. -/
def Executed (actions : List (Action n)) (task : QueryTask)
    (collected : Except DataFusionError (List RecordBatch)) : Prop :=
  ∃ before w after s, actions = before ++ .worker w (.outcome collected) :: after ∧
    (pool setup n).Runs before s ∧ (s.workers w).phase = .busy task .executing

/-- Rows and their signature that the engine made for a task. -/
structure Computed (actions : List (Action n)) (source : QueryTask) (batches : List RecordBatch)
    (jws : String) : Prop where
  submitted : .submit source ∈ actions
  executed : ∃ engine collected, setup.engine = .ok engine ∧ Executed setup actions source collected ∧
    source.executed engine collected = .ok (batches, jws)

inductive Accounted (actions : List (Action n)) (task : QueryTask) : QueryResult → Prop where
  | rows {source : QueryTask} {batches : List RecordBatch} {jws : String}
      (hsource : Computed setup actions source batches jws) (htenant : source.tenantId = task.tenantId)
      (hsql : source.sql = task.sql) :
      Accounted actions task (.ok ⟨batches, jws, task.correlationId⟩)
  /-- The pool was given the rows with its cache. -/
  | given {entry : CacheEntry} (hentry : setup.cache.lru.peek (setup.key task) = some entry) :
      Accounted actions task (.ok ⟨entry.batches, entry.attestationJws, task.correlationId⟩)
  | failed {engine : K04DEngine} {collected : Except DataFusionError (List RecordBatch)}
      {e : EngineError} (hengine : setup.engine = .ok engine)
      (hexecuted : Executed setup actions task collected)
      (herror : task.executed engine collected = .error (.engine e)) :
      Accounted actions task (.error (.engine e))
  | turnedAway {call : Nat} (hshutdown : .shutdown call ∈ actions) :
      Accounted actions task (.error .shutdown)

/-- An entry of the cache is accounted for. -/
inductive Backed (actions : List (Action n)) (key : CacheKey) (entry : CacheEntry) : Prop where
  | computed {source : QueryTask} (hkey : setup.key source = key)
      (hsource : Computed setup actions source entry.batches entry.attestationJws)
  | given {first : CacheEntry} (hfirst : setup.cache.lru.peek key = some first)
      (hbatches : first.batches = entry.batches) (hjws : first.attestationJws = entry.attestationJws)

/-- A worker's stage is accounted for. -/
def Stage.Accounted (actions : List (Action n)) (task : QueryTask) : Stage → Prop
  | .computed result => Pool.Accounted setup actions task (task.settled result)
  | .settled result | .cached result => Pool.Accounted setup actions task result
  | _ => True

/-- What a run has seen accounts for all that the pool holds. -/
structure Sound (actions : List (Action n)) (s : State n) : Prop where
  submits : ∀ call task, s.submits call = .admitted task ∨ (∃ w, s.submits call = .routed task w) →
    .submit task ∈ actions
  queued : ∀ w, ∀ task ∈ (s.workers w).queue, .submit task ∈ actions
  busy : ∀ w task stage, (s.workers w).phase = .busy task stage →
    .submit task ∈ actions ∧ stage.Accounted setup actions task
  cached : ∀ key entry, s.cache.lru.peek key = some entry → Backed setup actions key entry
  shutdown : s.shutdown = true → ∃ call, .shutdown call ∈ actions
  draining : ∀ w, (s.workers w).phase = .draining → ∃ call, .shutdown call ∈ actions
  replies : ∀ r result, (r, result) ∈ s.replies → ∃ task, .submit task ∈ actions ∧ task.reply = r ∧
    Accounted setup actions task result

variable {setup}

/-! ### A longer run has seen more -/

section Longer
variable {actions more : List (Action n)} {task : QueryTask}

theorem Executed.append {collected : Except DataFusionError (List RecordBatch)}
    (h : Executed setup actions task collected) : Executed setup (actions ++ more) task collected := by
  obtain ⟨before, w, after, s, rfl, hruns, hphase⟩ := h
  exact ⟨before, w, after ++ more, s, by simp, hruns, hphase⟩

theorem Computed.append {batches : List RecordBatch} {jws : String}
    (h : Computed setup actions task batches jws) : Computed setup (actions ++ more) task batches jws := by
  obtain ⟨hsubmitted, engine, collected, hengine, hexecuted, hresult⟩ := h
  exact ⟨List.mem_append_left _ hsubmitted, engine, collected, hengine, hexecuted.append, hresult⟩

theorem Accounted.append {result : QueryResult} (h : Accounted setup actions task result) :
    Accounted setup (actions ++ more) task result := by
  cases h with
  | rows hsource htenant hsql => exact .rows hsource.append htenant hsql
  | given hentry => exact .given hentry
  | failed hengine hexecuted herror => exact .failed hengine hexecuted.append herror
  | turnedAway hshutdown => exact .turnedAway (List.mem_append_left _ hshutdown)

theorem Backed.append {key : CacheKey} {entry : CacheEntry} (h : Backed setup actions key entry) :
    Backed setup (actions ++ more) key entry := by
  cases h with
  | computed hkey hsource => exact .computed hkey hsource.append
  | given hfirst hbatches hjws => exact .given hfirst hbatches hjws

theorem Stage.Accounted.append {stage : Stage} (h : stage.Accounted setup actions task) :
    stage.Accounted setup (actions ++ more) task := by
  cases stage with
  | computed | settled | cached => exact Pool.Accounted.append h
  | received | counted | missed | executing => trivial

theorem Sound.append {s : State n} (h : Sound setup actions s) : Sound setup (actions ++ more) s where
  submits call task hcall := List.mem_append_left _ (h.submits call task hcall)
  queued w task htask := List.mem_append_left _ (h.queued w task htask)
  busy w task stage hphase :=
    ⟨List.mem_append_left _ (h.busy w task stage hphase).1, (h.busy w task stage hphase).2.append⟩
  cached key entry hentry := (h.cached key entry hentry).append
  shutdown hs := by
    obtain ⟨call, hcall⟩ := h.shutdown hs
    exact ⟨call, List.mem_append_left _ hcall⟩
  draining w hw := by
    obtain ⟨call, hcall⟩ := h.draining w hw
    exact ⟨call, List.mem_append_left _ hcall⟩
  replies r result hr := by
    obtain ⟨task, htask, hreply, hresult⟩ := h.replies r result hr
    exact ⟨task, List.mem_append_left _ htask, hreply, hresult.append⟩

end Longer

/-! ### One step -/

section Step
variable {actions : List (Action n)} {s s' : State n}

theorem Sound.setSubmit (h : Sound setup actions s) {call : ReplyId} {phase : SubmitCall n}
    (hphase : ∀ task, phase = .admitted task ∨ (∃ w, phase = .routed task w) → .submit task ∈ actions) :
    Sound setup actions (s.setSubmit call phase) where
  submits r task hr := by
    by_cases hcall : r = call
    · subst hcall
      have hsame : (s.setSubmit r phase).submits r = phase := Function.update_self ..
      rw [hsame] at hr
      exact hphase task hr
    · have hsame : (s.setSubmit call phase).submits r = s.submits r := Function.update_of_ne hcall ..
      rw [hsame] at hr
      exact h.submits r task hr
  queued := h.queued
  busy := h.busy
  cached := h.cached
  shutdown := h.shutdown
  draining := h.draining
  replies := h.replies

theorem Sound.setWorker (h : Sound setup actions s) {w : Fin n} {worker : Worker}
    (hqueue : ∀ task ∈ worker.queue, .submit task ∈ actions)
    (hbusy : ∀ task stage, worker.phase = .busy task stage →
      .submit task ∈ actions ∧ stage.Accounted setup actions task)
    (hdraining : worker.phase = .draining → ∃ call, .shutdown call ∈ actions) :
    Sound setup actions (s.setWorker w worker) where
  submits := h.submits
  queued j := by
    by_cases hj : j = w
    · subst hj
      rwa [State.workers_setWorker_self]
    · rw [State.workers_setWorker_of_ne hj]
      exact h.queued j
  busy j := by
    by_cases hj : j = w
    · subst hj
      rwa [State.workers_setWorker_self]
    · rw [State.workers_setWorker_of_ne hj]
      exact h.busy j
  cached := h.cached
  shutdown := h.shutdown
  draining j := by
    by_cases hj : j = w
    · subst hj
      rwa [State.workers_setWorker_self]
    · rw [State.workers_setWorker_of_ne hj]
      exact h.draining j
  replies := h.replies

/-- Nothing else of a state matters. -/
theorem Sound.congr (h : Sound setup actions s) (hsubmits : s'.submits = s.submits)
    (hworkers : s'.workers = s.workers) (hcache : s'.cache = s.cache)
    (hshutdown : s'.shutdown = s.shutdown) (hreplies : s'.replies = s.replies) :
    Sound setup actions s' where
  submits := hsubmits ▸ h.submits
  queued := hworkers ▸ h.queued
  busy := hworkers ▸ h.busy
  cached := hcache ▸ h.cached
  shutdown := hshutdown ▸ h.shutdown
  draining := hworkers ▸ h.draining
  replies := hreplies ▸ h.replies

/-- A cache that only forgets. -/
theorem Sound.forgets (h : Sound setup actions s) {cache : QueryCache}
    (hcache : cache.lru.Forgets s.cache.lru) : Sound setup actions {s with cache} where
  submits := h.submits
  queued := h.queued
  busy := h.busy
  cached key entry hentry := h.cached key entry (hcache key entry hentry)
  shutdown := h.shutdown
  draining := h.draining
  replies := h.replies

/-- **The steps of callers.** -/
theorem Sound.caller (h : Sound setup actions s) {action : Action n}
    (hstep : s.step setup action = some s') (hcaller : ∀ w choice, action ≠ .worker w choice) :
    Sound setup (actions ++ [action]) s' := by
  have hlonger : Sound setup (actions ++ [action]) s := h.append
  cases action with
  | tick nanos =>
    obtain rfl := Option.some.inj hstep
    exact hlonger.congr rfl rfl rfl rfl rfl
  | submit task =>
    obtain ⟨-, rfl⟩ := State.step_submit hstep
    rw [State.submit]
    split
    · exact hlonger.setSubmit (by simp)
    · refine hlonger.setSubmit fun task' htask => ?_
      obtain hsame | ⟨w, hrouted⟩ := htask
      · obtain rfl := SubmitCall.admitted.inj hsame
        simp
      · cases hrouted
  | select call r =>
    obtain ⟨task, htask, rfl⟩ := State.step_select hstep
    have hsubmitted := hlonger.submits call task (.inl htask)
    have hrouted : ∀ (w : Fin n) task', SubmitCall.routed task w = .admitted task' ∨
        (∃ w', SubmitCall.routed task w = .routed task' w') → .submit task' ∈ actions ++ [.select call r] := by
      intro w task' htask'
      obtain hadmitted | ⟨w', hsame⟩ := htask'
      · cases hadmitted
      · obtain ⟨rfl, -⟩ := SubmitCall.routed.inj hsame
        exact hsubmitted
    rw [State.select]
    split
    · exact hlonger.setSubmit (hrouted _)
    · rename_i w _
      have hpinned : Sound setup (actions ++ [.select call r])
          {s with tenantAffinity := s.tenantAffinity.insert task.tenantId w} :=
        hlonger.congr rfl rfl rfl rfl rfl
      exact hpinned.setSubmit (hrouted w)
    · exact hlonger.setSubmit (by simp)
  | send call =>
    obtain ⟨task, w, hrouted, rfl⟩ := State.step_send hstep
    have hsubmitted := hlonger.submits call task (.inr ⟨w, hrouted⟩)
    rw [State.send]
    split
    · have hqueue : ∀ task' ∈ ((s.workers w).enqueue task).queue, .submit task' ∈ actions ++ [.send call] := by
        intro task' htask'
        obtain hqueued | hlast := List.mem_append.mp htask'
        · exact hlonger.queued w task' hqueued
        · rw [List.mem_singleton.mp hlast]
          exact hsubmitted
      have hsent : Sound setup (actions ++ [.send call]) (s.setWorker w ((s.workers w).enqueue task)) :=
        hlonger.setWorker hqueue (hlonger.busy w) (hlonger.draining w)
      exact hsent.setSubmit (by simp)
    · exact hlonger.setSubmit (by simp)
  | refresh bundle tenantId =>
    obtain rfl := State.step_refresh hstep
    refine hlonger.forgets fun key entry hentry => ?_
    rw [QueryCache.peek_invalidateTenant] at hentry
    split at hentry
    · cases hentry
    · exact hentry
  | shutdown call =>
    obtain ⟨-, rfl⟩ := State.step_shutdown hstep
    exact ⟨hlonger.submits, hlonger.queued, hlonger.busy, hlonger.cached, fun _ => ⟨call, by simp⟩,
      hlonger.draining, hlonger.replies⟩
  | drain call =>
    obtain ⟨deadline, next, total, -, rfl⟩ := State.step_drain hstep
    obtain ⟨phase, -, heq⟩ := s.drain_eq call deadline next total
    rw [heq]
    exact hlonger.congr rfl rfl rfl rfl rfl
  | drop =>
    obtain rfl := Option.some.inj hstep
    exact hlonger.congr rfl rfl rfl rfl rfl
  | worker w choice => exact absurd rfl (hcaller w choice)

/-- **What a worker does to the state it shares**, with what accounts for it. -/
theorem Sound.apply (h : Sound setup actions s) {effect : Effect}
    (hstores : ∀ task ok, effect = .stores task ok → .submit task ∈ actions ∧
      Accounted setup actions task (.ok ok))
    (hanswers : ∀ task result, effect = .answers task result → .submit task ∈ actions ∧
      Accounted setup actions task result) : Sound setup actions (s.apply setup effect) := by
  cases effect with
  | quiet | loses tasks => exact h.congr rfl rfl rfl rfl rfl
  | looksUp task => exact h.forgets (QueryCache.forgets_get _ _ _ _ _)
  | stores task ok =>
    refine ⟨h.submits, h.queued, h.busy, fun key entry hentry => ?_, h.shutdown, h.draining, h.replies⟩
    by_cases hkey : key = setup.key task
    · subst hkey
      obtain ⟨-, haccounted⟩ := hstores task ok rfl
      have hself := QueryCache.peek_put_self setup.sha256 setup.buffers s.clock task.tenantId task.sql
        ok.batches ok.attestationJws s.cache
      obtain rfl := Option.some.inj (hself.symm.trans hentry)
      cases haccounted with
      | rows hsource htenant hsql =>
        exact .computed (by rw [Setup.key, Setup.key, htenant, hsql]) hsource
      | given hfirst => exact .given hfirst rfl rfl
    · exact h.cached key entry (QueryCache.peek_put_of_ne hkey hentry)
  | answers task result =>
    refine ⟨h.submits, h.queued, h.busy, h.cached, h.shutdown, h.draining, fun r result' hr => ?_⟩
    obtain hnew | hold := List.mem_cons.mp hr
    · obtain ⟨rfl, rfl⟩ := Prod.mk.inj hnew
      obtain ⟨hsubmitted, haccounted⟩ := hanswers task result' rfl
      exact ⟨task, hsubmitted, rfl, haccounted⟩
    · exact h.replies r result' hold

/-- A worker that ends an execution was given its outcome. -/
theorem Worker.step_executing {view : View} {choice : Choice} {w w' : Worker} {task : QueryTask}
    {effect : Effect} (hphase : w.phase = .busy task .executing)
    (h : w.step setup view choice = some (w', effect)) :
    ∃ collected engine, choice = .outcome collected ∧ setup.engine = .ok engine ∧
      w' = w.moveTo (.busy task (.computed (task.executed engine collected))) ∧ effect = .quiet := by
  cases choice with
  | go | timeout => simp [Worker.step, hphase] at h
  | outcome collected =>
    simp only [Worker.step, hphase] at h
    cases hengine : setup.engine with
    | error e => simp [hengine] at h
    | ok engine =>
      simp only [hengine, Option.some.injEq, Prod.mk.injEq] at h
      exact ⟨collected, engine, rfl, rfl, h.1.symm, h.2.symm⟩

/-- The outcome of an execution is accounted for. -/
theorem accounted_executed {task : QueryTask} (hsubmitted : .submit task ∈ actions)
    {engine : K04DEngine} (hengine : setup.engine = .ok engine)
    {collected : Except DataFusionError (List RecordBatch)}
    (hexecuted : Executed setup actions task collected) :
    Accounted setup actions task (task.settled (task.executed engine collected)) := by
  cases hresult : task.executed engine collected with
  | ok found =>
    obtain ⟨batches, jws⟩ := found
    exact .rows ⟨hsubmitted, engine, collected, hengine, hexecuted, hresult⟩ rfl rfl
  | error e =>
    have hquery := hresult
    rw [QueryTask.executed] at hquery
    split at hquery
    · cases hquery
    · obtain rfl := Except.error.inj hquery
      exact .failed hengine hexecuted hresult

variable {used : List String}

/-- What the cache has for a task is accounted for. -/
theorem Sound.lookup (h : Sound setup actions s) (hused : ∀ task, .submit task ∈ actions → task.sql ∈ used)
    (hsha : NoCollision setup.sha256 used) {task : QueryTask} (hsubmitted : .submit task ∈ actions)
    {found : List RecordBatch × String} (hfound : (s.view setup).lookup task = some found) :
    Accounted setup actions task (task.settled (.ok found)) := by
  obtain ⟨entry, hentry, -, rfl⟩ := QueryCache.get_some hfound
  cases h.cached _ entry hentry with
  | computed hkey hsource =>
    obtain ⟨htenant, hsql⟩ := Prod.mk.inj
      (key_inj hsha (hused _ hsource.submitted) (hused task hsubmitted) hkey)
    exact .rows hsource htenant hsql
  | given hfirst hbatches hjws =>
    rw [← hbatches, ← hjws]
    exact .given hfirst

/-- **The steps of workers.** -/
theorem Sound.turn (h : Sound setup actions s) (hruns : (pool setup n).Runs actions s)
    (hused : ∀ task, .submit task ∈ actions → task.sql ∈ used) (hsha : NoCollision setup.sha256 used)
    {w : Fin n} {choice : Choice} {worker : Worker} {effect : Effect}
    (hstep : (s.workers w).step setup (s.view setup) choice = some (worker, effect)) :
    Sound setup (actions ++ [.worker w choice]) ((s.setWorker w worker).apply setup effect) := by
  have hlonger : Sound setup (actions ++ [.worker w choice]) s := h.append
  -- a worker that moves on to no task and does not drain, with its queue as it was
  have hmoves : ∀ phase : Phase, (∀ task stage, phase ≠ .busy task stage) → phase ≠ .draining →
      Sound setup (actions ++ [.worker w choice]) (s.setWorker w ((s.workers w).moveTo phase)) :=
    fun phase hidle hdrains => hlonger.setWorker (hlonger.queued w)
      (fun task stage hphase => absurd hphase (hidle task stage)) (fun hphase => absurd hphase hdrains)
  -- a worker that is busy, with what accounts for it
  have hserves : ∀ worker : Worker, worker.queue ⊆ (s.workers w).queue → ∀ task stage,
      worker.phase = .busy task stage → .submit task ∈ actions ++ [.worker w choice] →
      stage.Accounted setup (actions ++ [.worker w choice]) task →
      Sound setup (actions ++ [.worker w choice]) (s.setWorker w worker) := by
    intro worker hqueue task stage hphase hsubmitted haccounted
    refine hlonger.setWorker (fun queued hqueued => hlonger.queued w queued (hqueue hqueued))
      (fun task' stage' hphase' => ?_) (fun hphase' => ?_)
    · obtain ⟨rfl, rfl⟩ := Phase.busy.inj (hphase.symm.trans hphase')
      exact ⟨hsubmitted, haccounted⟩
    · cases hphase.symm.trans hphase'
  cases Worker.turn_of_step hstep with
  | started | failed | waits | timesOut | closes | drained => exact hmoves _ (by simp) (by simp)
  | halts hphase hshutdown =>
    exact hlonger.setWorker (hlonger.queued w) (fun task stage hbusy => by cases hbusy)
      (fun _ => hlonger.shutdown hshutdown)
  | receives task rest hphase hqueue =>
    exact hserves _ (by simp [hqueue]) task .received rfl (hlonger.queued w task (by simp [hqueue])) trivial
  | counts task hphase =>
    exact hserves _ (List.Subset.refl _) task .counted rfl (hlonger.busy w task _ hphase).1 trivial
  | hits task found hphase hfound =>
    have hsubmitted := h.busy w task _ hphase
    have hcomputed := hserves ((s.workers w).moveTo (.busy task (.computed (.ok found))))
      (List.Subset.refl _) task _ rfl (hlonger.busy w task _ hphase).1
      (h.lookup hused hsha hsubmitted.1 hfound).append
    exact hcomputed.apply (by simp) (by simp)
  | misses task hphase =>
    have hmissed := hserves ((s.workers w).moveTo (.busy task .missed)) (List.Subset.refl _) task
      .missed rfl (hlonger.busy w task _ hphase).1 trivial
    exact hmissed.apply (by simp) (by simp)
  | begins task hphase =>
    exact hserves _ (List.Subset.refl _) task .executing rfl (hlonger.busy w task _ hphase).1 trivial
  | computes task engine collected hphase hengine =>
    obtain ⟨collected', engine', rfl, hengine', hmoved, -⟩ := Worker.step_executing hphase hstep
    have hsame := congrArg Worker.phase hmoved
    simp only [Worker.moveTo, Phase.busy.injEq, Stage.computed.injEq, true_and] at hsame
    have hsubmitted := (hlonger.busy w task _ hphase).1
    have hexecuted : Executed setup (actions ++ [.worker w (.outcome collected')]) task collected' :=
      ⟨actions, w, [], s, rfl, hruns, hphase⟩
    refine hserves _ (List.Subset.refl _) task (.computed (task.executed engine collected)) rfl
      hsubmitted ?_
    rw [hsame]
    exact accounted_executed hsubmitted hengine' hexecuted
  | settles task result hphase =>
    obtain ⟨hsubmitted, haccounted⟩ := hlonger.busy w task _ hphase
    exact hserves _ (List.Subset.refl _) task (.settled (task.settled result)) rfl hsubmitted haccounted
  | stores task ok hphase =>
    obtain ⟨hsubmitted, haccounted⟩ := hlonger.busy w task _ hphase
    have hcached := hserves ((s.workers w).moveTo (.busy task (.cached (.ok ok)))) (List.Subset.refl _)
      task _ rfl hsubmitted haccounted
    refine hcached.apply (fun task' ok' heffect => ?_) (by simp)
    obtain ⟨rfl, rfl⟩ := Effect.stores.inj heffect
    exact ⟨hsubmitted, haccounted⟩
  | skips task e hphase =>
    obtain ⟨hsubmitted, haccounted⟩ := hlonger.busy w task _ hphase
    exact hserves _ (List.Subset.refl _) task (.cached (.error e)) rfl hsubmitted haccounted
  | replies task result hphase =>
    obtain ⟨hsubmitted, haccounted⟩ := hlonger.busy w task _ hphase
    refine (hmoves .looping (by simp) (by simp)).apply (by simp) (fun task' result' heffect => ?_)
    obtain ⟨rfl, rfl⟩ := Effect.answers.inj heffect
    exact ⟨hsubmitted, haccounted⟩
  | drains task rest hphase hqueue =>
    have hsubmitted := hlonger.queued w task (by simp [hqueue])
    have hkept : ∀ queued ∈ rest, .submit queued ∈ actions ++ [.worker w choice] :=
      fun queued hqueued => hlonger.queued w queued (by simp [hqueue, hqueued])
    have hrest : Sound setup (actions ++ [.worker w choice])
        (s.setWorker w {s.workers w with queue := rest}) :=
      hlonger.setWorker hkept (hlonger.busy w) (hlonger.draining w)
    refine hrest.apply (by simp) (fun task' result' heffect => ?_)
    obtain ⟨rfl, rfl⟩ := Effect.answers.inj heffect
    obtain ⟨call, hcall⟩ := hlonger.draining w hphase
    exact ⟨hsubmitted, .turnedAway hcall⟩
  | retires hphase =>
    exact hlonger.setWorker (hlonger.queued w) (fun task stage hbusy => by cases hbusy)
      (fun hdraining => by cases hdraining)
  | stops hphase =>
    have hstopped : Sound setup (actions ++ [.worker w choice])
        (s.setWorker w {s.workers w with queue := [], phase := .stopped}) :=
      hlonger.setWorker (by simp) (fun task stage hbusy => by cases hbusy)
        (fun hdraining => by cases hdraining)
    exact hstopped.apply (by simp) (by simp)

end Step

/-! ### Runs -/

theorem sound_start : Sound setup [] (State.start setup : State n) where
  submits call task hcall := by
    obtain hadmitted | ⟨w, hrouted⟩ := hcall
    · cases hadmitted
    · cases hrouted
  queued w task htask := by cases htask
  busy w task stage hphase := by cases hphase
  cached key entry hentry := .given hentry rfl rfl
  shutdown hs := by cases hs
  draining w hw := by cases hw
  replies r result hr := by cases hr

theorem sound_step {used : List String} (hsha : NoCollision setup.sha256 used) {actions : List (Action n)}
    {action : Action n} {s s' : State n} (hruns : (pool setup n).Runs actions s)
    (h : Sound setup actions s) (hused : ∀ task, .submit task ∈ actions → task.sql ∈ used)
    (hstep : s.step setup action = some s') : Sound setup (actions ++ [action]) s' := by
  cases action with
  | worker w choice =>
    simp only [State.step] at hstep
    split at hstep
    · rename_i worker effect hturn
      obtain rfl := Option.some.inj hstep
      exact h.turn hruns hused hsha hturn
    · cases hstep
  | tick | submit | select | send | refresh | shutdown | drain | drop =>
    exact h.caller hstep (by simp)

theorem sound_of_runs {actions : List (Action n)} {s : State n} {used : List String}
    (hruns : (pool setup n).Runs actions s) (hsha : NoCollision setup.sha256 used)
    (hused : ∀ task, .submit task ∈ actions → task.sql ∈ used) : Sound setup actions s := by
  refine Machine.runs_rule (I := fun actions s => (∀ task, .submit task ∈ actions → task.sql ∈ used) →
    Sound setup actions s) (fun _ => sound_start) ?_ hruns hused
  intro actions action s s' hruns hsound hstep hused
  have hbefore : ∀ task, .submit task ∈ actions → task.sql ∈ used :=
    fun task htask => hused task (List.mem_append_left _ htask)
  exact sound_step hsha hruns (hsound hbefore) hbefore hstep

/-- **Every reply of every run is accounted for**, as long as the digests keep the texts apart:
it goes to a task that was submitted, on its own channel, with rows that the engine made of
the task's own text for its own tenant, an error that the engine made of the task, or the word
that the pool was shut down. -/
theorem replies_accounted {n : Nat} {setup : Setup} {actions : List (Action n)} {s : State n}
    {used : List String} (hruns : (pool setup n).Runs actions s)
    (hsha : NoCollision setup.sha256 used) (hused : ∀ task, .submit task ∈ actions → task.sql ∈ used)
    {r : ReplyId} {result : QueryResult} (hreply : (r, result) ∈ s.replies) :
    ∃ task, .submit task ∈ actions ∧ task.reply = r ∧ Accounted setup actions task result :=
  (sound_of_runs hruns hsha hused).replies r result hreply

/-- The second reply of the run comes from the cache. -/
theorem replies_accounted_keptAlive :
    ∃ s result, (pool demoSetup 1).Runs keptAlive s ∧ (1, result) ∈ s.replies ∧
      ∃ task, .submit task ∈ keptAlive ∧ task.reply = 1 ∧ Accounted demoSetup keptAlive task result := by
  have hruns : ∃ s result, (pool demoSetup 1).Runs keptAlive s ∧ (1, result) ∈ s.replies :=
    ⟨_, _, rfl, List.mem_cons_of_mem _ List.mem_cons_self⟩
  obtain ⟨s, result, hrun, hreply⟩ := hruns
  have hsha : NoCollision demoSetup.sha256 ["SELECT 1"] := by
    intro a ha b hb _
    rw [List.mem_singleton.mp ha, List.mem_singleton.mp hb]
  have hused : ∀ task, .submit task ∈ keptAlive → task.sql ∈ ["SELECT 1"] := by
    intro task htask
    simp only [keptAlive, repeated, ask, hit, turn, List.mem_append, List.mem_cons, List.not_mem_nil,
      Action.submit.injEq, reduceCtorEq, or_false, false_or] at htask
    obtain (rfl | rfl) | rfl := htask <;> exact List.mem_singleton.mpr rfl
  exact ⟨s, result, hrun, hreply, replies_accounted hrun hsha hused hreply⟩

end Griot.Pool
