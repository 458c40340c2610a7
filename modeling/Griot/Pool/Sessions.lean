import Griot.Engine.Shell
import Griot.Lib.Refinement
import Griot.Pool.Provenance

/-! A pool of workers with sessions.

The engine of a worker keeps one session for as long as the worker lives, for whatever tenants
are routed to it. A pool whose workers query such sessions refines the pool in which a query may
come to anything (`refinement`); and what a query comes to is what a session gives that ran the
earlier queries of the same worker, in order, and nothing else (`replies_replayed`). -/
namespace Griot.Pool

open Lib

variable (df : DataFusion) (setup : Setup) {n : Nat}

/-! ### The pool with sessions -/

/-- A step of the pool in which no query ends, or a query that a worker is at. -/
inductive Move (n : Nat) where
  | pool (action : Action n)
  | query (w : Fin n) (moment : Nat)

structure Sessions (n : Nat) where
  pool : State n
  /-- The session of a worker's engine, made on first use. -/
  ctx : Fin n → Option df.Ctx

/-- What `execute_query_task` makes of the result of the engine. -/
def QueryTask.queried (task : QueryTask) (result : Except EngineError (List RecordBatch)) :
    Except PoolError (List RecordBatch × String) :=
  match result with
  | .ok batches => .ok (batches, "placeholder." ++ task.correlationId ++ ".jws")
  | .error e => .error (.engine e)

def endsQuery : Action n → Bool
  | .worker _ (.outcome _) => true
  | _ => false

namespace Sessions
variable {df}

def start (setup : Setup) : Sessions df n := ⟨.start setup, fun _ => none⟩

/-- The engine of a worker. -/
def shell (engine : K04DEngine) (w : Fin n) (s : Sessions df n) : Griot.K04DEngine df :=
  ⟨engine, s.ctx w⟩

def session (w : Fin n) (s : Sessions df n) : df.Ctx := (s.ctx w).getD df.new

/-- A worker queries its engine for its task. -/
def query (w : Fin n) (moment : Nat) (task : QueryTask) (engine : K04DEngine) (s : Sessions df n) :
    Sessions df n :=
  let queried := (s.shell engine w).query moment task.sql
  ⟨s.pool.setWorker w ((s.pool.workers w).moveTo (.busy task (.computed (task.queried queried.1)))),
    Function.update s.ctx w queried.2.ctx⟩

def step (setup : Setup) : Move n → Sessions df n → Option (Sessions df n)
  | .pool action, s =>
    if endsQuery action then none else (s.pool.step setup action).map fun pool => {s with pool}
  | .query w moment, s => match (s.pool.workers w).phase, setup.engine with
    | .busy task .executing, .ok engine => some (s.query w moment task engine)
    | _, _ => none

end Sessions

def sessions (n : Nat) : Machine (Move n) (Sessions df n) := ⟨.start setup, Sessions.step setup⟩

/-! ### It refines the pool -/

variable {df setup}

/-- What planning and collecting a worker's statement comes to. -/
def Sessions.collected (s : Sessions df n) (w : Fin n) (moment : Nat) :
    Except DataFusionError (List RecordBatch) :=
  match (s.pool.workers w).phase with
  | .busy task _ => (Griot.K04DEngine.execute df moment task.sql (s.session w)).1
  | _ => .ok []

def Move.trace (s : Sessions df n) : Move n → Action n
  | .pool action => action
  | .query w moment => .worker w (.outcome (s.collected w moment))

theorem Sessions.step_query {s s' : Sessions df n} {w : Fin n} {moment : Nat}
    (h : s.step setup (.query w moment) = some s') : ∃ task engine,
      (s.pool.workers w).phase = .busy task .executing ∧ setup.engine = .ok engine ∧
        s' = s.query w moment task engine := by
  simp only [step] at h
  split at h
  · exact ⟨_, _, ‹_›, ‹_›, (Option.some.inj h).symm⟩
  · cases h

theorem Sessions.step_pool {s s' : Sessions df n} {action : Action n}
    (h : s.step setup (.pool action) = some s') :
    endsQuery action = false ∧ s.pool.step setup action = some s'.pool ∧ s'.ctx = s.ctx := by
  simp only [step] at h
  split at h
  · cases h
  · obtain ⟨pool, hpool, rfl⟩ := Option.map_eq_some_iff.mp h
    exact ⟨Bool.eq_false_iff.mpr ‹_›, hpool, rfl⟩

theorem Sessions.pool_query (s : Sessions df n) (w : Fin n) (moment : Nat) (task : QueryTask)
    (engine : K04DEngine) : (s.query w moment task engine).pool = s.pool.setWorker w
      ((s.pool.workers w).moveTo (.busy task (.computed (task.executed engine
        (Griot.K04DEngine.execute df moment task.sql (s.session w)).1)))) := by
  show s.pool.setWorker w ((s.pool.workers w).moveTo (.busy task
    (.computed (task.queried ((s.shell engine w).query moment task.sql).1)))) = _
  rw [Griot.K04DEngine.query_fst]
  rfl

/-- The end of a query is one that the pool allows for. -/
theorem Sessions.step_trace {s s' : Sessions df n} {move : Move n} (h : s.step setup move = some s') :
    s.pool.step setup (move.trace s) = some s'.pool := by
  cases move with
  | pool action => exact (step_pool h).2.1
  | query w moment =>
    obtain ⟨task, engine, hphase, hengine, rfl⟩ := step_query h
    rw [pool_query]
    simp only [Move.trace, collected, hphase, State.step, Worker.step, hengine]
    rfl

variable (df setup) in
/-- **The pool with sessions refines the pool.** -/
def refinement (n : Nat) : Refinement (sessions df setup n) (pool setup n) where
  shows := Sessions.pool
  trace move s := move.trace s
  start := rfl
  step h := Sessions.step_trace h

/-! ### What a session has seen -/

/-- What a query does to the session of its engine. -/
def visits (df : DataFusion) (moment : Nat) (task : QueryTask) (engine : K04DEngine) : List (Visit df) :=
  (shellGate df engine.config).pass ⟨moment, .query task.sql⟩ engine.contractBundle

/-- What a step does to the session of a worker. -/
def Move.visits (setup : Setup) (w : Fin n) (s : Sessions df n) : Move n → List (Visit df)
  | .pool _ => []
  | .query v moment =>
    if v = w then match (s.pool.workers w).phase, setup.engine with
      | .busy task _, .ok engine => Pool.visits df moment task engine
      | _, _ => []
    else []

/-- What a run does to the session of a worker, in order. -/
def ran (setup : Setup) (w : Fin n) : List (Move n) → Sessions df n → List (Visit df)
  | [], _ => []
  | move :: moves, s => move.visits setup w s ++ match s.step setup move with
    | some s' => ran setup w moves s'
    | none => []

theorem Sessions.session_query (s : Sessions df n) (w : Fin n) (moment : Nat) (task : QueryTask)
    (engine : K04DEngine) : (s.query w moment task engine).session w =
      (sqlSession df).after (visits df moment task engine) (s.session w) := by
  have hself : (s.query w moment task engine).session w =
      ((s.shell engine w).query moment task.sql).2.ensureCtx := by
    show (Function.update s.ctx w ((s.shell engine w).query moment task.sql).2.ctx w).getD df.new = _
    rw [Function.update_self]
    rfl
  have habreast : Abreast engine.config (s.shell engine w) (s.session w, engine.contractBundle) :=
    ⟨rfl, rfl, rfl⟩
  obtain ⟨-, hafter⟩ := reply_abreast ⟨moment, .query task.sql⟩ habreast
  rw [Gate.reply_before] at hafter
  exact hself.trans hafter.ctx

theorem Sessions.session_query_of_ne (s : Sessions df n) {v w : Fin n} (h : w ≠ v) (moment : Nat)
    (task : QueryTask) (engine : K04DEngine) :
    (s.query v moment task engine).session w = s.session w := by
  show (Function.update s.ctx v _ w).getD df.new = _
  rw [Function.update_of_ne h]
  rfl

theorem Sessions.session_step {s s' : Sessions df n} {move : Move n}
    (h : s.step setup move = some s') (w : Fin n) :
    s'.session w = (sqlSession df).after (move.visits setup w s) (s.session w) := by
  cases move with
  | pool action =>
    obtain ⟨-, -, hctx⟩ := step_pool h
    rw [session, hctx]
    rfl
  | query v moment =>
    obtain ⟨task, engine, hphase, hengine, rfl⟩ := step_query h
    by_cases hv : v = w
    · subst hv
      simp only [session_query, Move.visits, hphase, hengine, if_true]
    · rw [session_query_of_ne _ (Ne.symm hv), Move.visits, if_neg hv]
      rfl

/-- **A session is what the earlier queries of its worker made of it.** -/
theorem session_ran {moves : List (Move n)} {s t : Sessions df n}
    (h : (sessions df setup n).exec moves s = some t) (w : Fin n) :
    t.session w = (sqlSession df).after (ran setup w moves s) (s.session w) := by
  induction moves generalizing s with
  | nil =>
    obtain rfl := Option.some.inj h
    rfl
  | cons move moves ih =>
    obtain ⟨s', hstep, hrest⟩ := Machine.exec_cons h
    have hran : ran setup w (move :: moves) s = move.visits setup w s ++ ran setup w moves s' := by
      rw [ran, show s.step setup move = some s' from hstep]
    rw [ih hrest, Sessions.session_step hstep, hran, Server.after_append]

/-! ### Replies -/

variable (df setup) in
/-- A query of a task came to this: its worker's engine asked a session that had run what the
worker had queried before. -/
def Queried (moves : List (Move n)) (task : QueryTask)
    (result : Except EngineError (List RecordBatch)) : Prop :=
  ∃ before w moment after s engine, moves = before ++ .query w moment :: after ∧
    (sessions df setup n).Runs before s ∧ (s.pool.workers w).phase = .busy task .executing ∧
    setup.engine = .ok engine ∧ result = engine.query task.sql
      (Griot.K04DEngine.execute df moment task.sql
        ((sqlSession df).after (ran setup w before (.start setup)) df.new)).1

variable (df setup) in
/-- What a task is replied to with. -/
inductive Replied (moves : List (Move n)) (task : QueryTask) : QueryResult → Prop
  /-- Rows of the task or, from the cache, of an earlier one. -/
  | rows {source : QueryTask} {batches : List RecordBatch}
      (hsubmitted : .pool (.submit source) ∈ moves) (htenant : source.tenantId = task.tenantId)
      (hsql : source.sql = task.sql) (hqueried : Queried df setup moves source (.ok batches)) :
      Replied moves task
        (.ok ⟨batches, "placeholder." ++ source.correlationId ++ ".jws", task.correlationId⟩)
  | given {entry : CacheEntry} (hentry : setup.cache.lru.peek (setup.key task) = some entry) :
      Replied moves task (.ok ⟨entry.batches, entry.attestationJws, task.correlationId⟩)
  | failed {e : EngineError} (hqueried : Queried df setup moves task (.error e)) :
      Replied moves task (.error (.engine e))
  | turnedAway {call : Nat} (hshutdown : .pool (.shutdown call) ∈ moves) :
      Replied moves task (.error .shutdown)

section Replies
variable {moves : List (Move n)} {s : Sessions df n}

theorem mem_of_projected (hruns : (sessions df setup n).Runs moves s) {action : Action n}
    (h : action ∈ (refinement df setup n).projected moves (.start setup))
    (hpool : ∀ w choice, action ≠ .worker w choice) : .pool action ∈ moves := by
  obtain ⟨move, hmem, t, htrace⟩ := Refinement.mem_projected hruns h
  cases move with
  | pool action' =>
    obtain rfl : action = action' := htrace
    exact hmem
  | query w moment => exact absurd htrace (hpool w _)

/-- An execution is a query. -/
theorem queried_of_executed (hruns : (sessions df setup n).Runs moves s) {task : QueryTask}
    {collected : Except DataFusionError (List RecordBatch)}
    (h : Executed setup ((refinement df setup n).projected moves (.start setup)) task collected)
    {engine : K04DEngine} (hengine : setup.engine = .ok engine) :
    Queried df setup moves task (engine.query task.sql collected) := by
  obtain ⟨before, w, after, p, hsplit, hbefore, hphase⟩ := h
  obtain ⟨earlier, move, later, t, t', rfl, hexec, hstep, rfl, htrace⟩ :=
    Refinement.split_projected hruns hsplit
  obtain rfl : p = t.pool := Option.some.inj
    (hbefore.symm.trans (Refinement.runs_projected (r := refinement df setup n) hexec))
  cases move with
  | pool action =>
    obtain rfl : .worker w (.outcome collected) = action := htrace
    have hpossible : t.step setup (.pool (.worker w (.outcome collected))) = some t' := hstep
    obtain ⟨hends, -, -⟩ := Sessions.step_pool hpossible
    cases hends
  | query v moment =>
    obtain ⟨rfl, houtcome⟩ := Action.worker.inj htrace
    obtain rfl := Choice.outcome.inj houtcome
    refine ⟨earlier, w, moment, later, t, engine, rfl, hexec, hphase, hengine, ?_⟩
    rw [Sessions.collected, hphase, session_ran hexec]
    rfl

/-- **What replies tell of sessions**: whatever the tenants, rows and errors are what the worker's
session comes to after the earlier queries of the same worker. -/
theorem replies_replayed {used : List String} (hruns : (sessions df setup n).Runs moves s)
    (hsha : NoCollision setup.sha256 used)
    (hused : ∀ task, .pool (.submit task) ∈ moves → task.sql ∈ used)
    {r : ReplyId} {result : QueryResult} (hreply : (r, result) ∈ s.pool.replies) :
    ∃ task, .pool (.submit task) ∈ moves ∧ task.reply = r ∧ Replied df setup moves task result := by
  have hpool := Refinement.runs_projected (r := refinement df setup n) hruns
  have hsubmitted : ∀ task, .submit task ∈ (refinement df setup n).projected moves (.start setup) →
      .pool (.submit task) ∈ moves := fun task htask => mem_of_projected hruns htask (by simp)
  have hsound := sound_of_runs hpool hsha fun task htask => hused task (hsubmitted task htask)
  obtain ⟨task, htask, hr, haccounted⟩ := hsound.replies r result hreply
  refine ⟨task, hsubmitted task htask, hr, ?_⟩
  cases haccounted with
  | @rows source batches jws hsource htenant hsql =>
    obtain ⟨hsource', engine, collected, hengine, hexecuted, hresult⟩ := hsource
    have hqueried := queried_of_executed hruns hexecuted hengine
    cases hquery : engine.query source.sql collected with
    | error e => simp [QueryTask.executed, hquery] at hresult
    | ok batches' =>
      simp only [QueryTask.executed, hquery, Except.ok.injEq, Prod.mk.injEq] at hresult
      obtain ⟨rfl, rfl⟩ := hresult
      rw [hquery] at hqueried
      exact .rows (hsubmitted source hsource') htenant hsql hqueried
  | given hentry => exact .given hentry
  | @failed engine collected e hengine hexecuted herror =>
    have hqueried := queried_of_executed hruns hexecuted hengine
    cases hquery : engine.query task.sql collected with
    | ok batches => simp [QueryTask.executed, hquery] at herror
    | error e' =>
      simp only [QueryTask.executed, hquery, Except.error.injEq, PoolError.engine.injEq] at herror
      obtain rfl := herror
      rw [hquery] at hqueried
      exact .failed hqueried
  | turnedAway hshutdown => exact .turnedAway (mem_of_projected hruns hshutdown (by simp))

end Replies

def askedBy (task : QueryTask) : List (Move 1) :=
  [.pool (.submit task),
    .pool (.select task.reply ((State.start demoSetup).readings demoSetup task.tenantId)),
    .pool (.send task.reply)]

/-- From the loop of the worker back to it, by way of a query. -/
def queriedAt (moment : Nat) : List (Move 1) :=
  let go := .pool (turn .go)
  [go, go, go, go, go, .query (Fin.last 0) moment, go, go, go]

def otherTask : QueryTask := ⟨"SELECT 2", "globex", "c-2", 1⟩

def twoTenants : List (Move 1) :=
  .pool (turn .go) :: askedBy demoTask ++ queriedAt 0 ++ askedBy otherTask ++ queriedAt 1

/-- The second tenant's query is in the session of the first. -/
theorem replies_replayed_twoTenants :
    ∃ s result, (sessions loggedSession demoSetup 1).Runs twoTenants s ∧ (1, result) ∈ s.pool.replies ∧
      result = .ok ⟨[rowsOnly 2], "placeholder.c-2.jws", "c-2"⟩ ∧
      ∃ task, .pool (.submit task) ∈ twoTenants ∧ task.reply = 1 ∧
        Replied loggedSession demoSetup twoTenants task result := by
  have hruns : ∃ s : Sessions loggedSession 1, (sessions loggedSession demoSetup 1).Runs twoTenants s ∧
      (1, .ok ⟨[rowsOnly 2], "placeholder.c-2.jws", "c-2"⟩) ∈ s.pool.replies :=
    ⟨_, rfl, List.mem_cons_self⟩
  obtain ⟨s, hrun, hreply⟩ := hruns
  have hused : ∀ task, .pool (.submit task) ∈ twoTenants → task.sql ∈ ["SELECT 1", "SELECT 2"] := by
    intro task htask
    simp only [twoTenants, askedBy, queriedAt, turn, List.mem_append, List.mem_cons, List.not_mem_nil,
      Move.pool.injEq, Action.submit.injEq, reduceCtorEq, or_false, false_or] at htask
    obtain rfl | rfl := htask <;> simp [demoTask, otherTask]
  have hsha : NoCollision demoSetup.sha256 ["SELECT 1", "SELECT 2"] :=
    fun _ _ _ _ hsame => utf8_inj hsame
  exact ⟨s, _, hrun, hreply, rfl, replies_replayed hrun hsha hused hreply⟩

end Griot.Pool
