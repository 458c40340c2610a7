import Griot.Ddl.Guard
import Griot.Lib.Machine
import Griot.Policy
import Griot.Pool.QueryCache

/-! The worker pool.

Callers submit tasks, each with a reply channel of its own; a task is routed to a
worker and sent to its queue. A worker builds its engine, then takes tasks from its queue one
at a time: it looks the query up in the shared cache, runs it through the engine on a
miss, stores the result, and replies. The shutdown flag turns callers away and makes workers
drain their queues and stop.

Everything moves in single steps, one load, store, lock, send or receive at a
time, and any step that is possible may be next. -/
namespace Griot.Pool

open Lib

/-! ### The engine -/

structure InitConfig where
  tenantId : String
  contractBundleEndpoint : String
  attestationEndpoint : String
  maxResultRows : Nat
  storagedSocket : String

def InitConfig.validate (config : InitConfig) : Except EngineError Unit :=
  if config.tenantId.isEmpty then .error (.invalidConfig "tenant_id must not be empty")
  else if config.contractBundleEndpoint.isEmpty then
    .error (.invalidConfig "contract_bundle_endpoint must not be empty")
  else if config.attestationEndpoint.isEmpty then
    .error (.invalidConfig "attestation_endpoint must not be empty")
  else if config.maxResultRows = 0 then .error (.invalidConfig "max_result_rows must be > 0")
  else if config.storagedSocket.isEmpty then
    .error (.invalidConfig "storaged_socket must not be empty")
  else .ok ()

structure K04DEngine where
  config : InitConfig
  contractBundle : Option ContractBundleHandle

namespace K04DEngine

def newWithConfig (config : InitConfig) : Except EngineError K04DEngine :=
  match config.validate with
  | .ok () => .ok ⟨config, none⟩
  | .error e => .error e

def injectContractBundle (bundle : ContractBundleHandle) (engine : K04DEngine) : K04DEngine :=
  {engine with contractBundle := some bundle}

/-- `collected` is what planning and collecting the statement comes to. -/
def query (engine : K04DEngine) (sql : String)
    (collected : Except DataFusionError (List RecordBatch)) : Except EngineError (List RecordBatch) :=
  if engine.contractBundle.isNone then .error .noContractBundle
  else match DdlGuard.rejectUnsafeDdl sql with
    | .error e => .error e
    | .ok () => collected.mapError .dataFusion

end K04DEngine

/-! ### Tasks and results -/

/-- A reply channel. Its sender is moved with the task, so it is the task's own. -/
abbrev ReplyId := Nat

structure QueryTask where
  sql : String
  tenantId : String
  correlationId : String
  reply : ReplyId

structure QueryResultOk where
  batches : List RecordBatch
  attestationJws : String
  correlationId : String

inductive PoolError where
  | shutdown
  | queueFull (workerCount : Nat)
  | engine (error : EngineError)

abbrev QueryResult := Except PoolError QueryResultOk

/-- The result of a task that the cache had nothing for. -/
def QueryTask.executed (task : QueryTask) (engine : K04DEngine)
    (collected : Except DataFusionError (List RecordBatch)) :
    Except PoolError (List RecordBatch × String) :=
  match engine.query task.sql collected with
  | .ok batches => .ok (batches, "placeholder." ++ task.correlationId ++ ".jws")
  | .error e => .error (.engine e)

def QueryTask.settled (task : QueryTask) (result : Except PoolError (List RecordBatch × String)) :
    QueryResult :=
  result.map (fun (batches, jws) => ⟨batches, jws, task.correlationId⟩)

structure PoolConfig where
  queueDepth : Nat
  drainTimeoutSecs : Nat

/-- What a pool is started with. -/
structure Setup where
  poolConfig : PoolConfig
  initConfig : InitConfig
  initialBundle : Option ContractBundleHandle
  cache : QueryCache
  sha256 : Bytes → Bytes
  buffers : ArrayRef → List Nat

/-- The engine every worker builds for itself. -/
def Setup.engine (setup : Setup) : Except EngineError K04DEngine :=
  match K04DEngine.newWithConfig setup.initConfig with
  | .error e => .error e
  | .ok engine => match setup.initialBundle with
    | none => .ok engine
    | some bundle => .ok (engine.injectContractBundle bundle)

/-! ### Workers -/

/-- How far a worker is with the task it received. -/
inductive Stage where
  | received
  | counted
  | missed
  | executing
  | computed (result : Except PoolError (List RecordBatch × String))
  | settled (result : QueryResult)
  | cached (result : QueryResult)

inductive Phase where
  | starting
  | looping
  | waiting
  | busy (task : QueryTask) (stage : Stage)
  | draining
  /-- Out of the loop, or without an engine. -/
  | exiting
  /-- No longer alive, but the receiver of the queue still exists. -/
  | retired
  | stopped

structure Worker where
  queue : List QueryTask
  alive : Bool
  inFlight : Nat
  phase : Phase

/-- What is up to the world outside the worker. -/
inductive Choice where
  | go
  | timeout
  | outcome (collected : Except DataFusionError (List RecordBatch))

/-- What a worker sees of the state it shares. -/
structure View where
  shutdown : Bool
  /-- No sender is left. -/
  closed : Bool
  lookup : QueryTask → Option (List RecordBatch × String)

/-- What a worker does to the state it shares. -/
inductive Effect where
  | quiet
  | looksUp (task : QueryTask)
  | stores (task : QueryTask) (result : QueryResultOk)
  | answers (task : QueryTask) (result : QueryResult)
  | loses (tasks : List QueryTask)

namespace Worker

def start : Worker := ⟨[], true, 0, .starting⟩

def moveTo (phase : Phase) (w : Worker) : Worker := {w with phase}

/-- The steps of `worker_loop` and of `execute_query_task`. -/
def step (setup : Setup) (view : View) (choice : Choice) (w : Worker) : Option (Worker × Effect) :=
  match w.phase, choice with
  | .starting, .go => match setup.engine with
    | .ok _ => some (w.moveTo .looping, .quiet)
    | .error _ => some (w.moveTo .exiting, .quiet)
  | .looping, .go =>
    if view.shutdown then some (w.moveTo .draining, .quiet) else some (w.moveTo .waiting, .quiet)
  | .waiting, .timeout => some (w.moveTo .looping, .quiet)
  | .waiting, .go => match w.queue with
    | task :: rest => some ({w with queue := rest, phase := .busy task .received}, .quiet)
    | [] => if view.closed then some (w.moveTo .exiting, .quiet) else none
  | .busy task .received, .go =>
    some ({w with inFlight := w.inFlight + 1, phase := .busy task .counted}, .quiet)
  | .busy task .counted, .go => match view.lookup task with
    | some found => some (w.moveTo (.busy task (.computed (.ok found))), .looksUp task)
    | none => some (w.moveTo (.busy task .missed), .looksUp task)
  | .busy task .missed, .go => some (w.moveTo (.busy task .executing), .quiet)
  | .busy task .executing, .outcome collected => match setup.engine with
    | .error _ => none
    | .ok engine =>
      some (w.moveTo (.busy task (.computed (task.executed engine collected))), .quiet)
  | .busy task (.computed result), .go =>
    some ({w with inFlight := w.inFlight - 1, phase := .busy task (.settled (task.settled result))},
      .quiet)
  | .busy task (.settled (.ok ok)), .go =>
    some (w.moveTo (.busy task (.cached (.ok ok))), .stores task ok)
  | .busy task (.settled (.error e)), .go =>
    some (w.moveTo (.busy task (.cached (.error e))), .quiet)
  | .busy task (.cached result), .go => some (w.moveTo .looping, .answers task result)
  | .draining, .go => match w.queue with
    | task :: rest => some ({w with queue := rest}, .answers task (.error .shutdown))
    | [] => some (w.moveTo .exiting, .quiet)
  | .exiting, .go => some ({w with alive := false, phase := .retired}, .quiet)
  -- the function returns, and the receiver goes with everything still queued in it
  | .retired, .go => some ({w with queue := [], phase := .stopped}, .loses w.queue)
  | _, _ => none

/-- What one step can be. -/
inductive Turn (setup : Setup) (view : View) (w : Worker) : Worker → Effect → Prop where
  | started (engine : K04DEngine) : w.phase = .starting → setup.engine = .ok engine →
    Turn setup view w (w.moveTo .looping) .quiet
  | failed (e : EngineError) : w.phase = .starting → setup.engine = .error e →
    Turn setup view w (w.moveTo .exiting) .quiet
  | halts : w.phase = .looping → view.shutdown = true →
    Turn setup view w (w.moveTo .draining) .quiet
  | waits : w.phase = .looping → view.shutdown = false →
    Turn setup view w (w.moveTo .waiting) .quiet
  | timesOut : w.phase = .waiting → Turn setup view w (w.moveTo .looping) .quiet
  | receives (task : QueryTask) (rest : List QueryTask) : w.phase = .waiting →
    w.queue = task :: rest →
    Turn setup view w {w with queue := rest, phase := .busy task .received} .quiet
  | closes : w.phase = .waiting → w.queue = [] → view.closed = true →
    Turn setup view w (w.moveTo .exiting) .quiet
  | counts (task : QueryTask) : w.phase = .busy task .received →
    Turn setup view w {w with inFlight := w.inFlight + 1, phase := .busy task .counted} .quiet
  | hits (task : QueryTask) (found : List RecordBatch × String) : w.phase = .busy task .counted →
    view.lookup task = some found →
    Turn setup view w (w.moveTo (.busy task (.computed (.ok found)))) (.looksUp task)
  | misses (task : QueryTask) : w.phase = .busy task .counted → view.lookup task = none →
    Turn setup view w (w.moveTo (.busy task .missed)) (.looksUp task)
  | begins (task : QueryTask) : w.phase = .busy task .missed →
    Turn setup view w (w.moveTo (.busy task .executing)) .quiet
  | computes (task : QueryTask) (engine : K04DEngine)
      (collected : Except DataFusionError (List RecordBatch)) :
    w.phase = .busy task .executing → setup.engine = .ok engine →
    Turn setup view w (w.moveTo (.busy task (.computed (task.executed engine collected)))) .quiet
  | settles (task : QueryTask) (result : Except PoolError (List RecordBatch × String)) :
    w.phase = .busy task (.computed result) →
    Turn setup view w
      {w with inFlight := w.inFlight - 1, phase := .busy task (.settled (task.settled result))}
      .quiet
  | stores (task : QueryTask) (ok : QueryResultOk) : w.phase = .busy task (.settled (.ok ok)) →
    Turn setup view w (w.moveTo (.busy task (.cached (.ok ok)))) (.stores task ok)
  | skips (task : QueryTask) (e : PoolError) : w.phase = .busy task (.settled (.error e)) →
    Turn setup view w (w.moveTo (.busy task (.cached (.error e)))) .quiet
  | replies (task : QueryTask) (result : QueryResult) : w.phase = .busy task (.cached result) →
    Turn setup view w (w.moveTo .looping) (.answers task result)
  | drains (task : QueryTask) (rest : List QueryTask) : w.phase = .draining →
    w.queue = task :: rest →
    Turn setup view w {w with queue := rest} (.answers task (.error .shutdown))
  | drained : w.phase = .draining → w.queue = [] →
    Turn setup view w (w.moveTo .exiting) .quiet
  | retires : w.phase = .exiting →
    Turn setup view w {w with alive := false, phase := .retired} .quiet
  | stops : w.phase = .retired →
    Turn setup view w {w with queue := [], phase := .stopped} (.loses w.queue)

theorem turn_of_step {setup : Setup} {view : View} {choice : Choice} {w w' : Worker}
    {effect : Effect} (h : w.step setup view choice = some (w', effect)) :
    Turn setup view w w' effect := by
  unfold step at h
  split at h
  · split at h <;> obtain ⟨rfl, rfl⟩ := Prod.mk.inj (Option.some.inj h)
    · exact .started _ ‹_› ‹_›
    · exact .failed _ ‹_› ‹_›
  · split at h <;> obtain ⟨rfl, rfl⟩ := Prod.mk.inj (Option.some.inj h)
    · exact .halts ‹_› ‹_›
    · exact .waits ‹_› (Bool.eq_false_iff.2 ‹_›)
  · obtain ⟨rfl, rfl⟩ := Prod.mk.inj (Option.some.inj h)
    exact .timesOut ‹_›
  · split at h
    · obtain ⟨rfl, rfl⟩ := Prod.mk.inj (Option.some.inj h)
      exact .receives _ _ ‹_› ‹_›
    · split at h
      · obtain ⟨rfl, rfl⟩ := Prod.mk.inj (Option.some.inj h)
        exact .closes ‹_› ‹_› ‹_›
      · cases h
  · obtain ⟨rfl, rfl⟩ := Prod.mk.inj (Option.some.inj h)
    exact .counts _ ‹_›
  · split at h <;> obtain ⟨rfl, rfl⟩ := Prod.mk.inj (Option.some.inj h)
    · exact .hits _ _ ‹_› ‹_›
    · exact .misses _ ‹_› ‹_›
  · obtain ⟨rfl, rfl⟩ := Prod.mk.inj (Option.some.inj h)
    exact .begins _ ‹_›
  · split at h
    · cases h
    · obtain ⟨rfl, rfl⟩ := Prod.mk.inj (Option.some.inj h)
      exact .computes _ _ _ ‹_› ‹_›
  · obtain ⟨rfl, rfl⟩ := Prod.mk.inj (Option.some.inj h)
    exact .settles _ _ ‹_›
  · obtain ⟨rfl, rfl⟩ := Prod.mk.inj (Option.some.inj h)
    exact .stores _ _ ‹_›
  · obtain ⟨rfl, rfl⟩ := Prod.mk.inj (Option.some.inj h)
    exact .skips _ _ ‹_›
  · obtain ⟨rfl, rfl⟩ := Prod.mk.inj (Option.some.inj h)
    exact .replies _ _ ‹_›
  · split at h <;> obtain ⟨rfl, rfl⟩ := Prod.mk.inj (Option.some.inj h)
    · exact .drains _ _ ‹_› ‹_›
    · exact .drained ‹_› ‹_›
  · obtain ⟨rfl, rfl⟩ := Prod.mk.inj (Option.some.inj h)
    exact .retires ‹_›
  · obtain ⟨rfl, rfl⟩ := Prod.mk.inj (Option.some.inj h)
    exact .stops ‹_›
  · cases h

section
variable {setup : Setup} {view : View} {w w' : Worker} {effect : Effect}

/-- Only a worker with a result at hand stores one. -/
theorem Turn.phase_of_stores {task : QueryTask} {ok : QueryResultOk}
    (h : Turn setup view w w' (.stores task ok)) : w.phase = .busy task (.settled (.ok ok)) := by
  cases h
  assumption

theorem Turn.effect_of_settled {task : QueryTask} {ok : QueryResultOk}
    (h : Turn setup view w w' effect) (hphase : w.phase = .busy task (.settled (.ok ok))) :
    effect = .stores task ok := by
  cases h <;> simp_all

end

def isStopped (w : Worker) : Bool := match w.phase with
  | .stopped => true
  | _ => false

/-- `try_send` succeeds: the receiver exists and has a free slot. -/
def hasRoom (setup : Setup) (w : Worker) : Bool :=
  !w.isStopped && w.queue.length < setup.poolConfig.queueDepth

def enqueue (task : QueryTask) (w : Worker) : Worker := {w with queue := w.queue ++ [task]}

end Worker

/-! ### Routing -/

/-- What `select_worker` reads, load by load while others run. -/
structure Readings (n : Nat) where
  pinned : Option (Fin n)
  alive : Fin n → Bool
  capacity : Fin n → Nat
  inFlight : Fin n → Nat

/-- The first of the least. -/
def minByKey {α : Type} (key : α → Nat) : List α → Option α
  | [] => none
  | a :: as => match minByKey key as with
    | none => some a
    | some b => if key a ≤ key b then some a else some b

inductive Route (n : Nat) where
  | sticky (w : Fin n)
  | best (w : Fin n)
  /-- Worker 0 of a pool without workers. -/
  | outOfRange

/-- The live worker with the least in flight, or else worker 0. -/
def leastLoaded {n : Nat} (r : Readings n) : Route n :=
  match minByKey r.inFlight ((List.finRange n).filter r.alive) with
  | some w => .best w
  | none => if h : 0 < n then .best ⟨0, h⟩ else .outOfRange

def selectWorker {n : Nat} (r : Readings n) : Route n :=
  match r.pinned with
  | some w => if r.alive w && 0 < r.capacity w then .sticky w else leastLoaded r
  | none => leastLoaded r

/-! ### The pool -/

/-- A call of `submit`. -/
inductive SubmitCall (n : Nat) where
  | idle
  | admitted (task : QueryTask)
  | routed (task : QueryTask) (w : Fin n)
  | returned (result : Except PoolError Unit)
  | panicked

/-- A call of `shutdown`: it sums what is in flight, worker after worker, until the sum is
zero or the deadline has passed. -/
inductive ShutdownCall where
  | idle
  | summing (deadline next total : Nat)
  | returned (drained : Bool)

structure State (n : Nat) where
  clock : Nat
  shutdown : Bool
  /-- The manager, and with it every sender, is gone. -/
  dropped : Bool
  tenantAffinity : Dict String (Fin n)
  workers : Fin n → Worker
  cache : QueryCache
  /-- A call of `submit` goes by the reply channel of its task. -/
  submits : ReplyId → SubmitCall n
  shutdowns : Nat → ShutdownCall
  /-- What was sent on the reply channels, newest first. -/
  replies : List (ReplyId × QueryResult)
  /-- Tasks dropped with their reply channels unused, newest first. -/
  lost : List QueryTask

inductive Action (n : Nat) where
  | tick (nanos : Nat)
  | submit (task : QueryTask)
  | select (call : ReplyId) (readings : Readings n)
  | send (call : ReplyId)
  | refresh (bundle : ContractBundleHandle) (tenantId : String)
  | shutdown (call : Nat)
  | drain (call : Nat)
  | drop
  | worker (w : Fin n) (choice : Choice)

namespace State
variable {n : Nat}

def start (setup : Setup) : State n :=
  ⟨0, false, false, .empty, fun _ => .start, setup.cache, fun _ => .idle, fun _ => .idle, [], []⟩

def setWorker (w : Fin n) (worker : Worker) (s : State n) : State n :=
  {s with workers := Function.update s.workers w worker}

def setSubmit (call : ReplyId) (phase : SubmitCall n) (s : State n) : State n :=
  {s with submits := Function.update s.submits call phase}

def setShutdown (call : Nat) (phase : ShutdownCall) (s : State n) : State n :=
  {s with shutdowns := Function.update s.shutdowns call phase}

/-- What the loads of `select_worker` see when nothing else runs. -/
def readings (setup : Setup) (tenantId : String) (s : State n) : Readings n where
  pinned := s.tenantAffinity.lookup tenantId
  alive := fun w => (s.workers w).alive
  capacity := fun w => setup.poolConfig.queueDepth - (s.workers w).queue.length
  inFlight := fun w => (s.workers w).inFlight

def view (setup : Setup) (s : State n) : View where
  shutdown := s.shutdown
  closed := s.dropped
  lookup := fun task => (s.cache.get setup.sha256 s.clock task.tenantId task.sql).1

def apply (setup : Setup) (effect : Effect) (s : State n) : State n :=
  match effect with
  | .quiet => s
  | .looksUp task =>
    {s with cache := (s.cache.get setup.sha256 s.clock task.tenantId task.sql).2}
  | .stores task ok =>
    { s with
      cache := s.cache.put setup.sha256 setup.buffers s.clock task.tenantId task.sql ok.batches
        ok.attestationJws }
  | .answers task result => {s with replies := (task.reply, result) :: s.replies}
  | .loses tasks => {s with lost := tasks ++ s.lost}

/-- `submit` up to the choice of the worker. -/
def submit (task : QueryTask) (s : State n) : State n :=
  if s.shutdown then s.setSubmit task.reply (.returned (.error .shutdown))
  else s.setSubmit task.reply (.admitted task)

def select (task : QueryTask) (readings : Readings n) (s : State n) : State n :=
  match selectWorker readings with
  | .sticky w => s.setSubmit task.reply (.routed task w)
  | .best w =>
    {s with tenantAffinity := s.tenantAffinity.insert task.tenantId w}.setSubmit task.reply
      (.routed task w)
  | .outOfRange => s.setSubmit task.reply .panicked

def send (setup : Setup) (task : QueryTask) (w : Fin n) (s : State n) : State n :=
  if (s.workers w).hasRoom setup then
    (s.setWorker w ((s.workers w).enqueue task)).setSubmit task.reply (.returned (.ok ()))
  else s.setSubmit task.reply (.returned (.error (.queueFull n)))

/-- The bundle is only logged. -/
def refreshContractBundle (_bundle : ContractBundleHandle) (tenantId : String) (s : State n) :
    State n := {s with cache := s.cache.invalidateTenant tenantId}

def initiateShutdown (setup : Setup) (call : Nat) (s : State n) : State n :=
  {s with shutdown := true}.setShutdown call
    (.summing (s.clock + setup.poolConfig.drainTimeoutSecs * 1000000000) 0 0)

/-- One load of the sum, or, when it is complete, its evaluation. -/
def drain (call deadline next total : Nat) (s : State n) : State n :=
  if h : next < n then
    s.setShutdown call (.summing deadline (next + 1) (total + (s.workers ⟨next, h⟩).inFlight))
  else if total = 0 then s.setShutdown call (.returned true)
  else if deadline ≤ s.clock then s.setShutdown call (.returned false)
  else s.setShutdown call (.summing deadline 0 0)

def step (setup : Setup) (action : Action n) (s : State n) : Option (State n) :=
  match action with
  | .tick nanos => some {s with clock := s.clock + nanos}
  | .submit task => match s.dropped, s.submits task.reply with
    | false, .idle => some (s.submit task)
    | _, _ => none
  | .select call readings => match s.dropped, s.submits call with
    | false, .admitted task => some (s.select task readings)
    | _, _ => none
  | .send call => match s.dropped, s.submits call with
    | false, .routed task w => some (s.send setup task w)
    | _, _ => none
  | .refresh bundle tenantId =>
    if s.dropped then none else some (s.refreshContractBundle bundle tenantId)
  | .shutdown call => match s.dropped, s.shutdowns call with
    | false, .idle => some (s.initiateShutdown setup call)
    | _, _ => none
  | .drain call => match s.dropped, s.shutdowns call with
    | false, .summing deadline next total => some (s.drain call deadline next total)
    | _, _ => none
  | .drop => some {s with dropped := true}
  | .worker w choice => match (s.workers w).step setup (s.view setup) choice with
    | some (worker, effect) => some ((s.setWorker w worker).apply setup effect)
    | none => none

/-! ### What one step is -/

variable {setup : Setup} {s s' : State n}

theorem step_worker {w : Fin n} {choice : Choice} (h : s.step setup (.worker w choice) = some s') :
    ∃ worker effect, (s.workers w).Turn setup (s.view setup) worker effect ∧
      s' = (s.setWorker w worker).apply setup effect := by
  simp only [step] at h
  split at h
  · rename_i worker effect hstep
    exact ⟨worker, effect, Worker.turn_of_step hstep, (Option.some.inj h).symm⟩
  · cases h

theorem step_submit {task : QueryTask} (h : s.step setup (.submit task) = some s') :
    s.submits task.reply = .idle ∧ s' = s.submit task := by
  simp only [step] at h
  split at h
  · exact ⟨‹_›, (Option.some.inj h).symm⟩
  · cases h

theorem step_select {call : ReplyId} {r : Readings n} (h : s.step setup (.select call r) = some s') :
    ∃ task, s.submits call = .admitted task ∧ s' = s.select task r := by
  simp only [step] at h
  split at h
  · exact ⟨_, ‹_›, (Option.some.inj h).symm⟩
  · cases h

theorem step_send {call : ReplyId} (h : s.step setup (.send call) = some s') :
    ∃ task w, s.submits call = .routed task w ∧ s' = s.send setup task w := by
  simp only [step] at h
  split at h
  · exact ⟨_, _, ‹_›, (Option.some.inj h).symm⟩
  · cases h

theorem step_refresh {bundle : ContractBundleHandle} {tenantId : String}
    (h : s.step setup (.refresh bundle tenantId) = some s') :
    s' = s.refreshContractBundle bundle tenantId := by
  simp only [step] at h
  split at h
  · cases h
  · exact (Option.some.inj h).symm

theorem step_shutdown {call : Nat} (h : s.step setup (.shutdown call) = some s') :
    s.shutdowns call = .idle ∧ s' = s.initiateShutdown setup call := by
  simp only [step] at h
  split at h
  · exact ⟨‹_›, (Option.some.inj h).symm⟩
  · cases h

theorem step_drain {call : Nat} (h : s.step setup (.drain call) = some s') :
    ∃ deadline next total, s.shutdowns call = .summing deadline next total ∧
      s' = s.drain call deadline next total := by
  simp only [step] at h
  split at h
  · exact ⟨_, _, _, ‹_›, (Option.some.inj h).symm⟩
  · cases h

/-- A turn of the loop of `shutdown` only moves its own call. -/
theorem drain_eq (call deadline next total : Nat) (s : State n) :
    ∃ phase, phase ≠ .idle ∧ s.drain call deadline next total = s.setShutdown call phase := by
  unfold drain
  split
  · exact ⟨_, by simp, rfl⟩
  · split
    · exact ⟨_, by simp, rfl⟩
    · split <;> exact ⟨_, by simp, rfl⟩

/-- What the actions of callers leave alone: the cache unless they refresh, the workers unless
they send, and what became of tasks always. -/
structure Frame (action : Action n) (s s' : State n) : Prop where
  cache : (∀ bundle tenantId, action ≠ .refresh bundle tenantId) → s'.cache = s.cache
  workers : (∀ call, action ≠ .send call) → s'.workers = s.workers
  replies : s'.replies = s.replies
  lost : s'.lost = s.lost
  clock : s.clock ≤ s'.clock

theorem step_frame {action : Action n} (h : s.step setup action = some s')
    (hworker : ∀ w choice, action ≠ .worker w choice) : Frame action s s' := by
  cases action with
  | tick nanos =>
    obtain rfl := Option.some.inj h
    exact ⟨fun _ => rfl, fun _ => rfl, rfl, rfl, Nat.le_add_right _ _⟩
  | submit task =>
    obtain ⟨-, rfl⟩ := step_submit h
    unfold submit
    split <;> exact ⟨fun _ => rfl, fun _ => rfl, rfl, rfl, le_rfl⟩
  | select call r =>
    obtain ⟨task, -, rfl⟩ := step_select h
    unfold select
    split <;> exact ⟨fun _ => rfl, fun _ => rfl, rfl, rfl, le_rfl⟩
  | send call =>
    obtain ⟨task, w, -, rfl⟩ := step_send h
    unfold send
    split <;> exact ⟨fun _ => rfl, fun hsend => absurd rfl (hsend call), rfl, rfl, le_rfl⟩
  | refresh bundle tenantId =>
    obtain rfl := step_refresh h
    exact ⟨fun hrefresh => absurd rfl (hrefresh bundle tenantId), fun _ => rfl, rfl, rfl, le_rfl⟩
  | shutdown call =>
    obtain ⟨-, rfl⟩ := step_shutdown h
    exact ⟨fun _ => rfl, fun _ => rfl, rfl, rfl, le_rfl⟩
  | drain call =>
    obtain ⟨deadline, next, total, -, rfl⟩ := step_drain h
    obtain ⟨phase, -, heq⟩ := s.drain_eq call deadline next total
    rw [heq]
    exact ⟨fun _ => rfl, fun _ => rfl, rfl, rfl, le_rfl⟩
  | drop =>
    obtain rfl := Option.some.inj h
    exact ⟨fun _ => rfl, fun _ => rfl, rfl, rfl, le_rfl⟩
  | worker w choice => exact absurd rfl (hworker w choice)

end State

/-- The pool of `n` workers. -/
def pool (setup : Setup) (n : Nat) : Machine (Action n) (State n) :=
  ⟨.start setup, State.step setup⟩

/-! ### A pool to run -/

def demoTask : QueryTask := ⟨"SELECT 1", "acme", "c-1", 0⟩

def demoBundle : ContractBundleHandle := ⟨[], "contract", "acme"⟩

def demoSetup : Setup where
  poolConfig := ⟨64, 30⟩
  initConfig := ⟨"acme", "unix:///run/griot/t04.sock", "unix:///run/griot/t05.sock", 1000,
    "/run/griot/t04.sock"⟩
  initialBundle := some demoBundle
  cache := .new .default
  sha256 := id
  buffers := fun _ => []

/-- Submit one task to a pool of one worker, up to the send. -/
def admitDemo : List (Action 1) :=
  [.submit demoTask, .select 0 ((State.start demoSetup).readings demoSetup "acme")]

end Griot.Pool
