import Griot.Data.Arrow
import Griot.Ddl.Soundness
import Griot.Lib.Gate
import Griot.Pool.Manager
import Griot.Storaged.Stat

/-! The engine shell.

The shell holds a contract bundle, once it is given one, and a session, made when it is first
needed. Tables are registered in any case; a query reaches the session when there is a bundle
and the guard lets the text pass, and is answered from what reached the session before it and
nothing else (`query_gated`). Of the bundle the shell sees only that there is one, and of its
configuration it uses only the socket of the daemon (`shell_indifferent`). -/
namespace Griot

open Lib Storaged Sql
open Pool (InitConfig)

/-! ### What the shell is built on -/

/-- Sessions and tables, and the Lance library. A session may change even when it reports an
error, and whatever the outside may have changed goes by the moment of a call. -/
structure DataFusion where
  Ctx : Type
  DataFrame : Type
  Table : Type
  Dataset : Type
  new : Ctx
  sql : Nat → String → Ctx → Except DataFusionError DataFrame × Ctx
  collect : Nat → DataFrame → Ctx → Except DataFusionError (List RecordBatch) × Ctx
  registerTable : Nat → String → Table → Ctx → Except DataFusionError Unit × Ctx
  registerParquet : Nat → String → String → Ctx → Except DataFusionError Unit × Ctx
  memTable : Schema → List (List RecordBatch) → Except DataFusionError Table
  parseUrl : String → Except String Unit
  /-- The store was entered in a registry. -/
  openWithParams : Nat → StoragedObjectStore → String → Except String Dataset
  toArrow : Dataset → Except String Schema
  lanceTable : Dataset → Schema → Table
  outside : Nat → Outside
  values : Values

variable (df : DataFusion)

/-- `LanceTableProvider::open` -/
def LanceTableProvider.open (moment : Nat) (assetId tenantId principalJwt storagedPath : String) :
    Except LanceTableError df.Table := do
  let store ← StoragedObjectStore.new (df.outside moment) df.values assetId tenantId principalJwt
    storagedPath
  let url := s!"griotfs://{assetId}"
  (df.parseUrl url).mapError fun e => .lanceOpen s!"URL parse error for '{url}': {e}"
  let dataset ← (df.openWithParams moment store url).mapError fun e =>
    .lanceOpen s!"lance::Dataset::open: {e}"
  let arrowSchema ← (df.toArrow dataset).mapError fun e => .lanceOpen s!"lance schema to arrow: {e}"
  return df.lanceTable dataset arrowSchema

inductive RegisterLanceError where
  | dataFusion (error : DataFusionError)
  | lanceRegistration (assetId : String) (reason : LanceTableError)

/-! ### The shell -/

/-- What a worker of the pool owns, and a session. -/
structure K04DEngine extends Pool.K04DEngine where
  /-- Made on first use. -/
  ctx : Option df.Ctx

namespace K04DEngine
variable {df} (moment : Nat) (engine : K04DEngine df)

def newWithConfig (df : DataFusion) (config : InitConfig) : Except EngineError (K04DEngine df) :=
  (Pool.K04DEngine.newWithConfig config).map fun engine => ⟨engine, none⟩

def injectContractBundle (bundle : ContractBundleHandle) : K04DEngine df :=
  {engine with toK04DEngine := engine.toK04DEngine.injectContractBundle bundle}

def hasContractBundle : Bool := engine.contractBundle.isSome

def ensureCtx : df.Ctx := engine.ctx.getD df.new

/-- The engine after something was done in its session. -/
def within {α : Type} (did : α × df.Ctx) : α × K04DEngine df :=
  (did.1, {engine with ctx := some did.2})

/-- A statement is planned, then run. -/
def execute (df : DataFusion) (moment : Nat) (sql : String) (ctx : df.Ctx) :
    Except DataFusionError (List RecordBatch) × df.Ctx :=
  match df.sql moment sql ctx with
  | (.error e, ctx) => (.error e, ctx)
  | (.ok frame, ctx) => df.collect moment frame ctx

def query (sql : String) : Except EngineError (List RecordBatch) × K04DEngine df :=
  if engine.contractBundle.isNone then (.error .noContractBundle, engine)
  else match DdlGuard.rejectUnsafeDdl sql with
    | .error e => (.error e, engine)
    | .ok () => let (batches, engine) := engine.within (execute df moment sql engine.ensureCtx)
      (batches.mapError .dataFusion, engine)

/-- In the pool, too, a query comes to this. -/
theorem query_fst (sql : String) : (engine.query moment sql).1 =
    engine.toK04DEngine.query sql (execute df moment sql engine.ensureCtx).1 := by
  rw [query, Pool.K04DEngine.query]
  split
  · rfl
  · cases DdlGuard.rejectUnsafeDdl sql <;> rfl

def registerMemoryTable (name : String) (schema : Schema) (partitions : List (List RecordBatch)) :
    Except EngineError Unit × K04DEngine df :=
  match df.memTable schema partitions with
  | .error e => (.error (.dataFusion e), {engine with ctx := some engine.ensureCtx})
  | .ok provider =>
    let (done, engine) := engine.within (df.registerTable moment name provider engine.ensureCtx)
    (done.mapError .dataFusion, engine)

def registerParquetTable (name path : String) : Except EngineError Unit × K04DEngine df :=
  let (done, engine) := engine.within (df.registerParquet moment name path engine.ensureCtx)
  (done.mapError .dataFusion, engine)

def registerLanceTable (name assetId tenantId principalJwt : String) :
    Except RegisterLanceError Unit × K04DEngine df :=
  match LanceTableProvider.open df moment assetId tenantId principalJwt engine.config.storagedSocket with
  | .error e => (.error (.lanceRegistration assetId e), {engine with ctx := some engine.ensureCtx})
  | .ok provider =>
    let (done, engine) := engine.within (df.registerTable moment name provider engine.ensureCtx)
    (done.mapError .dataFusion, engine)

end K04DEngine

/-! ### Using the shell -/

inductive Method where
  | tenantId
  | contractBundle
  | hasContractBundle
  | injectContractBundle (bundle : ContractBundleHandle)
  | query (sql : String)
  | registerMemoryTable (name : String) (schema : Schema) (partitions : List (List RecordBatch))
  | registerParquetTable (name path : String)
  | registerLanceTable (name assetId tenantId principalJwt : String)

structure Call where
  moment : Nat
  method : Method

def Reply (call : Call) : Type :=
  match call.method with
  | .tenantId => String
  | .contractBundle => Option ContractBundleHandle
  | .hasContractBundle => Bool
  | .injectContractBundle _ => Unit
  | .query _ => Except EngineError (List RecordBatch)
  | .registerMemoryTable _ _ _ | .registerParquetTable _ _ => Except EngineError Unit
  | .registerLanceTable _ _ _ _ => Except RegisterLanceError Unit

def K04DEngine.reply : (call : Call) → K04DEngine df → Reply call × K04DEngine df
  | ⟨_, .tenantId⟩, engine => (engine.config.tenantId, engine)
  | ⟨_, .contractBundle⟩, engine => (engine.contractBundle, engine)
  | ⟨_, .hasContractBundle⟩, engine => (engine.hasContractBundle, engine)
  | ⟨_, .injectContractBundle bundle⟩, engine => ((), engine.injectContractBundle bundle)
  | ⟨moment, .query sql⟩, engine => engine.query moment sql
  | ⟨moment, .registerMemoryTable name schema partitions⟩, engine =>
    engine.registerMemoryTable moment name schema partitions
  | ⟨moment, .registerParquetTable name path⟩, engine =>
    engine.registerParquetTable moment name path
  | ⟨moment, .registerLanceTable name assetId tenantId principalJwt⟩, engine =>
    engine.registerLanceTable moment name assetId tenantId principalJwt

def shell : Server Reply (K04DEngine df) := ⟨K04DEngine.reply df⟩

/-! ### A gate before a session -/

inductive Deed where
  | run (sql : String)
  | registerTable (name : String) (table : df.Table)
  | registerParquet (name path : String)

/-- What is done to the session, and when. -/
structure Visit where
  moment : Nat
  deed : Deed df

variable {df}

def Outcome (visit : Visit df) : Type :=
  match visit.deed with
  | .run _ => Except DataFusionError (List RecordBatch)
  | .registerTable _ _ | .registerParquet _ _ => Except DataFusionError Unit

variable (df) in
/-- A session that is there from the beginning. -/
def sqlSession : Server (@Outcome df) df.Ctx where
  reply
    | ⟨moment, .run sql⟩, ctx => K04DEngine.execute df moment sql ctx
    | ⟨moment, .registerTable name table⟩, ctx => df.registerTable moment name table ctx
    | ⟨moment, .registerParquet name path⟩, ctx => df.registerParquet moment name path ctx

variable (df) in
def admitQuery (moment : Nat) (sql : String) (held : Option ContractBundleHandle) :
    Verdict (@Outcome df) (Except EngineError (List RecordBatch)) :=
  if held.isNone then .turnedAway (.error .noContractBundle)
  else match DdlGuard.rejectUnsafeDdl sql with
    | .error e => .turnedAway (.error e)
    | .ok () => .passed ⟨moment, .run sql⟩ fun batches => batches.mapError .dataFusion

variable (df) in
def screen (config : InitConfig) : (call : Call) → Option ContractBundleHandle →
    Verdict (@Outcome df) (Reply call)
  | ⟨_, .tenantId⟩, _ => .turnedAway config.tenantId
  | ⟨_, .contractBundle⟩, held => .turnedAway held
  | ⟨_, .hasContractBundle⟩, held => .turnedAway held.isSome
  | ⟨_, .injectContractBundle _⟩, _ => .turnedAway ()
  | ⟨moment, .query sql⟩, held => admitQuery df moment sql held
  | ⟨moment, .registerMemoryTable name schema partitions⟩, _ =>
    match df.memTable schema partitions with
    | .error e => .turnedAway (.error (.dataFusion e))
    | .ok table => .passed ⟨moment, .registerTable name table⟩ fun done => done.mapError .dataFusion
  | ⟨moment, .registerParquetTable name path⟩, _ =>
    .passed ⟨moment, .registerParquet name path⟩ fun done => done.mapError .dataFusion
  | ⟨moment, .registerLanceTable name assetId tenantId principalJwt⟩, _ =>
    match LanceTableProvider.open df moment assetId tenantId principalJwt config.storagedSocket with
    | .error e => .turnedAway (.error (.lanceRegistration assetId e))
    | .ok table => .passed ⟨moment, .registerTable name table⟩ fun done => done.mapError .dataFusion

/-- The last bundle is held. -/
def hold : Call → Option ContractBundleHandle → Option ContractBundleHandle
  | ⟨_, .injectContractBundle bundle⟩, _ => some bundle
  | _, held => held

variable (df) in
/-- What the shell is for. -/
def shellGate (config : InitConfig) : Gate Reply (@Outcome df) (Option ContractBundleHandle) :=
  ⟨screen df config, hold⟩

/-- A shell, and the session behind the gate. -/
structure Abreast (config : InitConfig) (engine : K04DEngine df)
    (behind : df.Ctx × Option ContractBundleHandle) : Prop where
  config : engine.config = config
  bundle : engine.contractBundle = behind.2
  ctx : engine.ensureCtx = behind.1

/-- **The shell refines the gate before a session**, call by call. -/
theorem reply_abreast {config : InitConfig} (call : Call) {engine : K04DEngine df}
    {behind : df.Ctx × Option ContractBundleHandle} (h : Abreast config engine behind) :
    ((shell df).reply call engine).1 =
        (((shellGate df config).before (sqlSession df)).reply call behind).1 ∧
      Abreast config ((shell df).reply call engine).2
        (((shellGate df config).before (sqlSession df)).reply call behind).2 := by
  obtain ⟨ctx, held⟩ := behind
  obtain ⟨rfl, rfl, rfl⟩ := h
  obtain ⟨moment, method⟩ := call
  cases method with
  | tenantId | contractBundle | hasContractBundle | injectContractBundle bundle =>
    exact ⟨rfl, rfl, rfl, rfl⟩
  | query sql =>
    simp only [shell, K04DEngine.reply, K04DEngine.query, Gate.before, shellGate, screen, admitQuery]
    split
    · exact ⟨rfl, rfl, rfl, rfl⟩
    · split <;> exact ⟨rfl, rfl, rfl, rfl⟩
  | registerMemoryTable name schema partitions =>
    simp only [shell, K04DEngine.reply, K04DEngine.registerMemoryTable, Gate.before, shellGate, screen]
    split <;> exact ⟨rfl, rfl, rfl, rfl⟩
  | registerParquetTable name path => exact ⟨rfl, rfl, rfl, rfl⟩
  | registerLanceTable name assetId tenantId principalJwt =>
    simp only [shell, K04DEngine.reply, K04DEngine.registerLanceTable, Gate.before, shellGate, screen]
    split <;> exact ⟨rfl, rfl, rfl, rfl⟩

/-! ### Runs -/

variable {ρ : Type} {config : InitConfig} {engine : K04DEngine df} {program : Dialogue Reply ρ}

theorem abreast_new (h : K04DEngine.newWithConfig df config = .ok engine) :
    Abreast config engine (df.new, none) := by
  rw [K04DEngine.newWithConfig, Pool.K04DEngine.newWithConfig] at h
  cases hvalid : config.validate with
  | error e =>
    rw [hvalid] at h
    cases h
  | ok _ =>
    rw [hvalid] at h
    obtain rfl := Except.ok.inj h
    exact ⟨rfl, rfl, rfl⟩

/-- A program does not tell the shell from the session behind the gate. -/
theorem transcript_abreast {behind : df.Ctx × Option ContractBundleHandle}
    (h : Abreast config engine behind) (program : Dialogue Reply ρ) :
    (shell df).transcript program engine =
      ((shellGate df config).before (sqlSession df)).transcript program behind :=
  (Server.run_unwinds (R := Abreast config)
    (fun call _ _ (_ : True) hab => reply_abreast call hab) program h fun _ _ => trivial).2

/-- A bundle was injected. -/
def Injected (past : List (Exchange Reply)) : Prop :=
  ∃ e ∈ past, ∃ moment bundle, e.question = ⟨moment, .injectContractBundle bundle⟩

variable (df) in
/-- What reached the session of a new shell, in order. -/
def reached (config : InitConfig) (past : List (Exchange Reply)) : List (Visit df) :=
  (shellGate df config).passed past none

/-- A query that may reach the session: it came after a bundle, and the guard let it pass. -/
structure Permitted (past : List (Exchange Reply)) (moment : Nat) (sql : String) : Prop where
  asked : ∃ earlier e later, past = earlier ++ e :: later ∧ e.question = ⟨moment, .query sql⟩ ∧
    Injected earlier
  passes : DdlGuard.rejectUnsafeDdl sql = .ok ()
  plain : DdlGuard.inStep sql.toList = true → ∀ statement ∈ statements sql.toList,
    ¬ DdlGuard.IsVerb (DdlGuard.plainToken (statement.map Mark.char))

theorem held_iff (past : List (Exchange Reply)) (held : Option ContractBundleHandle) :
    ((shellGate df config).after past held).isSome = true ↔ held.isSome = true ∨ Injected past := by
  induction past generalizing held with
  | nil => simp [Gate.after, Injected]
  | cons e past ih =>
    show ((shellGate df config).after past ((shellGate df config).next e.question held)).isSome = true ↔ _
    rw [ih]
    obtain ⟨⟨moment, method⟩, answer⟩ := e
    cases method <;> simp [Injected, shellGate, hold]

theorem not_held {past : List (Exchange Reply)} (h : ¬ Injected past) :
    ((shellGate df config).after past none).isNone = true := by
  have hiff := @held_iff df config past none
  simpa [h] using hiff

theorem held {past : List (Exchange Reply)} (h : Injected past) :
    ((shellGate df config).after past none).isNone = false := by
  have hsome := (@held_iff df config past none).mpr (.inr h)
  simpa [← Option.not_isSome] using hsome

section Verdicts
variable {call : Call} {held : Option ContractBundleHandle} {moment : Nat} {sql : String}

theorem admitQuery_unheld (h : held.isNone = true) :
    admitQuery df moment sql held = .turnedAway (.error .noContractBundle) := if_pos h

theorem admitQuery_error (h : held.isNone = false) {e : EngineError}
    (hguard : DdlGuard.rejectUnsafeDdl sql = .error e) :
    admitQuery df moment sql held = .turnedAway (.error e) := by
  simp only [admitQuery, h, hguard, Bool.false_eq_true, if_false]

theorem admitQuery_ok (h : held.isNone = false) (hguard : DdlGuard.rejectUnsafeDdl sql = .ok ()) :
    admitQuery df moment sql held =
      .passed ⟨moment, .run sql⟩ fun batches => batches.mapError .dataFusion := by
  simp only [admitQuery, h, hguard, Bool.false_eq_true, if_false]

/-- What is passed to be run is a query that may be. -/
theorem admit_run {read : Outcome ⟨moment, .run sql⟩ → Reply call}
    (h : screen df config call held = .passed ⟨moment, .run sql⟩ read) :
    call = ⟨moment, .query sql⟩ ∧ held.isNone = false ∧ DdlGuard.rejectUnsafeDdl sql = .ok () := by
  obtain ⟨moment', method⟩ := call
  cases method with
  | query sql' =>
    rw [screen] at h
    cases hheld : held.isNone with
    | true =>
      rw [admitQuery_unheld hheld] at h
      cases h
    | false =>
      cases hguard : DdlGuard.rejectUnsafeDdl sql' with
      | error e =>
        rw [admitQuery_error hheld hguard] at h
        cases h
      | ok _ =>
        rw [admitQuery_ok hheld hguard] at h
        cases h
        exact ⟨rfl, rfl, hguard⟩
  | registerMemoryTable name schema partitions =>
    rw [screen] at h
    split at h <;> cases h
  | registerLanceTable name assetId tenantId principalJwt =>
    rw [screen] at h
    split at h <;> cases h
  | tenantId | contractBundle | hasContractBundle | injectContractBundle bundle
    | registerParquetTable name path => cases h

end Verdicts

theorem permitted_of_reached {past : List (Exchange Reply)} {moment : Nat} {sql : String}
    (h : ⟨moment, .run sql⟩ ∈ reached df config past) : Permitted past moment sql := by
  obtain ⟨earlier, e, later, hpast, hpass⟩ := Gate.mem_passed h
  obtain ⟨read, hadmit⟩ := Gate.mem_pass hpass
  obtain ⟨hcall, hheld, hguard⟩ := admit_run hadmit
  have hinjected : Injected earlier := by
    by_contra hnot
    exact absurd (@not_held df config earlier hnot) (by simp [hheld])
  refine ⟨⟨earlier, e, later, hpast, hcall, hinjected⟩, hguard, ?_⟩
  intro hstep statement hmem hverb
  obtain ⟨verb, hrejected⟩ := DdlGuard.rejected_of_statement hstep hmem hverb
  cases hguard.symm.trans hrejected

/-- **What becomes of a query**, wherever it stands in whatever use of a new shell. It is refused
without a bundle, then by the guard, and is otherwise answered from what reached the session so
far; and of queries only permitted ones ever did. -/
theorem query_gated (hnew : K04DEngine.newWithConfig df config = .ok engine)
    {past later : List (Exchange Reply)} {moment : Nat} {sql : String}
    {batches : Except EngineError (List RecordBatch)}
    (h : (shell df).transcript program engine =
      past ++ ⟨⟨moment, .query sql⟩, batches⟩ :: later) :
    (¬ Injected past → batches = .error .noContractBundle) ∧
    (Injected past → batches = match DdlGuard.rejectUnsafeDdl sql with
      | .error e => .error e
      | .ok _ => (K04DEngine.execute df moment sql
          ((sqlSession df).after (reached df config past) df.new)).1.mapError .dataFusion) ∧
    ∀ moment' sql', ⟨moment', .run sql'⟩ ∈ reached df config past → Permitted past moment' sql' := by
  rw [transcript_abreast (abreast_new hnew)] at h
  have hanswer := Gate.exchange_before h
  refine ⟨?_, ?_, fun moment' sql' => permitted_of_reached⟩
  · intro hnot
    exact hanswer.trans (Gate.answer_turnedAway (admitQuery_unheld (not_held hnot)))
  · intro hinjected
    cases hguard : DdlGuard.rejectUnsafeDdl sql with
    | error e =>
      exact hanswer.trans (Gate.answer_turnedAway (admitQuery_error (held hinjected) hguard))
    | ok _ =>
      have hadmit : (shellGate df config).screen ⟨moment, .query sql⟩
          ((shellGate df config).after past none) = .passed ⟨moment, .run sql⟩
            fun batches => batches.mapError .dataFusion := admitQuery_ok (held hinjected) hguard
      exact hanswer.trans (Gate.answer_passed hadmit)

/-- As many rows, of no column. -/
def rowsOnly (count : Nat) : RecordBatch := ⟨[], [], count, .nil⟩

/-- A session that keeps the statements it was given and answers with a row for each, and no
daemon. -/
def loggedSession : DataFusion where
  Ctx := List String
  DataFrame := Unit
  Table := Unit
  Dataset := Unit
  new := []
  sql _ text ctx := (.ok (), ctx ++ [text])
  collect _ _ ctx := (.ok [rowsOnly ctx.length], ctx)
  registerTable _ _ _ ctx := (.ok (), ctx)
  registerParquet _ _ _ ctx := (.ok (), ctx)
  memTable _ _ := .ok ()
  parseUrl _ := .ok ()
  openWithParams _ _ _ := .ok ()
  toArrow _ := .ok []
  lanceTable _ _ := ()
  outside _ := ⟨.just "{}" .null (by decide), fun _ => "", fun _ => .ok (), fun _ => .ok ⟨[], ""⟩⟩
  values := ⟨fun _ => none, fun _ => ""⟩

def plainConfig : InitConfig :=
  ⟨"acme", "unix:///run/griot/t04.sock", "unix:///run/griot/t05.sock", 10, "/run/griot/t04.sock"⟩

/-- A bundle that is for another tenant. -/
def otherBundle : ContractBundleHandle := ⟨[], "c-1", "globex"⟩

/-- A query, a bundle, and the query twice. -/
def queryAround : Dialogue Reply Unit :=
  .ask ⟨0, .query "SELECT 1"⟩ fun _ => .ask ⟨1, .injectContractBundle otherBundle⟩ fun _ =>
    .ask ⟨2, .query "SELECT 1"⟩ fun _ => .ask ⟨3, .query "SELECT 1"⟩ fun _ => .done ()

def plainShell : K04DEngine loggedSession := ⟨⟨plainConfig, none⟩, none⟩

theorem plainShell_new : K04DEngine.newWithConfig loggedSession plainConfig = .ok plainShell := rfl

/-- What happens before the last query. -/
def refusedOnce : List (Exchange Reply) :=
  [⟨⟨0, .query "SELECT 1"⟩, .error .noContractBundle⟩,
    ⟨⟨1, .injectContractBundle otherBundle⟩, ()⟩, ⟨⟨2, .query "SELECT 1"⟩, .ok [rowsOnly 1]⟩]

theorem queryAround_transcript : (shell loggedSession).transcript queryAround plainShell =
    refusedOnce ++ ⟨⟨3, .query "SELECT 1"⟩, .ok [rowsOnly 2]⟩ :: [] := rfl

/-- The second time it is run. -/
theorem query_gated_around : Permitted refusedOnce 2 "SELECT 1" := by
  obtain ⟨-, -, hreached⟩ := query_gated plainShell_new queryAround_transcript
  exact hreached 2 "SELECT 1" (List.mem_singleton_self _)

/-! ### What makes no difference -/

/-- Two shells with one socket, both with a bundle or both without, and one session. -/
structure K04DEngine.Alike (engine engine' : K04DEngine df) : Prop where
  socket : engine.config.storagedSocket = engine'.config.storagedSocket
  bundle : engine.contractBundle.isSome = engine'.contractBundle.isSome
  ctx : engine.ensureCtx = engine'.ensureCtx

/-- A call that does not ask for what the shell was given. -/
def Call.Unasking (call : Call) : Prop := call.method ≠ .tenantId ∧ call.method ≠ .contractBundle

theorem K04DEngine.reply_alike {call : Call} (hcall : call.Unasking) {engine engine' : K04DEngine df}
    (h : engine.Alike engine') :
    ((shell df).reply call engine).1 = ((shell df).reply call engine').1 ∧
      ((shell df).reply call engine).2.Alike ((shell df).reply call engine').2 := by
  obtain ⟨hsocket, hbundle, hctx⟩ := h
  obtain ⟨moment, method⟩ := call
  cases method with
  | tenantId => exact absurd rfl hcall.1
  | contractBundle => exact absurd rfl hcall.2
  | hasContractBundle => exact ⟨hbundle, hsocket, hbundle, hctx⟩
  | injectContractBundle bundle => exact ⟨rfl, hsocket, rfl, hctx⟩
  | query sql =>
    have hnone : engine.contractBundle.isNone = engine'.contractBundle.isNone := by
      rw [← Option.not_isSome, hbundle, Option.not_isSome]
    simp only [shell, K04DEngine.reply, K04DEngine.query, hnone, hctx]
    split
    · exact ⟨rfl, hsocket, hbundle, hctx⟩
    · split
      · exact ⟨rfl, hsocket, hbundle, hctx⟩
      · exact ⟨rfl, hsocket, hbundle, rfl⟩
  | registerMemoryTable name schema partitions =>
    simp only [shell, K04DEngine.reply, K04DEngine.registerMemoryTable, hctx]
    split <;> exact ⟨rfl, hsocket, hbundle, rfl⟩
  | registerParquetTable name path =>
    simp only [shell, K04DEngine.reply, K04DEngine.registerParquetTable, hctx]
    exact ⟨rfl, hsocket, hbundle, rfl⟩
  | registerLanceTable name assetId tenantId principalJwt =>
    simp only [shell, K04DEngine.reply, K04DEngine.registerLanceTable, hctx, hsocket]
    split <;> exact ⟨rfl, hsocket, hbundle, rfl⟩

/-- **What the shell does not look at**: which tenant it serves and which the bundle is for, what
the bundle says, how many rows may come back, and its other endpoints. -/
theorem shell_indifferent {engine engine' : K04DEngine df} (h : engine.Alike engine')
    (program : Dialogue Reply ρ)
    (hasked : ∀ e ∈ (shell df).transcript program engine, e.question.Unasking) :
    (shell df).run program engine = (shell df).run program engine' ∧
      (shell df).transcript program engine = (shell df).transcript program engine' :=
  Server.run_unwinds (fun _ _ _ hcall halike => K04DEngine.reply_alike hcall halike) program h hasked

/-- The same with a bundle of the tenant, a limit of one row, and another tenant. -/
theorem shell_indifferent_around :
    (shell loggedSession).transcript queryAround ⟨⟨plainConfig, some otherBundle⟩, none⟩ =
      (shell loggedSession).transcript queryAround
        ⟨⟨{plainConfig with tenantId := "initech", maxResultRows := 1}, some ⟨[], "c-2", "acme"⟩⟩,
          none⟩ := by
  refine (shell_indifferent ⟨rfl, rfl, rfl⟩ queryAround ?_).2
  have htranscript : (shell loggedSession).transcript queryAround
      ⟨⟨plainConfig, some otherBundle⟩, none⟩ =
        [⟨⟨0, .query "SELECT 1"⟩, .ok [rowsOnly 1]⟩,
          ⟨⟨1, .injectContractBundle otherBundle⟩, ()⟩,
          ⟨⟨2, .query "SELECT 1"⟩, .ok [rowsOnly 2]⟩,
          ⟨⟨3, .query "SELECT 1"⟩, .ok [rowsOnly 3]⟩] := rfl
  rw [htranscript]
  simp [Call.Unasking]

end Griot
