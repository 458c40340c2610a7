import Griot.Pool.Manager

/-! Refreshes and the shared cache.

A refresh sweeps the tenant's entries out of the cache, and knows nothing of the workers
that are about to put one in. Next to a run, count the refreshes of every tenant, and
keep for what a worker is computing, and for every cache entry, how many of its tenant's
refreshes came before the lookup or the engine execution behind it (`Epochs`). The cache is
fresh when it never returns a result that a refresh has overtaken (`Fresh`).

It stays fresh through a run exactly when no worker stores such a result
(`fresh_iff`); nothing in the code keeps a worker from it (`refresh_overtaken`). -/
namespace Griot.Pool

open Lib

structure Epochs (n : Nat) where
  /-- Refreshes of a tenant so far. -/
  refreshes : String → Nat
  /-- Of these, those before the lookup or the execution that a worker is at. -/
  began : Fin n → Nat
  /-- The same for the entry of a key. -/
  origin : CacheKey → Nat

variable {n : Nat} (setup : Setup)

def Setup.key (task : QueryTask) : CacheKey := .new setup.sha256 task.tenantId task.sql

namespace Epochs

def start : Epochs n := ⟨fun _ => 0, fun _ => 0, fun _ => 0⟩

def refresh (tenantId : String) (g : Epochs n) : Epochs n :=
  {g with refreshes := Function.update g.refreshes tenantId (g.refreshes tenantId + 1)}

def begin (w : Fin n) (task : QueryTask) (g : Epochs n) : Epochs n :=
  {g with began := Function.update g.began w (g.refreshes task.tenantId)}

def store (w : Fin n) (key : CacheKey) (g : Epochs n) : Epochs n :=
  {g with origin := Function.update g.origin key (g.began w)}

/-- A lookup begins when the cache is asked, an execution when the engine is. -/
def enter (action : Action n) (s : State n) (g : Epochs n) : Epochs n :=
  match action with
  | .refresh _ tenantId => g.refresh tenantId
  | .worker w _ => match (s.workers w).phase with
    | .busy task .counted | .busy task .missed => g.begin w task
    | .busy task (.settled (.ok _)) => g.store w (setup.key task)
    | _ => g
  | _ => g

theorem enter_worker_refreshes (w : Fin n) (choice : Choice) (s : State n) (g : Epochs n) :
    (g.enter setup (.worker w choice) s).refreshes = g.refreshes := by
  simp only [enter]
  split <;> rfl

theorem enter_worker_origin {w : Fin n} (choice : Choice) {s : State n} (g : Epochs n)
    (h : ¬ ∃ task ok, (s.workers w).phase = .busy task (.settled (.ok ok))) :
    (g.enter setup (.worker w choice) s).origin = g.origin := by
  simp only [enter]
  split
  · rfl
  · rfl
  · exact absurd ⟨_, _, ‹_›⟩ h
  · rfl

end Epochs

/-- The pool, with its epochs. -/
def watched (n : Nat) : Machine (Action n) (State n × Epochs n) :=
  (pool setup n).observed .start (Epochs.enter setup)

/-- The cache returns nothing, now or later, that began before a refresh of its tenant. -/
def Fresh (x : State n × Epochs n) : Prop :=
  ∀ now tenantId sql v, x.1.clock ≤ now →
    (x.1.cache.get setup.sha256 now tenantId sql).1 = some v →
    x.2.refreshes tenantId ≤ x.2.origin (.new setup.sha256 tenantId sql)

/-- Not a worker about to store a result that a refresh has overtaken. -/
def NotOvertaken (x : State n × Epochs n) : Action n → Prop
  | .worker w _ => ∀ task ok, (x.1.workers w).phase = .busy task (.settled (.ok ok)) →
    x.2.refreshes task.tenantId ≤ x.2.began w
  | _ => True

variable {setup}

/-! ### What the cache hands out after one step -/

/-- The next turn of some worker puts a result into the cache. -/
def State.Stores (s : State n) : Action n → Prop
  | .worker w _ => ∃ task ok, (s.workers w).phase = .busy task (.settled (.ok ok))
  | _ => False

/-- A step that stores nothing leaves nothing new to hand out. -/
theorem State.get_of_step {action : Action n} {s s' : State n}
    (h : s.step setup action = some s') (hquiet : ¬ s.Stores action) {now : Nat}
    {tenantId sql : String} {v : List RecordBatch × String}
    (hget : (s'.cache.get setup.sha256 now tenantId sql).1 = some v) :
    (s.cache.get setup.sha256 now tenantId sql).1 = some v := by
  cases action with
  | worker w choice =>
    obtain ⟨worker, effect, hturn, rfl⟩ := State.step_worker h
    cases effect with
    | quiet | answers | loses => exact hget
    | looksUp task =>
      exact QueryCache.get_mono (s.cache.get_config _ _ _ _) (QueryCache.forgets_get _ _ _ _ _ _) hget
    | stores task ok => exact absurd ⟨task, ok, hturn.phase_of_stores⟩ hquiet
  | refresh bundle t =>
    obtain rfl := State.step_refresh h
    apply QueryCache.get_mono (s.cache.invalidateTenant_config t) _ hget
    intro entry hentry
    have hpeek := (s.cache.peek_invalidateTenant t (.new setup.sha256 tenantId sql)).symm.trans hentry
    split at hpeek
    · cases hpeek
    · exact hpeek
  | tick | submit | select | send | shutdown | drain | drop =>
    rwa [(State.step_frame h (by simp)).cache (by simp)] at hget

theorem State.config_of_step {action : Action n} {s s' : State n}
    (h : s.step setup action = some s') : s'.cache.config = s.cache.config := by
  cases action with
  | worker w choice =>
    obtain ⟨worker, effect, -, rfl⟩ := State.step_worker h
    cases effect with
    | quiet | answers | loses => rfl
    | looksUp task => exact s.cache.get_config _ _ _ _
    | stores task ok => exact QueryCache.put_config _ _ _ _ _ _ _ _
  | refresh bundle t =>
    obtain rfl := State.step_refresh h
    exact s.cache.invalidateTenant_config t
  | tick | submit | select | send | shutdown | drain | drop =>
    rw [(State.step_frame h (by simp)).cache (by simp)]

theorem State.clock_of_step {action : Action n} {s s' : State n}
    (h : s.step setup action = some s') : s.clock ≤ s'.clock := by
  cases action with
  | worker w choice =>
    obtain ⟨worker, effect, -, rfl⟩ := State.step_worker h
    cases effect <;> exact le_rfl
  | tick | submit | select | send | refresh | shutdown | drain | drop =>
    exact (State.step_frame h (by simp)).clock

/-! ### One step -/

/-- Freshness survives a step that stores nothing and refreshes nobody. -/
theorem Fresh.of_step {action : Action n} {s s' : State n} {g g' : Epochs n}
    (h : Fresh setup (s, g)) (hs : s.step setup action = some s') (hquiet : ¬ s.Stores action)
    (hrefreshes : g'.refreshes = g.refreshes) (horigin : g'.origin = g.origin) :
    Fresh setup (s', g') := by
  intro now tenantId sql v hnow hget
  rw [hrefreshes, horigin]
  exact h now tenantId sql v ((State.clock_of_step hs).trans hnow)
    (State.get_of_step hs hquiet hget)

/-- The sweep of a refresh leaves nothing of its tenant to return. -/
theorem Fresh.refresh {s : State n} {g : Epochs n} (h : Fresh setup (s, g))
    (bundle : ContractBundleHandle) (tenantId : String) :
    Fresh setup (s.refreshContractBundle bundle tenantId, g.refresh tenantId) := by
  intro now t sql v hnow hget
  have hpeek : (s.cache.invalidateTenant tenantId).lru.peek (.new setup.sha256 t sql) =
      if t = tenantId then none else s.cache.lru.peek (.new setup.sha256 t sql) :=
    s.cache.peek_invalidateTenant tenantId _
  by_cases ht : t = tenantId
  · obtain ⟨entry, hentry, -⟩ := QueryCache.get_some hget
    rw [if_pos ht] at hpeek
    cases hpeek.symm.trans hentry
  · rw [if_neg ht] at hpeek
    show Function.update g.refreshes tenantId _ t ≤ _
    rw [Function.update_of_ne ht]
    apply h now t sql v hnow
    exact QueryCache.get_mono (s.cache.invalidateTenant_config tenantId)
      (fun _ hentry => hpeek.symm.trans hentry) hget

/-- A stored result can be read back at once, so the cache is fresh after the store
only if the result is. -/
theorem fresh_store {s : State n} {g : Epochs n} (h : Fresh setup (s, g)) (w : Fin n)
    (worker : Worker) (task : QueryTask) (ok : QueryResultOk) :
    Fresh setup ((s.setWorker w worker).apply setup (.stores task ok),
      g.store w (setup.key task)) ↔ g.refreshes task.tenantId ≤ g.began w := by
  constructor
  · intro hfresh
    have hget : (((s.setWorker w worker).apply setup (.stores task ok)).cache.get setup.sha256
        s.clock task.tenantId task.sql).1 = some (ok.batches, ok.attestationJws) := by
      apply QueryCache.get_of_peek (QueryCache.peek_put_self _ _ _ _ _ _ _ _)
      apply decide_eq_false
      show ¬ _ < s.clock - s.clock
      omega
    have hle : g.refreshes task.tenantId ≤
        Function.update g.origin (setup.key task) (g.began w) (setup.key task) :=
      hfresh s.clock task.tenantId task.sql _ le_rfl hget
    rwa [Function.update_self] at hle
  · intro hle now t sql v hnow hget
    show g.refreshes t ≤ Function.update g.origin (setup.key task) (g.began w) _
    by_cases hk : CacheKey.new setup.sha256 t sql = setup.key task
    · rw [hk, Function.update_self]
      obtain ⟨rfl, -⟩ := CacheKey.mk.inj hk
      exact hle
    · rw [Function.update_of_ne hk]
      apply h now t sql v hnow
      exact QueryCache.get_mono (QueryCache.put_config _ _ _ _ _ _ _ _)
        (fun _ => QueryCache.peek_put_of_ne hk) hget

/-- **One step takes freshness away exactly when it stores a result that a refresh has
overtaken.** -/
theorem fresh_step {action : Action n} {x x' : State n × Epochs n} (h : Fresh setup x)
    (hstep : (watched setup n).step action x = some x') :
    Fresh setup x' ↔ NotOvertaken x action := by
  obtain ⟨s, g⟩ := x
  obtain ⟨s', g'⟩ := x'
  obtain ⟨hs, hg⟩ := Machine.observed_step hstep
  change s.step setup action = some s' at hs
  change g' = g.enter setup action s at hg
  subst hg
  cases action with
  | refresh bundle tenantId =>
    obtain rfl := State.step_refresh hs
    exact iff_of_true (h.refresh bundle tenantId) trivial
  | worker w choice =>
    obtain ⟨worker, effect, hturn, rfl⟩ := State.step_worker hs
    by_cases hstores : s.Stores (.worker w choice)
    · obtain ⟨task, ok, hphase⟩ := hstores
      obtain rfl := hturn.effect_of_settled hphase
      have henter : Epochs.enter setup (.worker w choice) s g = g.store w (setup.key task) := by
        simp only [Epochs.enter, hphase]
      rw [henter, fresh_store h]
      constructor
      · intro hle task' ok' hphase'
        obtain ⟨rfl, -⟩ := Phase.busy.inj (hphase.symm.trans hphase')
        exact hle
      · intro hnot
        exact hnot task ok hphase
    · apply iff_of_true
      · exact h.of_step hs hstores (Epochs.enter_worker_refreshes setup w choice s g)
          (Epochs.enter_worker_origin setup choice g hstores)
      · intro task ok hphase
        exact absurd ⟨task, ok, hphase⟩ hstores
  | tick | submit | select | send | shutdown | drain | drop =>
    exact iff_of_true (h.of_step hs id rfl rfl) trivial

/-! ### Runs -/

theorem fresh_start : Fresh setup (watched setup n).start := fun _ _ _ _ _ _ => Nat.zero_le _

/-- **No stale result survives a refresh, in exactly the runs in which no worker stores a
result that a refresh has overtaken.** -/
theorem fresh_iff {actions : List (Action n)} {s : State n}
    (hrun : (pool setup n).Runs actions s) :
    (watched setup n).Along (Fresh setup) actions (watched setup n).start ↔
      (watched setup n).Throughout NotOvertaken actions (watched setup n).start := by
  obtain ⟨g, hexec⟩ := Machine.observed_exec.1 hrun
  exact Machine.along_iff (I := fun _ => True) (fun _ _ _ _ _ => trivial)
    (fun _ _ _ _ => fresh_step) trivial fresh_start hexec

/-! ### A refresh that comes too early -/

/-- A turn of the only worker. -/
def turn (choice : Choice) : Action 1 := .worker (Fin.last 0) choice

/-- The worker starts its engine, receives the task, misses in the cache and starts the query; the
tenant's contract is refreshed; the query ends and its result is stored. -/
def overtakenRun : List (Action 1) :=
  admitDemo ++ [.send (Fin.last 0), turn .go, turn .go, turn .go, turn .go, turn .go, turn .go,
    .refresh demoBundle "acme", turn (.outcome (.ok [])), turn .go, turn .go]

theorem fresh_iff_overtaken :
    (watched demoSetup 1).Along (Fresh demoSetup) overtakenRun (watched demoSetup 1).start ↔
      (watched demoSetup 1).Throughout NotOvertaken overtakenRun (watched demoSetup 1).start := by
  have hruns : ∃ s, (pool demoSetup 1).Runs overtakenRun s := ⟨_, rfl⟩
  obtain ⟨s, hrun⟩ := hruns
  exact fresh_iff hrun

/-- What the cache returns for the task afterwards, with the refreshes of its tenant and those
that came before the execution. -/
theorem overtaken_reading :
    ((watched demoSetup 1).exec overtakenRun (watched demoSetup 1).start).map (fun x =>
      ((x.1.cache.get demoSetup.sha256 x.1.clock "acme" "SELECT 1").1, x.2.refreshes "acme",
        x.2.origin (demoSetup.key demoTask))) =
      some (some ([], "placeholder.c-1.jws"), 1, 0) := rfl

/-- **The cache returns a result whose execution began before the last refresh.** -/
theorem refresh_overtaken :
    ∃ s, (pool demoSetup 1).Runs overtakenRun s ∧
      ¬ (watched demoSetup 1).Along (Fresh demoSetup) overtakenRun (watched demoSetup 1).start := by
  obtain ⟨⟨s, g⟩, hexec, hreading⟩ := Option.map_eq_some_iff.1 overtaken_reading
  obtain ⟨hget, hepochs⟩ := Prod.mk.inj hreading
  obtain ⟨hrefreshes, horigin⟩ := Prod.mk.inj hepochs
  refine ⟨s, Machine.observed_exec.2 ⟨g, hexec⟩, ?_⟩
  intro hfresh
  have hle : g.refreshes "acme" ≤ g.origin (demoSetup.key demoTask) :=
    hfresh.last hexec s.clock "acme" "SELECT 1" _ le_rfl hget
  have hrefreshes' : g.refreshes "acme" = 1 := hrefreshes
  have horigin' : g.origin (demoSetup.key demoTask) = 0 := horigin
  omega

end Griot.Pool
