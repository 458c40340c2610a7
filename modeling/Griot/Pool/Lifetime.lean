import Griot.Pool.Refresh

/-! The age of cached results.

The time to live counts from the moment an entry was put into the cache. Next to a
run, keep for what a worker is at, and for every cache entry, when the engine execution behind it
ended, and for every reply that came out of the cache when it was looked up (`Ages`).
Workers put back what they found, so an entry can be younger than its data. The cache never
holds anything that it would hand out past its time to live exactly when every result is stored
the moment its execution ends, and never hands out anything past its time to live exactly when
nothing is looked up between the end of its own life and the end of its entry's (`timely_iff`). -/
namespace Griot.Pool

open Lib

structure Ages (n : Nat) where
  /-- When the execution behind the result that a worker is at ended. -/
  ended : Fin n → Nat
  /-- The same for the entry of a key. -/
  origin : CacheKey → Nat
  /-- When the result that a worker is at was looked up, if it was found in the cache. -/
  found : Fin n → Option Nat
  /-- The replies made from the cache: when each was looked up, and when its execution ended. -/
  served : List (Nat × Nat)

variable {n : Nat} (setup : Setup)

namespace Ages

/-- What the cache holds before the pool starts counts as computed when it was inserted. -/
def start : Ages n where
  ended := fun _ => 0
  origin := fun key => ((setup.cache.lru.peek key).map CacheEntry.insertedAt).getD 0
  found := fun _ => none
  served := []

def find (w : Fin n) (now : Nat) (key : CacheKey) (g : Ages n) : Ages n :=
  { g with
    ended := Function.update g.ended w (g.origin key)
    found := Function.update g.found w (some now) }

def finish (w : Fin n) (now : Nat) (g : Ages n) : Ages n :=
  {g with ended := Function.update g.ended w now, found := Function.update g.found w none}

def store (w : Fin n) (key : CacheKey) (g : Ages n) : Ages n :=
  {g with origin := Function.update g.origin key (g.ended w)}

def serve (w : Fin n) (g : Ages n) : Ages n :=
  match g.found w with
  | some lookup => {g with served := (lookup, g.ended w) :: g.served}
  | none => g

def enter (action : Action n) (s : State n) (g : Ages n) : Ages n :=
  match action with
  | .worker w _ => match (s.workers w).phase with
    | .busy task .counted =>
      if ((s.view setup).lookup task).isSome then g.find w s.clock (setup.key task) else g
    | .busy _ .executing => g.finish w s.clock
    | .busy task (.settled (.ok _)) => g.store w (setup.key task)
    | .busy _ (.cached (.ok _)) => g.serve w
    | _ => g
  | _ => g

end Ages

/-- The pool, with the ages of its results. -/
def aged (n : Nat) : Machine (Action n) (State n × Ages n) :=
  (pool setup n).observed (.start setup) (Ages.enter setup)

/-- The cache hands out nothing, now or later, that is past its time to live. -/
def NeverStale (x : State n × Ages n) : Prop :=
  ∀ now tenantId sql v, x.1.clock ≤ now →
    (x.1.cache.get setup.sha256 now tenantId sql).1 = some v →
    now ≤ x.2.origin (.new setup.sha256 tenantId sql) + setup.cache.config.ttl

/-- Every reply made from the cache was looked up within the time to live of its result. -/
def ServedInTime (x : State n × Ages n) : Prop :=
  ∀ reply ∈ x.2.served, reply.1 ≤ reply.2 + setup.cache.config.ttl

/-- Not a worker about to store a result whose execution ended before. -/
def Prompt (x : State n × Ages n) : Action n → Prop
  | .worker w _ => ∀ task ok, (x.1.workers w).phase = .busy task (.settled (.ok ok)) →
    x.1.clock ≤ x.2.ended w
  | _ => True

/-- Not a worker about to look up a result whose time to live is over in an entry whose is not. -/
def StillLive (x : State n × Ages n) : Action n → Prop
  | .worker w _ => ∀ task entry, (x.1.workers w).phase = .busy task .counted →
    x.1.cache.lru.peek (setup.key task) = some entry →
    x.1.cache.expired x.1.clock entry = false →
    x.1.clock ≤ x.2.origin (setup.key task) + setup.cache.config.ttl
  | _ => True

variable {setup}

theorem Ages.enter_origin {action : Action n} {s : State n} (g : Ages n)
    (h : ¬ s.Stores action) : (g.enter setup action s).origin = g.origin := by
  unfold Ages.enter
  split
  · split
    · split <;> rfl
    · rfl
    · exact absurd ⟨_, _, ‹_›⟩ h
    · unfold Ages.serve
      split <;> rfl
    · rfl
  · rfl

/-! ### One step -/

/-- A stored result can be read back until its time to live is over, so it must not be older
than its entry. -/
theorem neverStale_store {s : State n} {g : Ages n} (hconfig : s.cache.config = setup.cache.config)
    (h : NeverStale setup (s, g)) (w : Fin n) (worker : Worker) (task : QueryTask)
    (ok : QueryResultOk) :
    NeverStale setup ((s.setWorker w worker).apply setup (.stores task ok),
      g.store w (setup.key task)) ↔ s.clock ≤ g.ended w := by
  have hsame : ((s.setWorker w worker).apply setup (.stores task ok)).cache.config =
      setup.cache.config := (QueryCache.put_config _ _ _ _ _ _ _ _).trans hconfig
  constructor
  · intro hstale
    have hget : (((s.setWorker w worker).apply setup (.stores task ok)).cache.get setup.sha256
        (s.clock + setup.cache.config.ttl) task.tenantId task.sql).1 =
          some (ok.batches, ok.attestationJws) := by
      apply QueryCache.get_of_peek (QueryCache.peek_put_self _ _ _ _ _ _ _ _)
      apply decide_eq_false
      show ¬ ((s.setWorker w worker).apply setup (.stores task ok)).cache.config.ttl <
        s.clock + setup.cache.config.ttl - s.clock
      rw [hsame]
      omega
    have hle : s.clock + setup.cache.config.ttl ≤
        Function.update g.origin (setup.key task) (g.ended w) (setup.key task) +
          setup.cache.config.ttl :=
      hstale _ task.tenantId task.sql _ (Nat.le_add_right _ _) hget
    rw [Function.update_self] at hle
    omega
  · intro hle now t sql v hnow hget
    show now ≤ Function.update g.origin (setup.key task) (g.ended w) _ + _
    by_cases hk : CacheKey.new setup.sha256 t sql = setup.key task
    · rw [hk, Function.update_self]
      obtain ⟨entry, hentry, hlive, -⟩ := QueryCache.get_some hget
      rw [hk] at hentry
      obtain rfl := Option.some.inj ((QueryCache.peek_put_self _ _ _ _ _ _ _ _).symm.trans hentry)
      have hage : ¬ ((s.setWorker w worker).apply setup (.stores task ok)).cache.config.ttl <
          now - s.clock := of_decide_eq_false hlive
      rw [hsame] at hage
      omega
    · rw [Function.update_of_ne hk]
      apply h now t sql v hnow
      exact QueryCache.get_mono (QueryCache.put_config _ _ _ _ _ _ _ _)
        (fun _ => QueryCache.peek_put_of_ne hk) hget

/-- **One step lets the cache go stale exactly when it stores a result whose execution ended
before.** -/
theorem neverStale_step {action : Action n} {x x' : State n × Ages n}
    (hconfig : x.1.cache.config = setup.cache.config) (h : NeverStale setup x)
    (hstep : (aged setup n).step action x = some x') :
    NeverStale setup x' ↔ Prompt x action := by
  obtain ⟨s, g⟩ := x
  obtain ⟨s', g'⟩ := x'
  obtain ⟨hs, hg⟩ := Machine.observed_step hstep
  change s.step setup action = some s' at hs
  change g' = g.enter setup action s at hg
  subst hg
  by_cases hstores : s.Stores action
  · cases action with
    | worker w choice =>
      obtain ⟨task, ok, hphase⟩ := hstores
      obtain ⟨worker, effect, hturn, rfl⟩ := State.step_worker hs
      obtain rfl := hturn.effect_of_settled hphase
      have henter : Ages.enter setup (.worker w choice) s g = g.store w (setup.key task) := by
        simp only [Ages.enter, hphase]
      rw [henter, neverStale_store hconfig h]
      constructor
      · intro hle task' ok' _
        exact hle
      · intro hprompt
        exact hprompt task ok hphase
    | _ => exact hstores.elim
  · apply iff_of_true
    · intro now t sql v hnow hget
      show now ≤ (g.enter setup action s).origin _ + _
      rw [g.enter_origin hstores]
      exact h now t sql v ((State.clock_of_step hs).trans hnow) (State.get_of_step hs hstores hget)
    · cases action with
      | worker w choice =>
        intro task ok hphase
        exact absurd ⟨task, ok, hphase⟩ hstores
      | _ => trivial

/-- What a worker found, and what was replied from the cache, is within its time to live. -/
structure FoundInTime (setup : Setup) (g : Ages n) : Prop where
  found : ∀ w lookup, g.found w = some lookup → lookup ≤ g.ended w + setup.cache.config.ttl
  served : ∀ reply ∈ g.served, reply.1 ≤ reply.2 + setup.cache.config.ttl

theorem FoundInTime.find_iff {g : Ages n} (h : FoundInTime setup g) (w : Fin n) (now : Nat)
    (key : CacheKey) :
    FoundInTime setup (g.find w now key) ↔ now ≤ g.origin key + setup.cache.config.ttl := by
  constructor
  · intro hfind
    have hself : (g.find w now key).found w = some now := Function.update_self ..
    have hle : now ≤ Function.update g.ended w (g.origin key) w + setup.cache.config.ttl :=
      hfind.found w now hself
    rwa [Function.update_self] at hle
  · intro hle
    refine ⟨?_, h.served⟩
    intro w' lookup hlookup
    change Function.update g.found w _ w' = _ at hlookup
    show lookup ≤ Function.update g.ended w _ w' + _
    by_cases hw : w' = w
    · subst hw
      rw [Function.update_self] at hlookup ⊢
      obtain rfl := Option.some.inj hlookup
      exact hle
    · rw [Function.update_of_ne hw] at hlookup ⊢
      exact h.found w' lookup hlookup

theorem FoundInTime.finish {g : Ages n} (h : FoundInTime setup g) (w : Fin n) (now : Nat) :
    FoundInTime setup (g.finish w now) := by
  refine ⟨?_, h.served⟩
  intro w' lookup hlookup
  change Function.update g.found w none w' = _ at hlookup
  show lookup ≤ Function.update g.ended w now w' + _
  by_cases hw : w' = w
  · subst hw
    rw [Function.update_self] at hlookup
    cases hlookup
  · rw [Function.update_of_ne hw] at hlookup ⊢
    exact h.found w' lookup hlookup

theorem FoundInTime.serve {g : Ages n} (h : FoundInTime setup g) (w : Fin n) :
    FoundInTime setup (g.serve w) := by
  unfold Ages.serve
  split
  · rename_i lookup hlookup
    refine ⟨h.found, ?_⟩
    intro reply hreply
    obtain rfl | hreply := List.mem_cons.1 hreply
    · exact h.found w lookup hlookup
    · exact h.served reply hreply
  · exact h

/-- **One step hands out what is past its time to live exactly when it looks up such a result in
an entry that is not.** -/
theorem FoundInTime.enter_iff {s : State n} {g : Ages n} (h : FoundInTime setup g)
    (action : Action n) :
    FoundInTime setup (g.enter setup action s) ↔ StillLive setup (s, g) action := by
  cases action with
  | worker w choice =>
    simp only [Ages.enter]
    by_cases hcounted : ∃ task, (s.workers w).phase = .busy task .counted
    · obtain ⟨task, hphase⟩ := hcounted
      have hiff : StillLive setup (s, g) (.worker w choice) ↔ ((s.view setup).lookup task).isSome →
          s.clock ≤ g.origin (setup.key task) + setup.cache.config.ttl := by
        constructor
        · intro hlive hfound
          obtain ⟨entry, hentry, hexpired⟩ := QueryCache.get_isSome_iff.mp hfound
          exact hlive task entry hphase hentry hexpired
        · intro hle task' entry hphase' hentry hexpired
          obtain ⟨rfl, -⟩ := Phase.busy.inj (hphase.symm.trans hphase')
          exact hle (QueryCache.get_isSome_iff.mpr ⟨entry, hentry, hexpired⟩)
      simp only [hphase]
      rw [hiff]
      split
      · rw [h.find_iff, forall_prop_of_true ‹_›]
      · exact iff_of_true h (fun hfound => absurd hfound ‹_›)
    · apply iff_of_true
      · split
        · exact absurd ⟨_, ‹_›⟩ hcounted
        · exact h.finish _ _
        · exact ⟨h.found, h.served⟩
        · exact h.serve _
        · exact h
      · intro task entry hphase
        exact absurd ⟨task, hphase⟩ hcounted
  | _ => exact iff_of_true h trivial

/-- What is not stale is not past its time to live when it is looked up. -/
theorem NeverStale.stillLive {x : State n × Ages n} (h : NeverStale setup x) (action : Action n) :
    StillLive setup x action := by
  cases action with
  | worker w choice =>
    intro task entry _ hentry hexpired
    exact h x.1.clock task.tenantId task.sql _ le_rfl (QueryCache.get_of_peek hentry hexpired)
  | _ => trivial

/-! ### Runs -/

theorem neverStale_start : NeverStale setup (aged setup n).start := by
  intro now t sql v _ hget
  obtain ⟨entry, hentry, hlive, -⟩ := QueryCache.get_some hget
  have hage : ¬ setup.cache.config.ttl < now - entry.insertedAt := of_decide_eq_false hlive
  have horigin : (aged setup n).start.2.origin (.new setup.sha256 t sql) = entry.insertedAt := by
    show ((setup.cache.lru.peek _).map CacheEntry.insertedAt).getD 0 = _
    rw [show setup.cache.lru.peek (.new setup.sha256 t sql) = some entry from hentry]
    rfl
  omega

theorem config_step {action : Action n} {x x' : State n × Ages n}
    (h : x.1.cache.config = setup.cache.config) (hstep : (aged setup n).step action x = some x') :
    x'.1.cache.config = setup.cache.config :=
  (State.config_of_step (Machine.observed_step hstep).1).trans h

theorem foundInTime_start : FoundInTime setup (aged setup n).start.2 := by
  constructor <;> simp [aged, Machine.observed, Ages.start]

theorem foundInTime_step {action : Action n} {x x' : State n × Ages n}
    (h : FoundInTime setup x.2) (hstep : (aged setup n).step action x = some x') :
    FoundInTime setup x'.2 ↔ StillLive setup x action := by
  rw [(Machine.observed_step hstep).2]
  exact h.enter_iff action

/-- **The cache never goes stale in exactly the runs whose workers store every result the
moment its execution ended. It hands out nothing past its time to live in exactly the runs that
look nothing up between the end of its life and the end of its entry's; these are more, and in
them every reply from the cache is in time.** -/
theorem timely_iff {actions : List (Action n)} {s : State n}
    (hrun : (pool setup n).Runs actions s) :
    ((aged setup n).Along (NeverStale setup) actions (aged setup n).start ↔
      (aged setup n).Throughout Prompt actions (aged setup n).start) ∧
    ((aged setup n).Along (fun x => FoundInTime setup x.2) actions (aged setup n).start ↔
      (aged setup n).Throughout (StillLive setup) actions (aged setup n).start) ∧
    ((aged setup n).Throughout Prompt actions (aged setup n).start →
      (aged setup n).Throughout (StillLive setup) actions (aged setup n).start) ∧
    ((aged setup n).Throughout (StillLive setup) actions (aged setup n).start →
      (aged setup n).Along (ServedInTime setup) actions (aged setup n).start) := by
  obtain ⟨g, hexec⟩ := Machine.observed_exec.1 hrun
  have hstale := Machine.along_iff (fun _ _ _ => config_step) (fun _ _ _ => neverStale_step) rfl
    neverStale_start hexec
  have hfound := Machine.along_iff (I := fun _ => True) (fun _ _ _ _ _ => trivial)
    (fun _ _ _ _ => foundInTime_step) trivial foundInTime_start hexec
  refine ⟨hstale, hfound, ?_, ?_⟩
  · intro hprompt
    exact hprompt.imp (fun action _ hnever _ => hnever.stillLive action) (hstale.mpr hprompt)
  · intro hlive
    exact (hfound.mpr hlive).imp fun _ h => h.served

/-! ### Queries and their repetitions

A result can be kept alive by its readers. -/

/-- The task that the next turn asks the cache for. -/
def Phase.asks : Phase → Option QueryTask
  | .busy task .counted => some task
  | _ => none

/-- The task whose result the next turn stores. -/
def Phase.stores : Phase → Option QueryTask
  | .busy task (.settled (.ok _)) => some task
  | _ => none

theorem Phase.asks_iff {phase : Phase} {task : QueryTask} :
    phase.asks = some task ↔ phase = .busy task .counted := by
  unfold asks
  split <;> simp_all

theorem Phase.stores_iff {phase : Phase} {task : QueryTask} :
    phase.stores = some task ↔ ∃ ok, phase = .busy task (.settled (.ok ok)) := by
  unfold stores
  split <;> simp_all

instance : ∀ (x : State n × Ages n) (action : Action n), Decidable (Prompt x action)
  | x, .worker w _ => decidable_of_iff
    (∀ task ∈ (x.1.workers w).phase.stores, x.1.clock ≤ x.2.ended w) (by
      simp only [Prompt, Option.mem_def, Phase.stores_iff, forall_exists_index])
  | _, .tick _ | _, .submit _ | _, .select .. | _, .send _ | _, .refresh .. | _, .shutdown _
  | _, .drain _ | _, .drop => .isTrue trivial

instance : ∀ (x : State n × Ages n) (action : Action n), Decidable (StillLive setup x action)
  | x, .worker w _ => decidable_of_iff
    (∀ task ∈ (x.1.workers w).phase.asks, ∀ entry ∈ x.1.cache.lru.peek (setup.key task),
      x.1.cache.expired x.1.clock entry = false →
        x.1.clock ≤ x.2.origin (setup.key task) + setup.cache.config.ttl) (by
      simp only [StillLive, Option.mem_def, Phase.asks_iff]
      grind)
  | _, .tick _ | _, .submit _ | _, .select .. | _, .send _ | _, .refresh .. | _, .shutdown _
  | _, .drain _ | _, .drop => .isTrue trivial

/-- A query for the one worker, by its reply channel. -/
def ask (call : ReplyId) : List (Action 1) :=
  [.submit {demoTask with reply := call},
    .select call ((State.start demoSetup).readings demoSetup "acme"), .send call]

/-- The worker finds the result in the cache, puts it back and replies. -/
def hit : List (Action 1) :=
  [turn .go, turn .go, turn .go, turn .go, turn .go, turn .go, turn .go]

/-- A query, and the same query again after a pause, twice. -/
def repeated (pause pause' : Nat) : List (Action 1) :=
  turn .go :: ask 0 ++
    [turn .go, turn .go, turn .go, turn .go, turn .go, turn (.outcome (.ok [])), turn .go, turn .go,
      turn .go] ++
    .tick pause :: ask 1 ++ hit ++ .tick pause' :: ask 2 ++ hit

/-- A query, and the same query 40 and 80 seconds later, under a time to live of 60. -/
def keptAlive : List (Action 1) := repeated 40000000000 40000000000

/-- Repeated at once, a query leaves nothing stale. Repeated after 40 and after 55 seconds it is not
stored promptly, and still answered from the cache in time. -/
theorem timely_iff_repeated :
    (aged demoSetup 1).Along (NeverStale demoSetup) (repeated 0 0) (aged demoSetup 1).start ∧
    ¬ (aged demoSetup 1).Throughout Prompt (repeated 40000000000 15000000000)
      (aged demoSetup 1).start ∧
    (aged demoSetup 1).Along (ServedInTime demoSetup) (repeated 40000000000 15000000000)
      (aged demoSetup 1).start ∧
    ((aged demoSetup 1).exec (repeated 40000000000 15000000000) (aged demoSetup 1).start).map
      (fun x => x.2.served) = some [(55000000000, 0), (40000000000, 0)] := by
  have hatOnce : ∃ s, (pool demoSetup 1).Runs (repeated 0 0) s := ⟨_, rfl⟩
  have hlater : ∃ s, (pool demoSetup 1).Runs (repeated 40000000000 15000000000) s := ⟨_, rfl⟩
  obtain ⟨_, hatOnce⟩ := hatOnce
  obtain ⟨_, hlater⟩ := hlater
  have hprompt : (aged demoSetup 1).Throughout Prompt (repeated 0 0) (aged demoSetup 1).start := by
    decide +kernel
  have hlive : (aged demoSetup 1).Throughout (StillLive demoSetup)
      (repeated 40000000000 15000000000) (aged demoSetup 1).start := by
    decide +kernel
  exact ⟨(timely_iff hatOnce).1.mpr hprompt, by decide +kernel, (timely_iff hlater).2.2.2 hlive, rfl⟩

/-- When the replies from the cache were looked up, and when their execution ended. -/
theorem keptAlive_served :
    ((aged demoSetup 1).exec keptAlive (aged demoSetup 1).start).map (fun x => x.2.served) =
      some [(80000000000, 0), (40000000000, 0)] := rfl

/-- **A reply from the cache is 80 seconds old, under a time to live of 60.** -/
theorem kept_alive :
    ¬ ∀ n setup actions s, (pool setup n).Runs actions s →
      (aged setup n).Along (ServedInTime setup) actions (aged setup n).start := by
  intro h
  obtain ⟨⟨s, g⟩, hexec, hserved⟩ := Option.map_eq_some_iff.1 keptAlive_served
  have halong := h 1 demoSetup keptAlive s (Machine.observed_exec.2 ⟨g, hexec⟩)
  have hall := halong.last hexec (80000000000, 0)
  have hserved' : g.served = [(80000000000, 0), (40000000000, 0)] := hserved
  have hle : 80000000000 ≤ 0 + demoSetup.cache.config.ttl := hall (by simp [hserved'])
  exact absurd hle (by decide)

end Griot.Pool
