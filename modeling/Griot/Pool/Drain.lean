import Griot.Pool.Delivery

/-! Shutdown and the tasks that came before it.

A call of `shutdown` returns early when the counters of all workers read zero, one after
another. Next to a run, keep for every call which tasks had been accepted when it was made, and
whether it returned early (`Promises`). It has kept its promise when all of these tasks
are answered (`Drained`): exactly when, at the early return, no worker owns one of them and
none is lost (`drained_iff`). The counters do not say so. A task is counted from after it
is received until before its result is stored and replied, so a counter reads zero with
tasks in the queue and at both ends of the count. -/
namespace Griot.Pool

open Lib Finset

structure Promises where
  /-- The tasks accepted before a call of `shutdown`. -/
  due : Nat → ReplyId → Bool
  /-- The calls that returned before their deadline. -/
  early : Nat → Bool

variable {n : Nat} {setup : Setup}

namespace Promises

def start : Promises := ⟨fun _ _ => false, fun _ => false⟩

def enter (action : Action n) (s : State n) (g : Promises) : Promises :=
  match action with
  | .shutdown call =>
    {g with due := Function.update g.due call (fun r => decide (s.accepted r = 1))}
  | .drain call => match s.shutdowns call with
    | .summing deadline next total =>
      if ¬ next < n ∧ total = 0 ∧ s.clock < deadline then
        {g with early := Function.update g.early call true}
      else g
    | _ => g
  | _ => g

end Promises

/-- The pool, with what its shutdowns promise. -/
def promised (setup : Setup) (n : Nat) : Machine (Action n) (State n × Promises) :=
  (pool setup n).observed .start Promises.enter

/-- A shutdown that returned early left none of its tasks unanswered. -/
def Drained (x : State n × Promises) : Prop :=
  ∀ call, x.2.early call = true → ∀ r, x.2.due call r = true → x.1.answered r = 1

/-- Not an early return with a task that is due still owned by a worker, or lost. -/
def Cleared (x : State n × Promises) : Action n → Prop
  | .drain call => ∀ deadline next total, x.1.shutdowns call = .summing deadline next total →
    ¬ next < n → total = 0 → x.1.clock < deadline → ∀ r, x.2.due call r = true →
      (∀ w, (x.1.workers w).owned r = 0) ∧ replying r x.1.lost = 0
  | _ => True

/-- Not a counter that reads zero while its worker owns a task that is due, and not an
early return after one was lost. -/
def Tells (x : State n × Promises) : Action n → Prop
  | .drain call => ∀ deadline next total, x.1.shutdowns call = .summing deadline next total →
    ∀ r, x.2.due call r = true →
      (∀ h : next < n, (x.1.workers ⟨next, h⟩).inFlight = 0 →
        (x.1.workers ⟨next, h⟩).owned r = 0) ∧
      (¬ next < n → total = 0 → x.1.clock < deadline → replying r x.1.lost = 0)
  | _ => True

/-! ### One step -/

/-- What is due was accepted, and only calls that were made have returned. -/
structure Honest (x : State n × Promises) : Prop where
  balanced : x.1.Balanced
  accepted : ∀ call r, x.2.due call r = true → x.1.accepted r = 1
  idle : ∀ call, x.1.shutdowns call = .idle → x.2.early call = false

namespace State

/-- A task that was accepted stays accepted, whatever the call that comes after. -/
theorem accepted_of_step {action : Action n} {s s' : State n} (hs : s.Balanced)
    (h : s.step setup action = some s') {r : ReplyId} (hr : s.accepted r = 1) :
    s'.accepted r = 1 := by
  have hmoves : ∀ call phase, s.accepted call = 0 → (s.setSubmit call phase).accepted r = 1 := by
    intro call phase hcall
    rw [accepted_setSubmit, if_neg]
    · exact hr
    · intro heq
      subst heq
      omega
  cases action with
  | submit task =>
    obtain ⟨hidle, rfl⟩ := step_submit h
    have hcall : s.accepted task.reply = 0 := by rw [accepted, hidle]; rfl
    unfold submit
    split <;> exact hmoves _ _ hcall
  | select call readings =>
    obtain ⟨task, hcall, rfl⟩ := step_select h
    obtain rfl := (hs.calls call).1 task hcall
    have hcall' : s.accepted task.reply = 0 := by rw [accepted, hcall]; rfl
    unfold select
    split <;> exact hmoves _ _ hcall'
  | send call =>
    obtain ⟨task, w, hcall, rfl⟩ := step_send h
    obtain rfl := (hs.calls call).2 task w hcall
    have hcall' : s.accepted task.reply = 0 := by rw [accepted, hcall]; rfl
    unfold send
    split <;> exact hmoves _ _ hcall'
  | worker w choice =>
    obtain ⟨worker, effect, -, rfl⟩ := step_worker h
    rw [accepted, submits_apply]
    exact hr
  | tick nanos =>
    obtain rfl := Option.some.inj h
    exact hr
  | refresh bundle tenantId =>
    obtain rfl := step_refresh h
    exact hr
  | shutdown call =>
    obtain ⟨-, rfl⟩ := step_shutdown h
    exact hr
  | drain call =>
    obtain ⟨deadline, next, total, -, rfl⟩ := step_drain h
    obtain ⟨phase, -, heq⟩ := s.drain_eq call deadline next total
    rw [heq]
    exact hr
  | drop =>
    obtain rfl := Option.some.inj h
    exact hr

/-- Replies stay sent. -/
theorem answered_of_step {action : Action n} {s s' : State n} (h : s.step setup action = some s')
    (r : ReplyId) : s.answered r ≤ s'.answered r := by
  cases action with
  | worker w choice =>
    obtain ⟨worker, effect, -, rfl⟩ := step_worker h
    rw [answered_apply]
    exact Nat.le_add_right _ _
  | tick | submit | select | send | refresh | shutdown | drain | drop =>
    rw [answered, answered, (step_frame h (by simp)).replies]

/-- Calls of `shutdown` move only by their own steps. -/
theorem shutdowns_of_step {action : Action n} {s s' : State n}
    (h : s.step setup action = some s') {call : Nat} (hshutdown : action ≠ .shutdown call)
    (hdrain : action ≠ .drain call) : s'.shutdowns call = s.shutdowns call := by
  cases action with
  | shutdown other =>
    obtain ⟨-, rfl⟩ := step_shutdown h
    have hcall : call ≠ other := by
      intro heq
      subst heq
      exact hshutdown rfl
    exact Function.update_of_ne hcall _ _
  | drain other =>
    obtain ⟨deadline, next, total, -, rfl⟩ := step_drain h
    obtain ⟨phase, -, heq⟩ := s.drain_eq other deadline next total
    rw [heq]
    have hcall : call ≠ other := by
      intro heq
      subst heq
      exact hdrain rfl
    exact Function.update_of_ne hcall _ _
  | worker w choice =>
    obtain ⟨worker, effect, -, rfl⟩ := step_worker h
    cases effect <;> rfl
  | submit task =>
    obtain ⟨-, rfl⟩ := step_submit h
    unfold submit
    split <;> rfl
  | select other readings =>
    obtain ⟨task, -, rfl⟩ := step_select h
    unfold select
    split <;> rfl
  | send other =>
    obtain ⟨task, w, -, rfl⟩ := step_send h
    unfold send
    split <;> rfl
  | refresh bundle tenantId =>
    obtain rfl := step_refresh h
    rfl
  | tick nanos =>
    obtain rfl := Option.some.inj h
    rfl
  | drop =>
    obtain rfl := Option.some.inj h
    rfl

/-- A call that is idle after a step was idle before, and the step was none of its own. -/
theorem idle_of_step {action : Action n} {s s' : State n} (h : s.step setup action = some s')
    {call : Nat} (hidle : s'.shutdowns call = .idle) :
    s.shutdowns call = .idle ∧ action ≠ .shutdown call ∧ action ≠ .drain call := by
  have hshutdown : action ≠ .shutdown call := by
    intro heq
    subst heq
    obtain ⟨-, rfl⟩ := step_shutdown h
    have hmoved : (s.initiateShutdown setup call).shutdowns call ≠ .idle := by
      simp [initiateShutdown, setShutdown]
    exact hmoved hidle
  have hdrain : action ≠ .drain call := by
    intro heq
    subst heq
    obtain ⟨deadline, next, total, -, rfl⟩ := step_drain h
    obtain ⟨phase, hphase, heq⟩ := s.drain_eq call deadline next total
    rw [heq] at hidle
    have hmoved : (s.setShutdown call phase).shutdowns call = phase := by simp [setShutdown]
    exact hphase (hmoved.symm.trans hidle)
  exact ⟨(shutdowns_of_step h hshutdown hdrain).symm.trans hidle, hshutdown, hdrain⟩

end State

/-- A step makes a call return early. -/
def ReturnsEarly (s : State n) (action : Action n) (call : Nat) : Prop :=
  ∃ deadline, action = .drain call ∧ ∃ next, s.shutdowns call = .summing deadline next 0 ∧
    ¬ next < n ∧ s.clock < deadline

theorem Promises.early_enter {action : Action n} {s : State n} {g : Promises} {call : Nat} :
    (g.enter action s).early call = true ↔ g.early call = true ∨ ReturnsEarly s action call := by
  unfold Promises.enter
  split
  · simp [ReturnsEarly]
  · rename_i other
    split
    · rename_i deadline next total hsumming
      split
      · rename_i hearly
        obtain ⟨hnext, rfl, hclock⟩ := hearly
        by_cases hcall : call = other
        · subst hcall
          exact iff_of_true (Function.update_self _ _ _)
            (.inr ⟨deadline, rfl, next, hsumming, hnext, hclock⟩)
        · show Function.update g.early other true call = true ↔ _
          rw [Function.update_of_ne hcall]
          simp [ReturnsEarly, Ne.symm hcall]
      · rename_i hlate
        refine (or_iff_left ?_).symm
        intro ⟨deadline', hother, next', hsumming', hnext', hclock'⟩
        obtain rfl := Action.drain.inj hother
        obtain ⟨rfl, rfl, rfl⟩ := ShutdownCall.summing.inj (hsumming.symm.trans hsumming')
        exact hlate ⟨hnext', rfl, hclock'⟩
    · rename_i hsumming
      refine (or_iff_left ?_).symm
      intro ⟨deadline', hother, next', hsumming', _⟩
      obtain rfl := Action.drain.inj hother
      exact hsumming _ _ _ hsumming'
  · rename_i hdrain
    refine (or_iff_left ?_).symm
    intro ⟨deadline', heq, _⟩
    subst heq
    exact hdrain _ rfl

theorem Promises.due_enter {action : Action n} {s : State n} {g : Promises} {call : Nat}
    (h : action ≠ .shutdown call) : (g.enter action s).due call = g.due call := by
  unfold Promises.enter
  split
  · rename_i other
    have hcall : call ≠ other := by
      intro heq
      subst heq
      exact h rfl
    exact Function.update_of_ne hcall _ _
  · split
    · split <;> rfl
    · rfl
  · rfl

theorem honest_step {action : Action n} {x x' : State n × Promises} (h : Honest x)
    (hstep : (promised setup n).step action x = some x') : Honest x' := by
  obtain ⟨s, g⟩ := x
  obtain ⟨s', g'⟩ := x'
  obtain ⟨hs, hg⟩ := Machine.observed_step hstep
  change s.step setup action = some s' at hs
  change g' = g.enter action s at hg
  subst hg
  refine ⟨State.balanced_step h.balanced hs, ?_, ?_⟩
  · intro call r hdue
    apply State.accepted_of_step h.balanced hs
    change (g.enter action s).due call r = true at hdue
    by_cases hcall : action = .shutdown call
    · subst hcall
      have hdue' : Function.update g.due call (fun r => decide (s.accepted r = 1)) call r = true :=
        hdue
      rw [Function.update_self] at hdue'
      exact of_decide_eq_true hdue'
    · rw [Promises.due_enter hcall] at hdue
      exact h.accepted call r hdue
  · intro call hidle
    obtain ⟨hidle', -, hdrain⟩ := State.idle_of_step hs hidle
    apply Bool.eq_false_iff.2
    rw [Ne, Promises.early_enter]
    rintro (hearly | ⟨deadline, heq, -⟩)
    · rw [h.idle call hidle'] at hearly
      cases hearly
    · exact hdrain heq

/-- A task that was accepted is answered when no worker owns it and it is not lost. -/
theorem State.Balanced.answered_iff {s : State n} (h : s.Balanced) {r : ReplyId}
    (hr : s.accepted r = 1) :
    s.answered r = 1 ↔ (∀ w, (s.workers w).owned r = 0) ∧ replying r s.lost = 0 := by
  have hplaces := h.places r
  have hsum : ∑ w, (s.workers w).owned r = 0 ↔ ∀ w, (s.workers w).owned r = 0 := by
    simp [sum_eq_zero_iff]
  rw [← hsum]
  omega

/-- **One step breaks a promise exactly when it is an early return with a task that is due
still owned by a worker, or lost.** -/
theorem drained_step {action : Action n} {x x' : State n × Promises} (hx : Honest x)
    (h : Drained x) (hstep : (promised setup n).step action x = some x') :
    Drained x' ↔ Cleared x action := by
  have hx' := honest_step hx hstep
  obtain ⟨s, g⟩ := x
  obtain ⟨s', g'⟩ := x'
  obtain ⟨hs, hg⟩ := Machine.observed_step hstep
  change s.step setup action = some s' at hs
  change g' = g.enter action s at hg
  subst hg
  have hstays : ∀ r, s.answered r = 1 → s'.answered r = 1 := by
    intro r hr
    have hmono := State.answered_of_step hs r
    have hle := hx'.balanced.answered_le r
    change s'.answered r ≤ 1 at hle
    omega
  constructor
  · intro hdrained
    cases action with
    | drain call =>
      rintro deadline next total hsumming hnext rfl hclock r hdue
      have hanswered : s'.answered r = 1 := by
        apply hdrained call
        · exact Promises.early_enter.2 (.inr ⟨deadline, rfl, next, hsumming, hnext, hclock⟩)
        · show (g.enter (.drain call) s).due call r = true
          rw [Promises.due_enter (by simp)]
          exact hdue
      rw [State.answered, (State.step_frame hs (by simp)).replies] at hanswered
      exact (hx.balanced.answered_iff (hx.accepted call r hdue)).1 hanswered
    | _ => trivial
  · intro hcleared call hearly r hdue
    change (g.enter action s).early call = true at hearly
    obtain hearly | ⟨deadline, rfl, next, hsumming, hnext, hclock⟩ := Promises.early_enter.1 hearly
    · have hcall : action ≠ .shutdown call := by
        intro heq
        subst heq
        have hnot : g.early call = true := by simpa [Promises.enter] using hearly
        rw [show g.early call = false from hx.idle call (State.step_shutdown hs).1] at hnot
        cases hnot
      change (g.enter action s).due call r = true at hdue
      rw [Promises.due_enter hcall] at hdue
      exact hstays r (h call hearly r hdue)
    · change (g.enter (.drain call) s).due call r = true at hdue
      rw [Promises.due_enter (by simp)] at hdue
      apply hstays
      exact (hx.balanced.answered_iff (hx.accepted call r hdue)).2
        (hcleared deadline next 0 hsumming hnext rfl hclock r hdue)

/-! ### What the counters tell -/

/-- Nobody comes to own a task that was accepted before. -/
theorem State.owned_of_step {action : Action n} {s s' : State n} (hs : s.Balanced)
    (h : s.step setup action = some s') {r : ReplyId} (hr : s.accepted r = 1) (w : Fin n) :
    (s'.workers w).owned r ≤ (s.workers w).owned r := by
  cases action with
  | worker w' choice =>
    obtain ⟨worker, effect, hturn, rfl⟩ := State.step_worker h
    rw [State.workers_apply]
    by_cases hw : w = w'
    · subst hw
      rw [State.workers_setWorker_self]
      have howned := hturn.owned r
      omega
    · rw [State.workers_setWorker_of_ne hw]
  | send call =>
    obtain ⟨task, w', hcall, rfl⟩ := State.step_send h
    obtain rfl := (hs.calls call).2 task w' hcall
    unfold State.send
    split
    · rw [State.workers_setSubmit]
      by_cases hw : w = w'
      · subst hw
        rw [State.workers_setWorker_self]
        have hreply : task.reply ≠ r := by
          intro heq
          subst heq
          rw [State.accepted, hcall] at hr
          cases hr
        have hnone : replying r [task] = 0 := by
          rw [replying_single, if_neg hreply]
        show replying r ((s.workers w).queue ++ [task]) + replying r (s.workers w).held ≤ _
        rw [replying_append, hnone]
        exact le_rfl
      · rw [State.workers_setWorker_of_ne hw]
    · exact le_rfl
  | tick | submit | select | refresh | shutdown | drain | drop =>
    rw [(State.step_frame h (by simp)).workers (by simp)]

/-- Where a sum is still zero, the workers it went over own nothing that is due. -/
structure Swept (x : State n × Promises) : Prop where
  honest : Honest x
  clear : ∀ call deadline next, x.1.shutdowns call = .summing deadline next 0 →
    ∀ r, x.2.due call r = true → ∀ w : Fin n, w.1 < next → (x.1.workers w).owned r = 0

theorem swept_step {action : Action n} {x x' : State n × Promises} (h : Swept x)
    (htells : Tells x action) (hstep : (promised setup n).step action x = some x') : Swept x' := by
  refine ⟨honest_step h.honest hstep, ?_⟩
  obtain ⟨s, g⟩ := x
  obtain ⟨s', g'⟩ := x'
  obtain ⟨hs, hg⟩ := Machine.observed_step hstep
  change s.step setup action = some s' at hs
  change g' = g.enter action s at hg
  subst hg
  intro call deadline next hsumming r hdue w hw
  by_cases hshutdown : action = .shutdown call
  · subst hshutdown
    obtain ⟨-, rfl⟩ := State.step_shutdown hs
    have hfirst : (s.initiateShutdown setup call).shutdowns call =
        .summing (s.clock + setup.poolConfig.drainTimeoutSecs * 1000000000) 0 0 := by
      simp [State.initiateShutdown, State.setShutdown]
    obtain ⟨-, rfl, -⟩ := ShutdownCall.summing.inj (hfirst.symm.trans hsumming)
    exact absurd hw (Nat.not_lt_zero _)
  · change (g.enter action s).due call r = true at hdue
    rw [Promises.due_enter hshutdown] at hdue
    by_cases hdrain : action = .drain call
    · subst hdrain
      have hworkers := (State.step_frame hs (by simp)).workers (by simp)
      obtain ⟨deadline', next', total', hbefore, rfl⟩ := State.step_drain hs
      have htells' := htells deadline' next' total' hbefore r hdue
      show ((s.drain call deadline' next' total').workers w).owned r = 0
      rw [hworkers]
      have hphase (phase : ShutdownCall) : (s.setShutdown call phase).shutdowns call = phase := by
        simp [State.setShutdown]
      change (s.drain call deadline' next' total').shutdowns call = _ at hsumming
      unfold State.drain at hsumming
      split at hsumming
      · -- one more load: the sum was zero before, and this counter is
        rename_i hload
        obtain ⟨-, rfl, htotal⟩ := ShutdownCall.summing.inj ((hphase _).symm.trans hsumming)
        obtain ⟨rfl, hzero⟩ := Nat.add_eq_zero_iff.1 htotal
        obtain hlt | heq := Nat.lt_succ_iff_lt_or_eq.1 hw
        · exact h.clear call deadline' next' hbefore r hdue w hlt
        · obtain rfl : w = ⟨next', hload⟩ := Fin.ext heq
          exact htells'.1 hload hzero
      · split at hsumming
        · cases (hphase _).symm.trans hsumming
        · split at hsumming
          · cases (hphase _).symm.trans hsumming
          · obtain ⟨-, rfl, -⟩ := ShutdownCall.summing.inj ((hphase _).symm.trans hsumming)
            exact absurd hw (Nat.not_lt_zero _)
    · have hsame := State.shutdowns_of_step hs hshutdown hdrain
      have hbefore := h.clear call deadline next (hsame.symm.trans hsumming) r hdue w hw
      have hle := State.owned_of_step h.honest.balanced hs (h.honest.accepted call r hdue) w
      exact Nat.le_zero.1 (hbefore ▸ hle)

/-- At an early return the sum went over all workers. -/
theorem Swept.cleared {action : Action n} {x : State n × Promises} (h : Swept x)
    (htells : Tells x action) : Cleared x action := by
  cases action with
  | drain call =>
    rintro deadline next total hsumming hnext rfl hclock r hdue
    refine ⟨?_, (htells deadline next 0 hsumming r hdue).2 hnext rfl hclock⟩
    intro w
    exact h.clear call deadline next hsumming r hdue w (by omega)
  | _ => trivial

/-! ### Runs -/

theorem honest_start : Honest (promised setup n).start where
  balanced := State.balanced_start
  accepted := by simp [promised, Machine.observed, Promises.start]
  idle := by simp [promised, Machine.observed, Promises.start]

/-- **Every shutdown that returns early has drained the pool, in exactly the runs in which none
does so with a due task owned by a worker or lost.** None does where a counter that reads zero
always tells the truth about its worker, and nothing due is lost. -/
theorem drained_iff {actions : List (Action n)} {s : State n} (hrun : (pool setup n).Runs actions s) :
    ((promised setup n).Along Drained actions (promised setup n).start ↔
      (promised setup n).Throughout Cleared actions (promised setup n).start) ∧
    ((promised setup n).Throughout Tells actions (promised setup n).start →
      (promised setup n).Along Drained actions (promised setup n).start) := by
  obtain ⟨g, hexec⟩ := Machine.observed_exec.1 hrun
  have hstart : Drained (promised setup n).start := by
    intro call hearly
    cases hearly
  have hiff : (promised setup n).Along Drained actions (promised setup n).start ↔
      (promised setup n).Throughout Cleared actions (promised setup n).start :=
    Machine.along_iff (fun _ _ _ => honest_step) (fun _ _ _ => drained_step) honest_start hstart
      hexec
  refine ⟨hiff, ?_⟩
  intro htells
  have hswept : (promised setup n).Along Swept actions (promised setup n).start := by
    apply htells.along (fun _ _ _ => swept_step)
    refine ⟨honest_start, ?_⟩
    intro call deadline next hsumming
    cases hsumming
  exact hiff.2 (htells.imp (fun _ _ => Swept.cleared) hswept)

/-! ### A task that is not drained -/

/-- A task is accepted and queued; then the pool is shut down. -/
def queuedRun : List (Action 1) :=
  admitDemo ++ [.send (Fin.last 0), .shutdown 0, .drain 0, .drain 0]

theorem drained_iff_queued :
    ((promised demoSetup 1).Along Drained queuedRun (promised demoSetup 1).start ↔
      (promised demoSetup 1).Throughout Cleared queuedRun (promised demoSetup 1).start) ∧
    ((promised demoSetup 1).Throughout Tells queuedRun (promised demoSetup 1).start →
      (promised demoSetup 1).Along Drained queuedRun (promised demoSetup 1).start) := by
  have hruns : ∃ s, (pool demoSetup 1).Runs queuedRun s := ⟨_, rfl⟩
  obtain ⟨s, hrun⟩ := hruns
  exact drained_iff hrun

theorem queuedRun_outcome :
    ((promised demoSetup 1).exec queuedRun (promised demoSetup 1).start).map (fun x =>
      (x.2.early 0, x.2.due 0 0, x.1.answered 0)) = some (true, true, 0) := rfl

/-- **A shutdown returns at once, with an accepted task in a queue.** -/
theorem shutdown_undrained :
    ¬ ∀ n setup actions s, (pool setup n).Runs actions s →
      (promised setup n).Along Drained actions (promised setup n).start := by
  intro h
  obtain ⟨⟨s, g⟩, hexec, houtcome⟩ := Option.map_eq_some_iff.1 queuedRun_outcome
  obtain ⟨hearly, hrest⟩ := Prod.mk.inj houtcome
  obtain ⟨hdue, hanswered⟩ := Prod.mk.inj hrest
  have hdrained := (h 1 demoSetup queuedRun s (Machine.observed_exec.2 ⟨g, hexec⟩)).last hexec
  have hone : s.answered 0 = 1 := hdrained 0 hearly 0 hdue
  have hzero : s.answered 0 = 0 := hanswered
  omega

end Griot.Pool
