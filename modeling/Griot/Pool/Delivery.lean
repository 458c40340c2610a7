import Griot.Pool.Manager
import Mathlib.Algebra.BigOperators.Fin

/-! Every accepted task gets its reply.

A task that `submit` accepted is in a queue, with a worker, answered, or lost with a receiver
that was dropped; it is in one of these places and in no other (`Balanced`), so none is
answered twice. It is lost only if it is still queued when the worker returns. A worker
returns without looking at its queue when it has no engine, and a sender that read the shutdown
flag early can still queue a task behind the last look of a worker that drains. In a run that
neither happens in, and in no other, every accepted task has been answered once when all
workers have stopped (`delivered_iff`). -/
namespace Griot.Pool

open Lib Finset

/-! ### Where a task is -/

/-- How many of the tasks reply on a channel. -/
def replying (r : ReplyId) (tasks : List QueryTask) : Nat := tasks.countP (fun t => t.reply = r)

@[simp] theorem replying_nil (r : ReplyId) : replying r [] = 0 := rfl

theorem replying_cons (r : ReplyId) (t : QueryTask) (tasks : List QueryTask) :
    replying r (t :: tasks) = replying r tasks + replying r [t] := by
  simp [replying, List.countP_cons]

theorem replying_append (r : ReplyId) (first second : List QueryTask) :
    replying r (first ++ second) = replying r first + replying r second :=
  List.countP_append

theorem replying_single (r : ReplyId) (t : QueryTask) :
    replying r [t] = if t.reply = r then 1 else 0 := by
  simp [replying, List.countP_cons]

namespace Worker

/-- The task in a worker's hands. -/
def held (w : Worker) : List QueryTask := match w.phase with
  | .busy task _ => [task]
  | _ => []

def owned (r : ReplyId) (w : Worker) : Nat := replying r w.queue + replying r w.held

/-- On the way out: the queue is not looked at any more. -/
def leaving (w : Worker) : Bool := match w.phase with
  | .exiting | .retired => true
  | _ => false

end Worker

def Effect.answered (r : ReplyId) : Effect → Nat
  | .answers task _ => replying r [task]
  | _ => 0

def Effect.lost : Effect → List QueryTask
  | .loses tasks => tasks
  | _ => []

def SubmitCall.accepts {n : Nat} : SubmitCall n → Nat
  | .returned (.ok ()) => 1
  | _ => 0

namespace State
variable {n : Nat}

/-- The messages sent on a reply channel. -/
def answered (r : ReplyId) (s : State n) : Nat := s.replies.countP (fun reply => reply.1 = r)

/-- `submit` returned Ok. -/
def accepted (r : ReplyId) (s : State n) : Nat := (s.submits r).accepts

/-- A call handles the task that replies on its channel. -/
def CallsOwn (s : State n) : Prop := ∀ r,
  (∀ task, s.submits r = .admitted task → task.reply = r) ∧
    ∀ task w, s.submits r = .routed task w → task.reply = r

/-- Every accepted task is in one place. -/
structure Balanced (s : State n) : Prop where
  calls : s.CallsOwn
  places : ∀ r, ∑ w, (s.workers w).owned r + s.answered r + replying r s.lost = s.accepted r
  stopped : ∀ w, (s.workers w).phase = .stopped → (s.workers w).queue = []

end State

/-! ### One step of a worker -/

section Turn
variable {setup : Setup} {view : View} {w w' : Worker} {effect : Effect}

/-- A worker answers what it no longer owns, or loses it. -/
theorem Worker.Turn.owned (h : Worker.Turn setup view w w' effect) (r : ReplyId) :
    w'.owned r + effect.answered r + replying r effect.lost = w.owned r := by
  cases h with
  | receives task rest hphase hqueue =>
    simp [Worker.owned, Worker.held, hphase, hqueue, replying_cons r task rest, Effect.answered,
      Effect.lost]
  | drains task rest hphase hqueue =>
    simp [Worker.owned, Worker.held, hphase, hqueue, replying_cons r task rest, Effect.answered,
      Effect.lost]
  | _ => simp_all [Worker.owned, Worker.held, Worker.moveTo, Effect.answered, Effect.lost]

theorem Worker.Turn.queue_of_stopped (h : Worker.Turn setup view w w' effect)
    (hstopped : w'.phase = .stopped) : w'.queue = [] := by
  cases h <;> simp_all [Worker.moveTo]

/-- If no engine can be built, nothing is queued yet when the worker finds out. -/
def Worker.StartsIdle (setup : Setup) (w : Worker) : Prop :=
  w.phase = .starting → (∃ e, setup.engine = .error e) → w.queue = []

/-- Nothing is lost and nothing about to be lost after the step, if it was so before and
the worker was not one without an engine and with tasks in its queue. -/
theorem Worker.Turn.safe_iff (h : Worker.Turn setup view w w' effect) :
    (effect.lost = [] ∧ (w'.leaving = true → w'.queue = [])) ↔
      (w.leaving = true → w.queue = []) ∧ w.StartsIdle setup := by
  cases h <;> simp_all [Worker.moveTo, Worker.leaving, Worker.StartsIdle, Effect.lost]

end Turn

/-! ### One step of the pool -/

namespace State
variable {n : Nat} {setup : Setup}

@[simp] theorem workers_setSubmit (call : ReplyId) (phase : SubmitCall n) (s : State n) :
    (s.setSubmit call phase).workers = s.workers := rfl

@[simp] theorem workers_setWorker_self (w : Fin n) (worker : Worker) (s : State n) :
    (s.setWorker w worker).workers w = worker := by
  simp [setWorker]

theorem workers_setWorker_of_ne {j w : Fin n} (h : j ≠ w) (worker : Worker) (s : State n) :
    (s.setWorker w worker).workers j = s.workers j := by
  simp [setWorker, h]

theorem sum_setWorker (f : Worker → Nat) (s : State n) (w : Fin n) (worker : Worker) :
    ∑ j, f ((s.setWorker w worker).workers j) + f (s.workers w) =
      ∑ j, f (s.workers j) + f worker := by
  have hupdate : (fun j => f ((s.setWorker w worker).workers j)) =
      Function.update (fun j => f (s.workers j)) w (f worker) := by
    funext j
    by_cases hj : j = w
    · subst hj
      simp [setWorker]
    · simp [setWorker, hj]
  rw [hupdate, sum_update_of_mem (mem_univ w), sdiff_singleton_eq_erase, add_comm (f worker),
    add_right_comm, sum_erase_add _ _ (mem_univ w)]

theorem accepted_setSubmit (r call : ReplyId) (phase : SubmitCall n) (s : State n) :
    (s.setSubmit call phase).accepted r = if r = call then phase.accepts else s.accepted r := by
  by_cases h : r = call
  · subst h
    simp [setSubmit, accepted]
  · simp [setSubmit, accepted, h]

theorem callsOwn_setSubmit {s : State n} (h : s.CallsOwn) {call : ReplyId} {phase : SubmitCall n}
    (hadmitted : ∀ task, phase = .admitted task → task.reply = call)
    (hrouted : ∀ task w, phase = .routed task w → task.reply = call) :
    (s.setSubmit call phase).CallsOwn := by
  intro r
  by_cases hr : r = call
  · subst hr
    simpa [setSubmit] using ⟨hadmitted, hrouted⟩
  · simpa [setSubmit, hr] using h r

/-- A call that moves on without being accepted changes nothing. -/
theorem Balanced.setSubmit {s : State n} (h : s.Balanced) {call : ReplyId} {phase : SubmitCall n}
    (hbefore : s.accepted call = 0) (hafter : phase.accepts = 0)
    (hadmitted : ∀ task, phase = .admitted task → task.reply = call)
    (hrouted : ∀ task w, phase = .routed task w → task.reply = call) :
    (s.setSubmit call phase).Balanced where
  calls := callsOwn_setSubmit h.calls hadmitted hrouted
  places := by
    intro r
    rw [accepted_setSubmit]
    by_cases hr : r = call
    · rw [if_pos hr, hafter, ← hbefore, ← hr]
      exact h.places r
    · rw [if_neg hr]
      exact h.places r
  stopped := h.stopped

/-- Only workers, calls, replies and losses matter. -/
theorem Balanced.congr {s s' : State n} (h : s.Balanced) (hworkers : s'.workers = s.workers)
    (hsubmits : s'.submits = s.submits) (hreplies : s'.replies = s.replies)
    (hlost : s'.lost = s.lost) : s'.Balanced := by
  refine ⟨?_, ?_, ?_⟩
  · unfold CallsOwn
    rw [hsubmits]
    exact h.calls
  · unfold answered accepted
    rw [hworkers, hsubmits, hreplies, hlost]
    exact h.places
  · rw [hworkers]
    exact h.stopped

theorem answered_apply (r : ReplyId) (effect : Effect) (s : State n) :
    (s.apply setup effect).answered r = s.answered r + effect.answered r := by
  cases effect with
  | answers task result =>
    simp [apply, answered, Effect.answered, List.countP_cons, replying_single]
  | _ => rfl

theorem lost_apply (effect : Effect) (s : State n) :
    (s.apply setup effect).lost = effect.lost ++ s.lost := by
  cases effect <;> rfl

@[simp] theorem workers_apply (effect : Effect) (s : State n) :
    (s.apply setup effect).workers = s.workers := by
  cases effect <;> rfl

@[simp] theorem submits_apply (effect : Effect) (s : State n) :
    (s.apply setup effect).submits = s.submits := by
  cases effect <;> rfl

/-- A worker's step moves tasks from place to place. -/
theorem Balanced.turn {s : State n} (h : s.Balanced) {view : View} {w : Fin n} {worker : Worker}
    {effect : Effect} (hturn : (s.workers w).Turn setup view worker effect) :
    ((s.setWorker w worker).apply setup effect).Balanced where
  calls := by
    unfold CallsOwn
    rw [submits_apply]
    exact h.calls
  places := by
    intro r
    have hsum := s.sum_setWorker (Worker.owned r) w worker
    have howned := hturn.owned r
    have hplaces := h.places r
    have haccepted : ((s.setWorker w worker).apply setup effect).accepted r = s.accepted r := by
      rw [accepted, submits_apply]
      rfl
    have hanswered : (s.setWorker w worker).answered r = s.answered r := rfl
    have hlost : (s.setWorker w worker).lost = s.lost := rfl
    rw [haccepted, answered_apply, lost_apply, replying_append, workers_apply, hanswered, hlost]
    omega
  stopped := by
    intro j hj
    rw [workers_apply] at hj ⊢
    by_cases hjw : j = w
    · subst hjw
      rw [workers_setWorker_self] at hj ⊢
      exact hturn.queue_of_stopped hj
    · rw [workers_setWorker_of_ne hjw] at hj ⊢
      exact h.stopped j hj

/-- A sent task is in the queue it was sent to. -/
theorem Balanced.send {s : State n} (h : s.Balanced) {task : QueryTask} {w : Fin n}
    (hcall : s.submits task.reply = .routed task w) : (s.send setup task w).Balanced := by
  have hbefore : s.accepted task.reply = 0 := by
    rw [accepted, hcall]
    rfl
  unfold State.send
  split
  · rename_i hroom
    refine ⟨?_, ?_, ?_⟩
    · exact callsOwn_setSubmit h.calls (by simp) (by simp)
    · intro r
      have hsum := s.sum_setWorker (Worker.owned r) w ((s.workers w).enqueue task)
      have howned : ((s.workers w).enqueue task).owned r =
          (s.workers w).owned r + replying r [task] := by
        simp only [Worker.owned, Worker.enqueue, replying_append]
        show _ + replying r (s.workers w).held = _
        omega
      have hplaces := h.places r
      rw [accepted_setSubmit]
      show ∑ j, ((s.setWorker w _).workers j).owned r + s.answered r + replying r s.lost = _
      rw [replying_single] at howned
      by_cases hr : r = task.reply
      · rw [if_pos hr.symm] at howned
        rw [if_pos hr]
        rw [hr] at hplaces hsum howned ⊢
        show _ = 1
        omega
      · rw [if_neg (Ne.symm hr)] at howned
        rw [if_neg hr]
        show _ = s.accepted r
        omega
    · intro j hj
      rw [workers_setSubmit] at hj ⊢
      by_cases hjw : j = w
      · subst hjw
        rw [workers_setWorker_self] at hj
        have hstopped : (s.workers j).phase = .stopped := hj
        simp [Worker.hasRoom, Worker.isStopped, hstopped] at hroom
      · rw [workers_setWorker_of_ne hjw] at hj ⊢
        exact h.stopped j hj
  · exact h.setSubmit hbefore rfl (by simp) (by simp)

theorem balanced_step {action : Action n} {s s' : State n} (h : s.Balanced)
    (hstep : s.step setup action = some s') : s'.Balanced := by
  cases action with
  | tick nanos =>
    obtain rfl := Option.some.inj hstep
    exact h.congr rfl rfl rfl rfl
  | submit task =>
    obtain ⟨hidle, rfl⟩ := step_submit hstep
    have hbefore : s.accepted task.reply = 0 := by
      rw [accepted, hidle]
      rfl
    unfold submit
    split
    · exact h.setSubmit hbefore rfl (by simp) (by simp)
    · exact h.setSubmit hbefore rfl (by simp) (by simp)
  | select call r =>
    obtain ⟨task, hcall, rfl⟩ := step_select hstep
    obtain rfl := (h.calls call).1 task hcall
    have hbefore : s.accepted task.reply = 0 := by
      rw [accepted, hcall]
      rfl
    unfold select
    split
    · exact h.setSubmit hbefore rfl (by simp) (by simp)
    · rename_i w hw
      have hpinned : State.Balanced
          {s with tenantAffinity := s.tenantAffinity.insert task.tenantId w} :=
        h.congr rfl rfl rfl rfl
      exact hpinned.setSubmit hbefore rfl (by simp) (by simp)
    · exact h.setSubmit hbefore rfl (by simp) (by simp)
  | send call =>
    obtain ⟨task, w, hcall, rfl⟩ := step_send hstep
    obtain rfl := (h.calls call).2 task w hcall
    exact h.send hcall
  | refresh bundle tenantId =>
    obtain rfl := step_refresh hstep
    exact h.congr rfl rfl rfl rfl
  | shutdown call =>
    obtain ⟨-, rfl⟩ := step_shutdown hstep
    exact h.congr rfl rfl rfl rfl
  | drain call =>
    obtain ⟨deadline, next, total, -, rfl⟩ := step_drain hstep
    obtain ⟨phase, -, heq⟩ := s.drain_eq call deadline next total
    rw [heq]
    exact h.congr rfl rfl rfl rfl
  | drop =>
    obtain rfl := Option.some.inj hstep
    exact h.congr rfl rfl rfl rfl
  | worker w choice =>
    obtain ⟨worker, effect, hturn, rfl⟩ := step_worker hstep
    exact h.turn hturn

theorem balanced_start : (State.start setup : State n).Balanced where
  calls := by simp [CallsOwn, State.start]
  places := by
    intro r
    simp [State.start, Worker.start, Worker.owned, Worker.held, answered, accepted,
      SubmitCall.accepts]
  stopped := by simp [State.start, Worker.start]

/-- Nothing is lost, and nothing is queued with a worker on its way out. -/
def Safe (s : State n) : Prop :=
  s.lost = [] ∧ ∀ w, (s.workers w).leaving = true → (s.workers w).queue = []

/-- No worker without an engine finds tasks in its queue, and no task is sent to a worker
on its way out. -/
def Clean (setup : Setup) (s : State n) : Action n → Prop
  | .worker w _ => (s.workers w).StartsIdle setup
  | .send call => ∀ task w, s.submits call = .routed task w →
    (s.workers w).hasRoom setup = true → (s.workers w).leaving = false
  | _ => True

theorem forall_setWorker (P : Worker → Prop) (s : State n) (w : Fin n) (worker : Worker) :
    (∀ j, P ((s.setWorker w worker).workers j)) ↔ P worker ∧ ∀ j, j ≠ w → P (s.workers j) := by
  constructor
  · intro h
    refine ⟨?_, ?_⟩
    · simpa using h w
    · intro j hj
      simpa [workers_setWorker_of_ne hj] using h j
  · intro h j
    by_cases hj : j = w
    · subst hj
      rw [workers_setWorker_self]
      exact h.1
    · rw [workers_setWorker_of_ne hj]
      exact h.2 j hj

theorem forall_worker (P : Worker → Prop) (s : State n) (w : Fin n) :
    (∀ j, P (s.workers j)) ↔ P (s.workers w) ∧ ∀ j, j ≠ w → P (s.workers j) := by
  constructor
  · intro h
    exact ⟨h w, fun j _ => h j⟩
  · intro h j
    by_cases hj : j = w
    · rw [hj]
      exact h.1
    · exact h.2 j hj

theorem safe_turn {s : State n} {view : View} {w : Fin n} {worker : Worker} {effect : Effect}
    (hturn : (s.workers w).Turn setup view worker effect) :
    ((s.setWorker w worker).apply setup effect).Safe ↔
      s.Safe ∧ (s.workers w).StartsIdle setup := by
  have hiff := hturn.safe_iff
  have hlost : (s.setWorker w worker).lost = s.lost := rfl
  unfold Safe
  rw [lost_apply, workers_apply, hlost, List.append_eq_nil_iff,
    forall_setWorker (fun v => v.leaving = true → v.queue = []) s w worker,
    forall_worker (fun v => v.leaving = true → v.queue = []) s w]
  tauto

theorem safe_send {s : State n} {task : QueryTask} {w : Fin n} :
    (s.send setup task w).Safe ↔
      s.Safe ∧ ((s.workers w).hasRoom setup = true → (s.workers w).leaving = false) := by
  unfold send
  by_cases hroom : (s.workers w).hasRoom setup = true
  · rw [if_pos hroom]
    have henqueue : (((s.workers w).enqueue task).leaving = true →
        ((s.workers w).enqueue task).queue = []) ↔ (s.workers w).leaving = false := by
      show ((s.workers w).leaving = true → (s.workers w).queue ++ [task] = []) ↔ _
      simp
    show s.lost = [] ∧ _ ↔ _
    rw [workers_setSubmit, forall_setWorker (fun v => v.leaving = true → v.queue = []) s w,
      henqueue]
    unfold Safe
    rw [forall_worker (fun v => v.leaving = true → v.queue = []) s w]
    have hleaving : (s.workers w).leaving = false →
        (s.workers w).leaving = true → (s.workers w).queue = [] := by
      intro hfalse htrue
      rw [hfalse] at htrue
      cases htrue
    tauto
  · rw [if_neg hroom]
    exact (and_iff_left (fun h => absurd h hroom)).symm

/-- **One step makes the pool unsafe exactly when it is not clean.** -/
theorem safe_step {action : Action n} {s s' : State n}
    (hstep : s.step setup action = some s') : s'.Safe ↔ s.Safe ∧ s.Clean setup action := by
  cases action with
  | worker w choice =>
    obtain ⟨worker, effect, hturn, rfl⟩ := step_worker hstep
    exact safe_turn hturn
  | send call =>
    obtain ⟨task, w, hcall, rfl⟩ := step_send hstep
    rw [safe_send]
    apply and_congr_right
    intro _
    constructor
    · intro h task' w' hcall'
      obtain ⟨-, rfl⟩ := SubmitCall.routed.inj (hcall.symm.trans hcall')
      exact h
    · intro h
      exact h task w hcall
  | tick | submit | select | refresh | shutdown | drain | drop =>
    have hframe := step_frame hstep (by simp)
    unfold Safe
    rw [hframe.workers (by simp), hframe.lost]
    exact (and_iff_left trivial).symm

/-! ### Runs -/

/-- Every accepted task was answered once, and none was dropped unanswered. -/
def Delivered (s : State n) : Prop :=
  (∀ r, s.submits r = .returned (.ok ()) → s.answered r = 1) ∧ s.lost = []

theorem Balanced.answered_le {s : State n} (h : s.Balanced) (r : ReplyId) : s.answered r ≤ 1 := by
  have hplaces := h.places r
  have haccepts : s.accepted r ≤ 1 := by
    unfold accepted SubmitCall.accepts
    split <;> omega
  omega

/-- When all workers have stopped, a task is answered or lost. -/
theorem Balanced.places_of_stopped {s : State n} (h : s.Balanced)
    (hstopped : ∀ w, (s.workers w).phase = .stopped) (r : ReplyId) :
    s.answered r + replying r s.lost = s.accepted r := by
  have howned : ∑ w, (s.workers w).owned r = 0 := by
    apply sum_eq_zero
    intro w _
    simp [Worker.owned, Worker.held, hstopped w, h.stopped w (hstopped w)]
  have hplaces := h.places r
  omega

theorem Balanced.delivered_iff_safe {s : State n} (h : s.Balanced)
    (hstopped : ∀ w, (s.workers w).phase = .stopped) : s.Delivered ↔ s.Safe := by
  have hleaving : ∀ w, (s.workers w).leaving = true → (s.workers w).queue = [] :=
    fun w _ => h.stopped w (hstopped w)
  constructor
  · intro hdelivered
    exact ⟨hdelivered.2, hleaving⟩
  · intro hsafe
    refine ⟨?_, hsafe.1⟩
    intro r hr
    have hplaces := h.places_of_stopped hstopped r
    rw [hsafe.1, accepted, hr] at hplaces
    exact hplaces

end State

/-- **No accepted task is answered twice, and when all workers have stopped every one
has been answered, in exactly the runs in which no worker without an engine finds tasks in its
queue and no task is sent to a worker on its way out.** -/
theorem delivered_iff {n : Nat} {setup : Setup} {actions : List (Action n)} {s : State n}
    (hrun : (pool setup n).Runs actions s) :
    (∀ r, s.answered r ≤ 1) ∧
      ((∀ w, (s.workers w).phase = .stopped) →
        (s.Delivered ↔ (pool setup n).Throughout (State.Clean setup) actions (pool setup n).start)) := by
  have hinv : ∀ (a : Action n) (s s' : State n), s.Balanced → (pool setup n).step a s = some s' →
      s'.Balanced := fun a s s' hs hstep => State.balanced_step hs hstep
  have hstart : (pool setup n).start.Balanced := State.balanced_start
  have hbalanced : s.Balanced := Machine.exec_invariant hinv hstart hrun
  refine ⟨hbalanced.answered_le, ?_⟩
  intro hstopped
  have hsafe : (pool setup n).start.Safe := ⟨rfl, fun _ _ => rfl⟩
  rw [hbalanced.delivered_iff_safe hstopped]
  calc s.Safe
      ↔ (pool setup n).start.Safe ∧
          (pool setup n).Throughout (State.Clean setup) actions (pool setup n).start :=
        Machine.exec_iff hinv (fun a s s' _ hstep => State.safe_step hstep) hstart hrun
    _ ↔ _ := and_iff_right hsafe

/-! ### A task that is lost -/

/-- A caller reads the shutdown flag before it is set, and sends after the worker has seen its
queue empty for the last time. -/
def lateRun : List (Action 1) :=
  admitDemo ++ [.shutdown 0, .worker 0 .go, .worker 0 .go, .worker 0 .go, .send 0,
    .worker 0 .go, .worker 0 .go]

theorem delivered_iff_late :
    ∃ s, (pool demoSetup 1).Runs lateRun s ∧ (∀ r, s.answered r ≤ 1) ∧
      (s.Delivered ↔ (pool demoSetup 1).Throughout (State.Clean demoSetup) lateRun
        (pool demoSetup 1).start) := by
  have hruns : ∃ s, (pool demoSetup 1).Runs lateRun s ∧ (s.workers 0).phase = .stopped :=
    ⟨_, rfl, rfl⟩
  obtain ⟨s, hrun, hstopped⟩ := hruns
  have h := delivered_iff hrun
  refine ⟨s, hrun, h.1, h.2 ?_⟩
  intro w
  obtain rfl := Subsingleton.elim 0 w
  exact hstopped

/-- **An accepted task is dropped unanswered.** -/
theorem accepted_unanswered :
    ∃ s, (pool demoSetup 1).Runs lateRun s ∧ (s.workers 0).phase = .stopped ∧
      s.submits 0 = .returned (.ok ()) ∧ s.replies = [] ∧ s.lost = [demoTask] :=
  ⟨_, rfl, rfl, rfl, rfl, rfl⟩

end Griot.Pool
