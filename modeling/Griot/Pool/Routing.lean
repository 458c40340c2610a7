import Griot.Pool.Delivery

/-! Rejections.

A task goes to the worker its tenant is pinned to, if that one is alive and has a free slot,
and otherwise to the live worker that runs the fewest tasks. How many tasks are queued there is
not looked at. So a task is turned away while another worker has room exactly if, among the live
workers, one without a free slot comes before all that have one (`rejects_only_full_iff`). -/
namespace Griot.Pool

open Lib

namespace Worker

/-- A free slot in the queue. -/
def Free (setup : Setup) (w : Worker) : Prop := w.queue.length < setup.poolConfig.queueDepth

/-- It runs the tasks of its queue, or will once it has its engine. -/
def Serves (setup : Setup) (w : Worker) : Prop := match w.phase with
  | .starting => ∃ engine, setup.engine = .ok engine
  | .looping | .waiting | .busy _ _ => True
  | .draining | .exiting | .retired | .stopped => False

/-- No longer alive. -/
def Gone (w : Worker) : Prop := match w.phase with
  | .retired | .stopped => True
  | _ => False

/-- The flag is down exactly when the worker is gone. -/
def Flagged (w : Worker) : Prop := w.alive = true ↔ ¬ w.Gone

theorem flagged_start : Worker.start.Flagged := by
  simp [Flagged, Worker.start, Gone]

theorem Turn.flagged {setup : Setup} {view : View} {w w' : Worker} {effect : Effect}
    (h : Turn setup view w w' effect) (hw : w.Flagged) : w'.Flagged := by
  cases h <;> simp_all [Flagged, Gone, moveTo]

theorem Flagged.alive_of_serves {setup : Setup} {w : Worker} (h : w.Flagged) (hserves : w.Serves setup) :
    w.alive = true := by
  refine h.mpr ?_
  unfold Gone
  unfold Serves at hserves
  split at hserves <;> simp_all

/-- A live worker turns a task away only if its queue is full. -/
theorem Flagged.hasRoom_iff {setup : Setup} {w : Worker} (h : w.Flagged) (halive : w.alive = true) :
    w.hasRoom setup = true ↔ w.Free setup := by
  have hgone := h.mp halive
  have hstopped : w.isStopped = false := by
    unfold isStopped
    split
    · rename_i hphase
      exact absurd (by simp [Gone, hphase]) hgone
    · rfl
  simp [hasRoom, hstopped, Free]

end Worker

/-! ### The first of the least -/

section MinByKey
variable {α : Type} {key : α → Nat} {l : List α}

theorem minByKey_eq_none : minByKey key l = none ↔ l = [] := by
  cases l with
  | nil => exact iff_of_true rfl rfl
  | cons a as =>
    rw [minByKey]
    refine iff_of_false (fun h => ?_) (List.cons_ne_nil a as)
    cases hrest : minByKey key as with
    | none => simp [hrest] at h
    | some b =>
      simp only [hrest] at h
      split at h <;> cases h

variable [LinearOrder α]

/-- Fewer, or as many and earlier. -/
def Before (key : α → Nat) (a b : α) : Prop := key a < key b ∨ key a = key b ∧ a < b

/-- No item comes before the one that is found. -/
theorem not_before_of_minByKey (hsorted : l.Pairwise (· < ·)) {a : α} (h : minByKey key l = some a) :
    a ∈ l ∧ ∀ b ∈ l, ¬ Before key b a := by
  induction l generalizing a with
  | nil => cases h
  | cons x xs ih =>
    obtain ⟨hx, hxs⟩ := List.pairwise_cons.mp hsorted
    have hself : ¬ Before key x x := by simp [Before]
    rw [minByKey] at h
    cases hrest : minByKey key xs with
    | none =>
      rw [hrest] at h
      obtain rfl := Option.some.inj h
      obtain rfl := minByKey_eq_none.mp hrest
      exact ⟨List.mem_cons_self, by simpa using hself⟩
    | some b =>
      obtain ⟨hb, hleast⟩ := ih hxs hrest
      simp only [hrest] at h
      split at h
      · rename_i hle
        obtain rfl := Option.some.inj h
        refine ⟨List.mem_cons_self, List.forall_mem_cons.mpr ⟨hself, fun c hc hbefore => ?_⟩⟩
        apply hleast c hc
        obtain hlt | ⟨heq, hlt⟩ := hbefore
        · exact .inl (hlt.trans_le hle)
        · exact absurd hlt (hx c hc).le.not_gt
      · rename_i hlt
        obtain rfl := Option.some.inj h
        refine ⟨List.mem_cons_of_mem _ hb, List.forall_mem_cons.mpr ⟨?_, hleast⟩⟩
        intro hbefore
        obtain hless | ⟨heq, -⟩ := hbefore <;> omega

end MinByKey

/-! ### One call of `submit` -/

namespace State
variable {n : Nat} (setup : Setup)

/-- Chosen and sent with no step between, the task of the call is turned away. -/
def Rejects (s : State n) (call : ReplyId) : Prop :=
  ∃ task s₁ s₂, s.submits call = .admitted task ∧
    s.step setup (.select call (s.readings setup task.tenantId)) = some s₁ ∧
    s₁.step setup (.send call) = some s₂ ∧ s₂.submits call = .returned (.error (.queueFull n))

/-- **Only a full pool rejects.** -/
def RejectsOnlyFull (s : State n) : Prop :=
  ∀ call, s.Rejects setup call → ∀ w, (s.workers w).Serves setup → ¬ (s.workers w).Free setup

/-- The worker the tenant is pinned to is alive and has a free slot. -/
def PinnedFree (tenantId : String) (s : State n) : Prop :=
  ∃ w, s.tenantAffinity.lookup tenantId = some w ∧ (s.workers w).alive = true ∧
    (s.workers w).Free setup

/-- Among the live workers one with a free slot comes before all without: it runs fewer tasks, or
as many and has the lower number. -/
def RoomFirst (s : State n) : Prop :=
  ∃ w, (s.workers w).alive = true ∧ (s.workers w).Free setup ∧
    ∀ v, (s.workers v).alive = true → ¬ (s.workers v).Free setup →
      Before (fun w => (s.workers w).inFlight) w v

/-- Whoever submits while some worker has room is pinned to one that has, or one comes first. -/
def Routable (s : State n) : Prop :=
  s.dropped = false → ∀ call task, s.submits call = .admitted task →
    (∃ w, (s.workers w).Serves setup ∧ (s.workers w).Free setup) →
      s.PinnedFree setup task.tenantId ∨ s.RoomFirst setup

/-- What holds in every run: the flags of the workers tell the truth, and the calls their task. -/
structure Honest (s : State n) : Prop where
  flagged : ∀ w, (s.workers w).Flagged
  balanced : s.Balanced

variable {setup} {s : State n}

/-- The choice between the live workers falls on one with a free slot exactly if one comes
first. -/
theorem free_iff_roomFirst {tenantId : String} {w : Fin n}
    (h : minByKey (s.readings setup tenantId).inFlight
      ((List.finRange n).filter (s.readings setup tenantId).alive) = some w) :
    (s.workers w).Free setup ↔ s.RoomFirst setup := by
  have hsorted : ((List.finRange n).filter (s.readings setup tenantId).alive).Pairwise (· < ·) :=
    (List.pairwise_lt_finRange n).filter _
  obtain ⟨hmem, hleast⟩ := not_before_of_minByKey hsorted h
  have halive : ∀ v, v ∈ (List.finRange n).filter (s.readings setup tenantId).alive ↔
      (s.workers v).alive = true := by
    simp [readings]
  constructor
  · intro hfree
    refine ⟨w, (halive w).mp hmem, hfree, fun v hv hfull => ?_⟩
    -- Two workers, of which the second does not come before the first.
    have hnot := hleast v ((halive v).mpr hv)
    have hne : v ≠ w := fun heq => hfull (heq ▸ hfree)
    simp only [Before, readings, not_or, not_and, not_lt] at hnot
    obtain hlt | heq := hnot.1.lt_or_eq
    · exact .inl hlt
    · exact .inr ⟨heq, (hnot.2 heq.symm).lt_of_ne hne.symm⟩
  · intro hfirst
    obtain ⟨v, hv, hfree, hbefore⟩ := hfirst
    by_contra hfull
    exact hleast v ((halive v).mpr hv) (hbefore w ((halive w).mp hmem) hfull)

/-- A pinned worker with a free slot, or else the choice between the live ones. -/
theorem selectWorker_cases (tenantId : String) (s : State n) :
    (∃ w, selectWorker (s.readings setup tenantId) = .sticky w ∧
      (s.workers w).alive = true ∧ (s.workers w).Free setup ∧ s.PinnedFree setup tenantId) ∨
    (selectWorker (s.readings setup tenantId) = leastLoaded (s.readings setup tenantId) ∧
      ¬ s.PinnedFree setup tenantId) := by
  have hcapacity (w : Fin n) : 0 < (s.readings setup tenantId).capacity w ↔
      (s.workers w).Free setup := by
    simp [readings, Worker.Free]
  unfold selectWorker
  cases hpinned : (s.readings setup tenantId).pinned with
  | none =>
    refine .inr ⟨rfl, fun h => ?_⟩
    obtain ⟨w, hw, -⟩ := h
    cases hpinned.symm.trans hw
  | some w =>
    by_cases hfree : (s.workers w).alive = true ∧ (s.workers w).Free setup
    · refine .inl ⟨w, ?_, hfree.1, hfree.2, w, hpinned, hfree⟩
      have hroute : ((s.readings setup tenantId).alive w && 0 < (s.readings setup tenantId).capacity w) =
          true := by
        simp [hcapacity, hfree.2, show (s.readings setup tenantId).alive w = true from hfree.1]
      simp only [hroute, if_true]
    · refine .inr ⟨?_, fun h => ?_⟩
      · have hroute : ¬ ((s.readings setup tenantId).alive w &&
            0 < (s.readings setup tenantId).capacity w) = true := by
          rw [Bool.and_eq_true, decide_eq_true_iff, hcapacity]
          exact hfree
        simp only [hroute]
        rfl
      · obtain ⟨v, hv, hv'⟩ := h
        obtain rfl := Option.some.inj (hpinned.symm.trans hv)
        exact hfree hv'

/-- The send right after the choice. -/
theorem submits_send (task : QueryTask) (w : Fin n) :
    (s.send setup task w).submits task.reply = .returned (.error (.queueFull n)) ↔
      ¬ (s.workers w).hasRoom setup = true := by
  unfold send
  split
  · rename_i hroom
    simp [setSubmit, hroom]
  · rename_i hroom
    simp [setSubmit, hroom]

/-- What a call comes to while some worker is alive. -/
theorem rejects_iff (hs : s.Honest) {call : ReplyId} {task : QueryTask}
    (hdropped : s.dropped = false) (hcall : s.submits call = .admitted task) {v : Fin n}
    (hv : (s.workers v).alive = true) :
    s.Rejects setup call ↔ ¬ (s.PinnedFree setup task.tenantId ∨ s.RoomFirst setup) := by
  obtain rfl : task.reply = call := (hs.balanced.calls call).1 task hcall
  have hselect : s.step setup (.select task.reply (s.readings setup task.tenantId)) =
      some (s.select task (s.readings setup task.tenantId)) := by
    simp [step, hdropped, hcall]
  -- A route leads to a rejection exactly if there is no room.
  have hroute (w : Fin n) (s₁ : State n)
      (hsame : s.select task (s.readings setup task.tenantId) = s₁.setSubmit task.reply (.routed task w))
      (hworkers : s₁.workers = s.workers) (hdropped₁ : s₁.dropped = false) :
      s.Rejects setup task.reply ↔ ¬ (s.workers w).hasRoom setup = true := by
    have hsend : (s₁.setSubmit task.reply (.routed task w)).step setup (.send task.reply) =
        some ((s₁.setSubmit task.reply (.routed task w)).send setup task w) := by
      simp [step, setSubmit, hdropped₁]
    have hresult := @submits_send n setup (s₁.setSubmit task.reply (.routed task w)) task w
    rw [workers_setSubmit, hworkers] at hresult
    rw [← hresult, Rejects]
    constructor
    · intro h
      obtain ⟨task', s₂, s₃, hcall', hstep, hstep', hfull⟩ := h
      obtain rfl := SubmitCall.admitted.inj (hcall.symm.trans hcall')
      obtain rfl := Option.some.inj ((hselect.trans (congrArg some hsame)).symm.trans hstep)
      obtain rfl := Option.some.inj (hsend.symm.trans hstep')
      exact hfull
    · intro hfull
      exact ⟨task, _, _, hcall, hselect.trans (congrArg some hsame), hsend, hfull⟩
  obtain ⟨w, hsticky, halive, hfree, hpinned⟩ | ⟨hleast, hpinned⟩ :=
    @selectWorker_cases n setup task.tenantId s
  · have hsame : s.select task (s.readings setup task.tenantId) =
        s.setSubmit task.reply (.routed task w) := by
      rw [select, hsticky]
    rw [hroute w s hsame rfl hdropped, (hs.flagged w).hasRoom_iff halive]
    exact iff_of_false (fun h => h hfree) (fun h => h (.inl hpinned))
  · cases hmin : minByKey (s.readings setup task.tenantId).inFlight
        ((List.finRange n).filter (s.readings setup task.tenantId).alive) with
    | none =>
      have hmem : v ∈ (List.finRange n).filter (s.readings setup task.tenantId).alive := by
        simpa [readings] using hv
      rw [minByKey_eq_none.mp hmin] at hmem
      cases hmem
    | some w =>
      have halive : (s.workers w).alive = true := by
        have hmem := (not_before_of_minByKey ((List.pairwise_lt_finRange n).filter _) hmin).1
        simpa [readings] using hmem
      have hsame : s.select task (s.readings setup task.tenantId) =
          {s with tenantAffinity := s.tenantAffinity.insert task.tenantId w}.setSubmit task.reply
            (.routed task w) := by
        rw [select, hleast, leastLoaded, hmin]
      rw [hroute w _ hsame rfl hdropped, (hs.flagged w).hasRoom_iff halive,
        free_iff_roomFirst hmin, not_or, and_iff_right hpinned]

/-- **Only a full pool rejects in exactly the states that are routable.** -/
theorem rejectsOnlyFull_iff (hs : s.Honest) : s.RejectsOnlyFull setup ↔ s.Routable setup := by
  constructor
  · intro h hdropped call task hcall hroom
    obtain ⟨w, hserves, hfree⟩ := hroom
    by_contra hneither
    exact h call ((rejects_iff hs hdropped hcall ((hs.flagged w).alive_of_serves hserves)).mpr
      hneither) w hserves hfree
  · intro h call hrejects w hserves hfree
    have hturned := hrejects
    obtain ⟨task, s₁, s₂, hcall, hselect, -⟩ := hrejects
    have hdropped : s.dropped = false := by
      simp only [step] at hselect
      split at hselect
      · assumption
      · cases hselect
    exact (rejects_iff hs hdropped hcall ((hs.flagged w).alive_of_serves hserves)).mp hturned
      (h hdropped call task hcall ⟨w, hserves, hfree⟩)

/-! ### Runs -/

theorem honest_start : (State.start setup : State n).Honest where
  flagged _ := Worker.flagged_start
  balanced := balanced_start

theorem honest_step {action : Action n} {s' : State n} (hs : s.Honest)
    (hstep : s.step setup action = some s') : s'.Honest := by
  refine ⟨?_, balanced_step hs.balanced hstep⟩
  cases action with
  | worker w choice =>
    obtain ⟨worker, effect, hturn, rfl⟩ := step_worker hstep
    rw [workers_apply, forall_setWorker]
    exact ⟨hturn.flagged (hs.flagged w), fun j _ => hs.flagged j⟩
  | send call =>
    obtain ⟨task, w, -, rfl⟩ := step_send hstep
    unfold send
    split
    · rw [workers_setSubmit, forall_setWorker]
      exact ⟨hs.flagged w, fun j _ => hs.flagged j⟩
    · exact hs.flagged
  | tick | submit | select | refresh | shutdown | drain | drop =>
    rw [(step_frame hstep (by simp)).workers (by simp)]
    exact hs.flagged

end State

/-- **In every run, no task is turned away while a worker that serves has a free slot, in exactly
the runs through routable states.** -/
theorem rejects_only_full_iff {n : Nat} {setup : Setup} {actions : List (Action n)} {s : State n}
    (hrun : (pool setup n).Runs actions s) :
    (pool setup n).Along (State.RejectsOnlyFull setup) actions (pool setup n).start ↔
      (pool setup n).Along (State.Routable setup) actions (pool setup n).start :=
  Machine.along_congr (fun _ _ _ => State.honest_step) (fun _ => State.rejectsOnlyFull_iff)
    State.honest_start hrun

/-! ### A task that is turned away -/

/-- Queues of one task each. -/
def shortSetup : Setup := {demoSetup with poolConfig := ⟨1, 30⟩}

/-- Two workers, and a tenant that submits a second task before the first is taken. -/
def crowdedRun : List (Action 2) :=
  [.submit demoTask, .select 0 ((State.start shortSetup).readings shortSetup "acme"), .send 0,
    .submit {demoTask with reply := 1}]

theorem rejects_only_full_iff_crowded :
    (pool shortSetup 2).Along (State.RejectsOnlyFull shortSetup) crowdedRun
        (pool shortSetup 2).start ↔
      (pool shortSetup 2).Along (State.Routable shortSetup) crowdedRun (pool shortSetup 2).start := by
  have hruns : ∃ s, (pool shortSetup 2).Runs crowdedRun s := ⟨_, rfl⟩
  obtain ⟨s, hrun⟩ := hruns
  exact rejects_only_full_iff hrun

/-- **Sent once more to the worker whose queue is full, while the other one has nothing to do.** -/
theorem rejected_beside_an_idle_worker :
    ¬ ∀ (n : Nat) (setup : Setup) (actions : List (Action n)) (s : State n),
      (pool setup n).Runs actions s →
        (pool setup n).Along (State.RejectsOnlyFull setup) actions (pool setup n).start := by
  intro h
  have hruns : ∃ s, (pool shortSetup 2).Runs crowdedRun s ∧ s.Rejects shortSetup 1 ∧
      (s.workers 1).phase = .starting ∧ (s.workers 1).queue = [] :=
    ⟨_, rfl, ⟨_, _, _, rfl, rfl, rfl, rfl⟩, rfl, rfl⟩
  obtain ⟨s, hrun, hrejects, hphase, hqueue⟩ := hruns
  have hengine : ∃ engine, shortSetup.engine = .ok engine := ⟨_, rfl⟩
  refine (h 2 shortSetup crowdedRun s hrun).last hrun 1 hrejects 1 ?_ ?_
  · rw [Worker.Serves, hphase]
    exact hengine
  · rw [Worker.Free, hqueue]
    exact Nat.zero_lt_one

end Griot.Pool
