import Griot.Lib.Dialogue

/-! Gates in front of a server.

A gate keeps a state of its own that moves with every question. It turns a question away with an
answer, or passes another one on and reads the reply. Behind any gate a server is asked exactly
what is passed, in order, and answers as if it had been asked nothing else
(`exchange_before`). -/
namespace Griot.Lib

/-- What becomes of a question that is to be answered in `α`. -/
inductive Verdict {P : Type} (B : P → Type) (α : Type) where
  | turnedAway (answer : α)
  | passed (question : P) (read : B question → α)

structure Gate {Q P : Type} (A : Q → Type) (B : P → Type) (τ : Type) where
  screen : (q : Q) → τ → Verdict B (A q)
  next : Q → τ → τ

/-- The state of a server that was asked some questions. -/
def Server.after {Q : Type} {A : Q → Type} {σ : Type} (server : Server A σ) : List Q → σ → σ
  | [], s => s
  | q :: qs, s => server.after qs (server.reply q s).2

theorem Server.after_append {Q : Type} {A : Q → Type} {σ : Type} {server : Server A σ}
    (qs qs' : List Q) (s : σ) : server.after (qs ++ qs') s = server.after qs' (server.after qs s) := by
  induction qs generalizing s with
  | nil => rfl
  | cons q qs ih => exact ih _

namespace Gate
variable {Q P : Type} {A : Q → Type} {B : P → Type} {τ σ ρ : Type} (gate : Gate A B τ)

/-- The server behind the gate. -/
def before (server : Server B σ) : Server A (σ × τ) where
  reply q s := match gate.screen q s.2 with
    | .turnedAway answer => (answer, s.1, gate.next q s.2)
    | .passed p read => (read (server.reply p s.1).1, (server.reply p s.1).2, gate.next q s.2)

/-- The gate's state after some exchanges. -/
def after (past : List (Exchange A)) (t : τ) : τ := past.foldl (fun t e => gate.next e.question t) t

/-- What is passed of a question. -/
def pass (q : Q) (t : τ) : List P :=
  match gate.screen q t with
  | .turnedAway _ => []
  | .passed p _ => [p]

/-- What is passed of some exchanges, in order. -/
def passed : List (Exchange A) → τ → List P
  | [], _ => []
  | e :: past, t => gate.pass e.question t ++ passed past (gate.next e.question t)

/-- The answer to a question after some exchanges. -/
def answer (server : Server B σ) (s : σ) (t : τ) (past : List (Exchange A)) (q : Q) : A q :=
  match gate.screen q (gate.after past t) with
  | .turnedAway answer => answer
  | .passed p read => read (server.reply p (server.after (gate.passed past t) s)).1

variable {gate}

section Verdicts
variable {q : Q} {t : τ} {server : Server B σ} {s : σ} {past : List (Exchange A)}

theorem pass_turnedAway {a : A q} (h : gate.screen q t = .turnedAway a) : gate.pass q t = [] := by
  rw [pass, h]

theorem pass_passed {p : P} {read : B p → A q} (h : gate.screen q t = .passed p read) :
    gate.pass q t = [p] := by
  rw [pass, h]

theorem answer_turnedAway {a : A q} (h : gate.screen q (gate.after past t) = .turnedAway a) :
    gate.answer server s t past q = a := by
  rw [answer, h]

theorem answer_passed {p : P} {read : B p → A q}
    (h : gate.screen q (gate.after past t) = .passed p read) :
    gate.answer server s t past q = read (server.reply p (server.after (gate.passed past t) s)).1 := by
  rw [answer, h]

theorem mem_pass {p : P} (h : p ∈ gate.pass q t) : ∃ read, gate.screen q t = .passed p read := by
  cases hadmit : gate.screen q t with
  | turnedAway a =>
    rw [pass_turnedAway hadmit] at h
    cases h
  | passed p' read =>
    rw [pass_passed hadmit, List.mem_singleton] at h
    obtain rfl := h
    exact ⟨read, rfl⟩

end Verdicts

theorem after_concat (past : List (Exchange A)) (e : Exchange A) (t : τ) :
    gate.after (past ++ [e]) t = gate.next e.question (gate.after past t) := by
  rw [after, List.foldl_append]
  rfl

theorem passed_concat (past : List (Exchange A)) (e : Exchange A) (t : τ) :
    gate.passed (past ++ [e]) t = gate.passed past t ++ gate.pass e.question (gate.after past t) := by
  induction past generalizing t with
  | nil => rw [List.nil_append, passed, passed, passed, List.append_nil, List.nil_append]; rfl
  | cons first past ih =>
    rw [List.cons_append, passed, ih, passed, List.append_assoc]
    rfl

/-- A question is passed when its turn comes. -/
theorem mem_passed {past : List (Exchange A)} {t : τ} {p : P} (h : p ∈ gate.passed past t) :
    ∃ earlier e later, past = earlier ++ e :: later ∧
      p ∈ gate.pass e.question (gate.after earlier t) := by
  induction past generalizing t with
  | nil => cases h
  | cons first past ih =>
    obtain hfirst | hrest := List.mem_append.mp h
    · exact ⟨[], first, past, rfl, hfirst⟩
    · obtain ⟨earlier, e, later, rfl, hpass⟩ := ih hrest
      exact ⟨first :: earlier, e, later, rfl, hpass⟩

/-- One question. -/
theorem reply_before (server : Server B σ) (q : Q) (s : σ) (t : τ) :
    ((gate.before server).reply q (s, t)).2 =
      (server.after (gate.pass q t) s, gate.next q t) := by
  show (match gate.screen q t with
    | .turnedAway answer => (answer, s, gate.next q t)
    | .passed p read => (read (server.reply p s).1, (server.reply p s).2, gate.next q t)).2 = _
  rw [pass]
  cases gate.screen q t <;> rfl

/-- **Behind a gate** every answer is the one the gate's state and what was passed give. -/
theorem exchange_before {server : Server B σ} {s : σ} {t : τ} {program : Dialogue A ρ}
    {past later : List (Exchange A)} {e : Exchange A}
    (h : (gate.before server).transcript program (s, t) = past ++ e :: later) :
    e.answer = gate.answer server s t past e.question := by
  let I := fun (past : List (Exchange A)) (st : σ × τ) =>
    st = (server.after (gate.passed past t) s, gate.after past t)
  have hstart : I [] (s, t) := rfl
  refine Server.exchange_rule
    (P := fun past e => e.answer = gate.answer server s t past e.question) ?_ hstart h
  intro past q st hst
  obtain rfl : st = (server.after (gate.passed past t) s, gate.after past t) := hst
  refine ⟨?_, ?_⟩
  · show ((gate.before server).reply q _).1 = gate.answer server s t past q
    show (match gate.screen q (gate.after past t) with
      | .turnedAway answer => (answer, _, _)
      | .passed p read => (read (server.reply p _).1, _, _)).1 = _
    rw [answer]
    cases gate.screen q (gate.after past t) <;> rfl
  · show _ = _
    rw [reply_before, after_concat, passed_concat, Server.after_append]
    rfl

end Gate
end Griot.Lib
