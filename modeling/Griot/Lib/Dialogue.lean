/-! Programs that ask questions.

A program asks one question after another, each chosen by the answers so far, and ends in
a result. Who answers keeps a state. What every answer preserves holds of every exchange of
every program, next to what was exchanged before it (`exchange_rule`); and if two servers
answer alike, from related states, what a program asks, and stay related, it does not tell
them apart (`run_unwinds`). -/
namespace Griot.Lib

/-- A program over questions of `Q`, each with its own type of answers. -/
inductive Dialogue {Q : Type} (A : Q → Type) (ρ : Type) where
  | done (result : ρ)
  | ask (question : Q) (next : A question → Dialogue A ρ)

/-- A question and its answer. -/
structure Exchange {Q : Type} (A : Q → Type) where
  question : Q
  answer : A question

structure Server {Q : Type} (A : Q → Type) (σ : Type) where
  reply : (q : Q) → σ → A q × σ

namespace Server
variable {Q : Type} {A : Q → Type} {σ σ' ρ : Type} (server : Server A σ)

def exchange (q : Q) (s : σ) : Exchange A := ⟨q, (server.reply q s).1⟩

def run : Dialogue A ρ → σ → ρ
  | .done result, _ => result
  | .ask q next, s => run (next (server.reply q s).1) (server.reply q s).2

/-- What is exchanged in a run, in order. -/
def transcript : Dialogue A ρ → σ → List (Exchange A)
  | .done _, _ => []
  | .ask q next, s =>
    server.exchange q s :: transcript (next (server.reply q s).1) (server.reply q s).2

variable {server}

theorem transcript_ask {q : Q} {next : A q → Dialogue A ρ} {s s' : σ} {a : A q}
    (h : server.reply q s = (a, s')) :
    server.transcript (.ask q next) s = ⟨q, a⟩ :: server.transcript (next a) s' := by
  rw [transcript, exchange, h]

/-- Every exchange is a reply. -/
theorem mem_transcript {program : Dialogue A ρ} {s : σ} {e : Exchange A}
    (h : e ∈ server.transcript program s) : ∃ q s', e = server.exchange q s' := by
  induction program generalizing s with
  | done result => cases h
  | ask q next ih =>
    obtain rfl | hrest := List.mem_cons.mp h
    · exact ⟨q, s, rfl⟩
    · exact ih _ hrest

/-- **What every answer preserves** gives, for every program, a property of every exchange and
of those before it. -/
theorem exchange_rule {I : List (Exchange A) → σ → Prop} {P : List (Exchange A) → Exchange A → Prop}
    (hstep : ∀ past q s, I past s → P past (server.exchange q s) ∧
      I (past ++ [server.exchange q s]) (server.reply q s).2)
    {program : Dialogue A ρ} {past before after : List (Exchange A)} {e : Exchange A} {s : σ}
    (hs : I past s) (h : server.transcript program s = before ++ e :: after) :
    P (past ++ before) e := by
  induction program generalizing past before s with
  | done result => cases before <;> cases h
  | ask q next ih =>
    obtain ⟨hp, hi⟩ := hstep past q s hs
    cases before with
    | nil =>
      obtain ⟨rfl, -⟩ := List.cons.inj h
      rw [List.append_nil]
      exact hp
    | cons first before =>
      obtain ⟨rfl, hrest⟩ := List.cons.inj h
      have htail := ih _ hi hrest
      rwa [List.append_assoc] at htail

/-- **Servers that answer alike** what a program asks, and stay related, give it the same result,
by the same exchanges. -/
theorem run_unwinds {server' : Server A σ'} {R : σ → σ' → Prop} {alike : Q → Prop}
    (hstep : ∀ q s s', alike q → R s s' → (server.reply q s).1 = (server'.reply q s').1 ∧
      R (server.reply q s).2 (server'.reply q s').2)
    (program : Dialogue A ρ) {s : σ} {s' : σ'} (hs : R s s')
    (hasked : ∀ e ∈ server.transcript program s, alike e.question) :
    server.run program s = server'.run program s' ∧
      server.transcript program s = server'.transcript program s' := by
  induction program generalizing s s' with
  | done result => exact ⟨rfl, rfl⟩
  | ask q next ih =>
    rw [transcript, List.forall_mem_cons] at hasked
    obtain ⟨hfirst, hrest⟩ := hasked
    obtain ⟨hanswer, hnext⟩ := hstep q s s' hfirst hs
    have hexchange : server.exchange q s = server'.exchange q s' := by
      rw [exchange, exchange, hanswer]
    obtain ⟨hrun, htranscript⟩ := ih (server.reply q s).1 hnext hrest
    rw [hanswer] at hrun htranscript
    constructor
    · rw [run, run, hanswer, hrun]
    · rw [transcript, transcript, hexchange, hanswer, htranscript]

end Server
end Griot.Lib
