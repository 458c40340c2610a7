import Griot.Engine.Catalog
import Griot.Governed.Noise

/-! Queries read governed rows, and nothing else.

Whatever a statement does, every table it scans was handed out for a name, under a policy
that was resolved for that name and the caller and that lets the caller in; and what a
scan drains to are the governed rows of the bound table (`query_governed`). There is no
path around the policy: not by a scan before the name is resolved, nor by one of a table
that was denied. -/
namespace Griot

open Lib Physical

variable (around : Surroundings) (griot : GriotEngine) (caller : Caller)

/-- How a table came to be handed out, after some exchanges. -/
structure Granted (past : List (Exchange Answer)) (table : Nat) (name : String)
    (policy : ResolvedPolicy) (inner : TableProvider) : Prop where
  asked : ⟨.table schemaName name, .ok (some table)⟩ ∈ past
  resolved : ∃ call, griot.source call name caller = .ok policy ∧ griot.binding call name = .ok inner
  allowed : policy.decision = .allow

/-- Every table in the session was granted. -/
def AllGranted (past : List (Exchange Answer)) (s : Session) : Prop :=
  ∀ i table, s.tables[i]? = some table → ∃ name policy inner,
    Granted griot caller past i name policy inner ∧ table = .new around.serde inner policy

/-- An answered scan is one of a granted table. -/
def ScansGranted (past : List (Exchange Answer)) (e : Exchange Answer) : Prop :=
  ∀ i projection limit view, e = ⟨.scan i projection limit, some (.ok view)⟩ →
    ∃ name policy inner, Granted griot caller past i name policy inner ∧ ∃ call plan,
      (ContractTableProvider.new around.serde inner policy).scan around.serde projection limit =
        .ok plan ∧ view = PlanView.ofPlan around.engine (around.draws call) plan

variable {around griot caller}

theorem Granted.mono {past past' : List (Exchange Answer)} (hsub : past ⊆ past') {table : Nat}
    {name : String} {policy : ResolvedPolicy} {inner : TableProvider}
    (h : Granted griot caller past table name policy inner) :
    Granted griot caller past' table name policy inner :=
  ⟨hsub h.asked, h.resolved, h.allowed⟩

theorem AllGranted.mono {past past' : List (Exchange Answer)} {s s' : Session}
    (hsub : past ⊆ past') (htables : s'.tables = s.tables) (h : AllGranted around griot caller past s) :
    AllGranted around griot caller past' s' := by
  intro i table hi
  rw [htables] at hi
  obtain ⟨name, policy, inner, hgranted, rfl⟩ := h i table hi
  exact ⟨name, policy, inner, hgranted.mono hsub, rfl⟩

/-- **Naming a dataset**: the one table that is added is granted. -/
theorem AllGranted.table {past : List (Exchange Answer)} {s : Session}
    (h : AllGranted around griot caller past s) (schema name : String) :
    AllGranted around griot caller
      (past ++ [(session around (griot.catalog caller)).exchange (.table schema name) s])
      (replyTable around (griot.catalog caller) schema name s).2 := by
  have hsub : past ⊆ past ++ [(session around (griot.catalog caller)).exchange (.table schema name) s] :=
    List.subset_append_left ..
  by_cases hschema : schema = schemaName
  · subst hschema
    have hexchange : (session around (griot.catalog caller)).exchange (.table schemaName name) s =
      ⟨.table schemaName name, (replyTable around (griot.catalog caller) schemaName name s).1⟩ := rfl
    have hprovider : (griot.catalog caller).schema schemaName =
      some ⟨griot.source, griot.binding, caller⟩ := rfl
    cases htable : GriotSchemaProvider.table ⟨griot.source, griot.binding, caller⟩ around.serde
        s.calls name with
    | error e =>
      have hreply : replyTable around (griot.catalog caller) schemaName name s =
          (.error e, {s with calls := s.calls + 1}) := by
        simp only [replyTable, hprovider, htable]
      rw [hreply]
      exact h.mono hsub rfl
    | ok result =>
      obtain ⟨policy, inner, hsource, hallow, hbinding, rfl⟩ := (GriotSchemaProvider.table_eq_ok _).mp htable
      have hreply : replyTable around (griot.catalog caller) schemaName name s =
          (.ok (some s.tables.length), ⟨s.calls + 1, s.tables ++ [.new around.serde inner policy]⟩) := by
        simp only [replyTable, hprovider, htable]
      rw [hexchange, hreply]
      rw [hexchange, hreply] at hsub
      intro i table hi
      by_cases hlt : i < s.tables.length
      · rw [List.getElem?_append_left hlt] at hi
        obtain ⟨name', policy', inner', hgranted, rfl⟩ := h i table hi
        exact ⟨name', policy', inner', hgranted.mono hsub, rfl⟩
      · rw [List.getElem?_append_right (by omega), List.getElem?_singleton] at hi
        split at hi
        · rename_i hzero
          obtain rfl : i = s.tables.length := by omega
          obtain rfl := Option.some.inj hi
          exact ⟨name, policy, inner, ⟨by simp, ⟨s.calls, hsource, hbinding⟩, hallow⟩, rfl⟩
        · cases hi
  · have hnone : (griot.catalog caller).schema schema = none := if_neg hschema
    have hreply : replyTable around (griot.catalog caller) schema name s = (.ok none, s) := by
      simp only [replyTable, hnone]
    rw [hreply]
    exact h.mono hsub rfl

/-- **One exchange** keeps every table granted, and a scan it answers is of a granted table. -/
theorem exchange_granted (past : List (Exchange Answer)) (q : Question) (s : Session)
    (h : AllGranted around griot caller past s) :
    ScansGranted around griot caller past ((session around (griot.catalog caller)).exchange q s) ∧
      AllGranted around griot caller (past ++ [(session around (griot.catalog caller)).exchange q s])
        ((session around (griot.catalog caller)).reply q s).2 := by
  have hsub : past ⊆ past ++ [(session around (griot.catalog caller)).exchange q s] :=
    List.subset_append_left ..
  cases q with
  | table schema name =>
    refine ⟨?_, h.table schema name⟩
    intro i projection limit view he
    cases congrArg Exchange.question he
  | scan i projection limit =>
    have hreply : (session around (griot.catalog caller)).reply (.scan i projection limit) s =
      replyScan around i projection limit s := rfl
    have hexchange : (session around (griot.catalog caller)).exchange (.scan i projection limit) s =
      ⟨.scan i projection limit, (replyScan around i projection limit s).1⟩ := rfl
    cases htable : s.tables[i]? with
    | none =>
      have hscan : replyScan around i projection limit s = (none, s) := by
        simp only [replyScan, htable]
      rw [hreply, hscan]
      refine ⟨?_, h.mono hsub rfl⟩
      rw [hexchange, hscan]
      intro i' projection' limit' view he
      cases he
    | some provider =>
      obtain ⟨name, policy, inner, hgranted, rfl⟩ := h i provider htable
      have hscan : replyScan around i projection limit s =
          (some (((ContractTableProvider.new around.serde inner policy).scan around.serde projection
            limit).map (PlanView.ofPlan around.engine (around.draws s.calls))),
              {s with calls := s.calls + 1}) := by
        simp only [replyScan, htable]
      rw [hreply, hscan]
      refine ⟨?_, h.mono hsub rfl⟩
      rw [hexchange, hscan]
      intro i' projection' limit' view he
      cases hplan : (ContractTableProvider.new around.serde inner policy).scan around.serde projection
          limit with
      | error e =>
        rw [hplan] at he
        cases he
      | ok plan =>
        rw [hplan] at he
        cases he
        exact ⟨name, policy, inner, hgranted, s.calls, plan, hplan, rfl⟩
  | schemaNames | hasSchema | tableNames | tableExist | tableSchema =>
    refine ⟨?_, h.mono hsub rfl⟩
    intro i projection limit view he
    cases congrArg Exchange.question he

/-- **A whole run**: an answered scan is of a table that was granted before. -/
theorem transcript_granted {sql : SessionContext} {statement : String}
    {before after : List (Exchange Answer)} {e : Exchange Answer}
    (h : griot.transcript around sql statement caller = before ++ e :: after) :
    ScansGranted around griot caller before e := by
  have hstart : AllGranted around griot caller [] Session.start := fun i table hi => by cases hi
  exact Server.exchange_rule exchange_granted hstart h

/-- **Queries read governed rows**: whatever a scan of a statement drains to are the governed rows
of a table that was bound to a name the statement had asked for, under a policy resolved for that
name and the caller, and which lets the caller in. -/
theorem query_governed {sql : SessionContext} {statement : String}
    {before after : List (Exchange Answer)}
    {table : Nat} {sel : Selection} {view : PlanView}
    (h : griot.transcript around sql statement caller =
      before ++ ⟨.scan table sel.projection sel.limit, some (.ok view)⟩ :: after)
    (hpolicies : ∀ call name p, griot.source call name caller = .ok p → p.decision = .allow →
      around.serde.fromSlice (around.serde.toVec p.toBundleValue) = some p.toBundleValue ∧ p.Doubles)
    (htables : ∀ call name inner raw, griot.binding call name = .ok inner → inner.scan = .ok raw →
      ∀ draws batch, .ok batch ∈ raw.execute around.engine draws → batch.schema = raw.schema)
    {out : List RecordBatch} (hout : collect view.stream = .ok out) :
    ∃ name policy inner raw draws, Granted griot caller before table name policy inner ∧
      inner.scan = .ok raw ∧ RecordBatch.batching.allRows out =
        governedStream around.engine policy raw.schema draws sel (raw.execute around.engine draws) := by
  obtain ⟨name, policy, inner, hgranted, call, plan, hplan, rfl⟩ :=
    transcript_granted h table sel.projection sel.limit view rfl
  obtain ⟨resolveCall, hsource, hbinding⟩ := hgranted.resolved
  obtain ⟨hserde, hdouble⟩ := hpolicies resolveCall name policy hsource hgranted.allowed
  obtain ⟨raw, hraw, hrows⟩ := scan_drains hserde hdouble
    (fun raw hraw => htables resolveCall name inner raw hbinding hraw (around.draws call)) hplan hout
  exact ⟨name, policy, inner, raw, around.draws call, hgranted, hraw, hrows⟩

/-! ### A query of the staff -/

/-- One dataset, of which every caller sees the last characters of the addresses of those who are
active. -/
def staffEngine (batch : RecordBatch) : GriotEngine where
  source := fun _ name _ => if name = "staff" then .ok employeePolicy else .error (.notFound name)
  binding := fun _ name =>
    if name = "staff" then .ok (.memory employeeSchema [batch]) else .error (.notFound name)

def staffSurroundings : Surroundings :=
  ⟨columnEngine, employeeSerde, fun _ _ _ _ => (.fin 0, .fin 0)⟩

def analyst : Caller := .new "user:bob" "analytics" "globex"

/-- A statement that reads the first column. -/
def readAddresses : SessionContext := fun _ =>
  .ask (.table schemaName "staff") fun (answer : Except CatalogError (Option Nat)) => match answer with
    | .ok (some table) => .ask (.scan table (some [0]) none)
        fun (answer : Option (Except DataFusionError PlanView)) => match answer with
          | some (.ok view) => .done (collect view.stream)
          | _ => .done (.error (.engine "no scan"))
    | _ => .done (.error (.engine "no table"))

theorem staff_policies {call : Nat} {name : String} {p : ResolvedPolicy}
    (h : (staffEngine employees).source call name analyst = .ok p) :
    employeeSerde.fromSlice (employeeSerde.toVec p.toBundleValue) = some p.toBundleValue ∧ p.Doubles := by
  simp only [staffEngine] at h
  split at h
  · obtain rfl := Except.ok.inj h
    exact ⟨employeeSerde_reads, fun column d hd => by cases hd⟩
  · cases h

theorem staff_tables {call : Nat} {name : String} {inner : TableProvider} {raw : ExecutionPlan}
    (hbinding : (staffEngine employees).binding call name = .ok inner) (hraw : inner.scan = .ok raw)
    (draws : Nat → Nat → Nat → LaplaceNoiseExec.Draw) {batch : RecordBatch}
    (h : .ok batch ∈ raw.execute columnEngine draws) : batch.schema = raw.schema := by
  simp only [staffEngine] at hbinding
  split at hbinding
  · obtain rfl := Except.ok.inj hbinding
    obtain rfl := Except.ok.inj hraw
    rw [show batch = employees by simpa [ExecutionPlan.execute] using h]
    rfl
  · cases hbinding

/-- What it exchanges where the table can be scanned. -/
theorem readAddresses_transcript {around : Surroundings} {griot : GriotEngine} {caller : Caller}
    {p : ResolvedPolicy} {inner : TableProvider} {plan : ExecutionPlan}
    (hsource : griot.source 0 "staff" caller = .ok p) (hallow : p.decision = .allow)
    (hbinding : griot.binding 0 "staff" = .ok inner)
    (hplan : (ContractTableProvider.new around.serde inner p).scan around.serde (some [0]) none =
      .ok plan) (statement : String) :
    griot.transcript around readAddresses statement caller =
      [⟨.table schemaName "staff", .ok (some 0)⟩] ++ ⟨.scan 0 (some [0]) none,
        some (.ok (PlanView.ofPlan around.engine (around.draws 1) plan))⟩ :: [] := by
  have htable : GriotSchemaProvider.table ⟨griot.source, griot.binding, caller⟩ around.serde 0 "staff" =
      .ok (some (.new around.serde inner p)) :=
    (GriotSchemaProvider.table_eq_ok _).mpr ⟨p, inner, hsource, hallow, hbinding, rfl⟩
  have hprovider : (griot.catalog caller).schema schemaName =
    some ⟨griot.source, griot.binding, caller⟩ := rfl
  have hnamed : (session around (griot.catalog caller)).reply (.table schemaName "staff") Session.start =
      (.ok (some 0), ⟨1, [.new around.serde inner p]⟩) := by
    show replyTable around (griot.catalog caller) schemaName "staff" Session.start = _
    rw [replyTable, hprovider]
    simp only [Session.start, htable]
    rfl
  have hscan : (session around (griot.catalog caller)).reply (.scan 0 (some [0]) none)
        ⟨1, [.new around.serde inner p]⟩ =
      (some (.ok (PlanView.ofPlan around.engine (around.draws 1) plan)),
        ⟨2, [.new around.serde inner p]⟩) := by
    show (some (Except.map _ (ContractTableProvider.scan _ _ _ _)), _) = _
    rw [hplan]
    rfl
  exact (Server.transcript_ask hnamed).trans (congrArg (List.cons _) (Server.transcript_ask hscan))

/-- The scan of the first column under a policy that can be enforced, however it travels. -/
theorem employees_scan {serde : SerdeJson} {p : ResolvedPolicy} (hdp : p.hasDp = false)
    (hid : p.contractId ≠ "") (henforceable : ∀ policies, Enforceable columnEngine p employeeSchema policies)
    (hserde : serde.fromSlice (serde.toVec p.toBundleValue) = some p.toBundleValue) : ∃ plan out,
    (ContractTableProvider.new serde (.memory employeeSchema [employees]) p).scan serde (some [0]) none =
        .ok plan ∧
      collect (plan.execute columnEngine fun _ _ _ => (.fin 0, .fin 0)) = .ok out := by
  have hin : Selection.InRange ⟨some [0], none⟩ employeeSchema := by
    intro indices hindices
    obtain rfl := Option.some.inj hindices
    decide
  exact employees_drains columnEngine_typeOnly hdp hid henforceable hserde hin

/-- The first column of the one who is active, masked. -/
theorem query_governed_staff : ∃ view out,
    (staffEngine employees).transcript staffSurroundings readAddresses "SELECT email FROM staff" analyst =
      [⟨.table schemaName "staff", .ok (some 0)⟩] ++ ⟨.scan 0 (some [0]) none, some (.ok view)⟩ :: [] ∧
    collect view.stream = .ok out ∧ ∃ name policy inner raw draws,
      Granted (staffEngine employees) analyst [⟨.table schemaName "staff", .ok (some 0)⟩] 0 name policy
        inner ∧ inner.scan = .ok raw ∧ RecordBatch.batching.allRows out =
          governedStream columnEngine policy raw.schema draws ⟨some [0], none⟩
            (raw.execute columnEngine draws) := by
  obtain ⟨plan, out, hplan, hout⟩ := employees_scan (p := employeePolicy) rfl (by decide)
    employees_enforceable employeeSerde_reads
  have htranscript := @readAddresses_transcript staffSurroundings (staffEngine employees) analyst _ _
    _ rfl rfl rfl hplan "SELECT email FROM staff"
  exact ⟨_, out, htranscript, hout, @query_governed staffSurroundings _ _ _ _ _ _ _
    ⟨some [0], none⟩ _ htranscript (fun _ _ _ hp _ => staff_policies hp)
    (fun _ _ _ _ hbinding hraw draws _ => staff_tables hbinding hraw draws) _ hout⟩

end Griot
