import Griot.Physical.Plan

/-! The operators read back the policy.

A policy is serialised to one document, and each operator reads its own member of
it: the row filter as it stands, the masks other than `noop` by their tokens. So
for every column the masking operator applies what the policy says. -/
namespace Griot

open Lib Physical
open Logical (MaskPolicy)

/-- The masking operator's name for an action. -/
def MaskAction.toPolicy : MaskAction → MaskPolicy
  | redact => .redact
  | hashSha256 => .hashSha256
  | tokenize => .tokenize
  | partialMask => .partialMask
  | null => .null
  | noop => .noop

theorem MaskAction.ofToken?_asBundleStr (action : MaskAction) :
    MaskPolicy.ofToken? action.asBundleStr = some action.toPolicy := by
  cases action <;> rfl

namespace ResolvedPolicy
variable (p : ResolvedPolicy)

/-- What the policy does to a column; nothing to one it does not name. -/
def actionFor (column : String) : MaskAction := (p.columnMasks.lookup column).getD .noop

/-- The masks the bundle carries. -/
def maskTokens : List (String × String) :=
  (p.columnMasks.entries.filter fun e => e.2 ≠ .noop).map fun e => (e.1, e.2.asBundleStr)

theorem rowFilter_ofJson :
    RowFilterBundleData.ofJson p.toBundleValue = some ⟨p.rowFilter⟩ := by
  cases hfilter : p.rowFilter <;>
    simp [RowFilterBundleData.ofJson, toBundleValue, Json.fits, Json.fieldOr, Json.field,
      Json.valuesOf, Json.asOption, Json.asString, guard, hfilter]

/-- Members written value by value are read value by value. -/
theorem mapM_members {α β : Type} (write : α → Json) (read : Json → Option β) (g : α → β)
    {members : List (String × α)} (h : ∀ e ∈ members, read (write e.2) = some (g e.2)) :
    ((members.map fun e => (e.1, write e.2)).mapM fun m : String × Json =>
      (read m.2).map (m.1, ·)) = some (members.map fun e => (e.1, g e.2)) := by
  induction members with
  | nil => rfl
  | cons e members ih =>
    rw [List.map_cons, List.mapM_cons, h e (List.mem_cons_self ..),
      ih fun e he => h e (List.mem_cons_of_mem _ he)]
    rfl

/-- One member that cannot be read and nothing is. -/
theorem mapM_members_none {α β : Type} (write : α → Json) (read : Json → Option β)
    {members : List (String × α)} {e : String × α} (he : e ∈ members)
    (h : read (write e.2) = none) :
    ((members.map fun e => (e.1, write e.2)).mapM fun m : String × Json =>
      (read m.2).map (m.1, ·)) = none := by
  induction members with
  | nil => cases he
  | cons e' members ih =>
    rw [List.map_cons, List.mapM_cons]
    cases he with
    | head => rw [h]; rfl
    | tail _ he =>
      rw [ih he]
      cases read (write e'.2) <;> rfl

theorem masking_ofJson :
    MaskingBundleData.ofJson p.toBundleValue = some ⟨.ofList p.maskTokens⟩ := by
  have htokens : p.columnMasking = p.maskTokens.map fun e => (e.1, Json.string e.2) := by
    rw [columnMasking, maskTokens, List.map_map]
    rfl
  have hmap : (Json.object p.columnMasking).asMap Json.asString = some (.ofList p.maskTokens) := by
    rw [Json.asMap, htokens, mapM_members Json.string Json.asString id fun _ _ => rfl]
    simp
  simp [MaskingBundleData.ofJson, toBundleValue, Json.fits, Json.fieldOr, Json.field, Json.valuesOf,
    guard, hmap]

theorem lookup_maskTokens {column token : String} :
    (Dict.ofList p.maskTokens).lookup column = some token ↔ ∃ action,
      p.columnMasks.lookup column = some action ∧ action ≠ .noop ∧ token = action.asBundleStr := by
  have hnodup : (p.maskTokens.map Prod.fst).Nodup := by
    rw [maskTokens, List.map_map]
    exact p.columnMasks.entries_nodup.sublist (List.filter_sublist.map _)
  rw [Dict.lookup_ofList _ hnodup]
  simp only [maskTokens, List.mem_map, List.mem_filter, Prod.exists, Prod.mk.injEq,
    Dict.mem_entries, decide_eq_true_eq]
  constructor
  · intro ⟨_, action, ⟨hlookup, hne⟩, heq, heq'⟩
    subst heq
    subst heq'
    exact ⟨action, hlookup, hne, rfl⟩
  · intro ⟨action, hlookup, hne, heq⟩
    subst heq
    exact ⟨column, action, ⟨hlookup, hne⟩, rfl, rfl⟩

/-! ### Noise parameters -/

theorem asF64_numberValue {x : F64} (hdouble : x.IsDouble) :
    (numberValue x).asF64 = if x.isFinite then some x else none := by
  cases x with
  | fin q =>
    show Json.asF64.finite (F64.round q) = some (.fin q)
    rw [hdouble q rfl]
    rfl
  | negZero => rfl
  | inf negative => rfl
  | nan => rfl

/-- The parameters of every column are doubles. -/
def Doubles : Prop := ∀ column d, p.dpColumns.lookup column = some d →
  d.epsilon.IsDouble ∧ d.sensitivity.IsDouble

/-- The parameters of every column are finite. -/
def FiniteNoise : Prop := ∀ column d, p.dpColumns.lookup column = some d →
  d.epsilon.isFinite = true ∧ d.sensitivity.isFinite = true

/-- The member of a column. -/
def noiseValue (d : DpParam) : Json :=
  .object [("epsilon", numberValue d.epsilon), ("sensitivity", numberValue d.sensitivity)]

theorem dpColumn_ofJson {d : DpParam} (hdouble : d.epsilon.IsDouble ∧ d.sensitivity.IsDouble) :
    DpColumnConfig.ofJson (noiseValue d) =
      if d.epsilon.isFinite && d.sensitivity.isFinite then some ⟨d.sensitivity, d.epsilon⟩
      else none := by
  have hfields : DpColumnConfig.ofJson (noiseValue d) = (do
        let sensitivity ← (numberValue d.sensitivity).asF64
        let epsilon ← (numberValue d.epsilon).asF64
        return ⟨sensitivity, epsilon⟩) := rfl
  rw [hfields, asF64_numberValue hdouble.1, asF64_numberValue hdouble.2]
  cases d.epsilon.isFinite <;> cases d.sensitivity.isFinite <;> rfl

theorem dp_ofJson_eq :
    DpBundleData.ofJson p.toBundleValue =
      ((Json.object p.dpValue).asMap DpColumnConfig.ofJson).map DpBundleData.mk := by
  cases hmap : (Json.object p.dpValue).asMap DpColumnConfig.ofJson <;>
    simp [DpBundleData.ofJson, toBundleValue, Json.fits, Json.fieldOr, Json.field, Json.valuesOf,
      guard, hmap]

/-- Finite parameters are read back, each under its own name. -/
theorem dp_ofJson (hdouble : p.Doubles) (hfinite : p.FiniteNoise) :
    DpBundleData.ofJson p.toBundleValue =
      some ⟨p.dpColumns.map fun d => ⟨d.sensitivity, d.epsilon⟩⟩ := by
  have hread : ∀ e ∈ p.dpColumns.entries, DpColumnConfig.ofJson (noiseValue e.2) =
      some ⟨e.2.sensitivity, e.2.epsilon⟩ := by
    intro e he
    have hlookup := (Dict.mem_entries _).mp he
    obtain ⟨hepsilon, hsensitivity⟩ := hfinite e.1 e.2 hlookup
    rw [dpColumn_ofJson (hdouble e.1 e.2 hlookup), hepsilon, hsensitivity]
    rfl
  have hmembers : p.dpValue = p.dpColumns.entries.map fun e => (e.1, noiseValue e.2) := rfl
  rw [dp_ofJson_eq, Json.asMap, hmembers, mapM_members noiseValue _
    (fun d => ⟨d.sensitivity, d.epsilon⟩) hread, Option.map_some, Option.map_some]
  congr 2
  ext column : 1
  exact p.dpColumns.lookup_ofList_entries
    (fun _ d => (⟨d.sensitivity, d.epsilon⟩ : DpColumnConfig)) column

/-- One parameter that is not finite and nothing is read back. -/
theorem dp_ofJson_none (hdouble : p.Doubles) (hinfinite : ¬ p.FiniteNoise) :
    DpBundleData.ofJson p.toBundleValue = none := by
  unfold FiniteNoise at hinfinite
  push Not at hinfinite
  obtain ⟨column, d, hlookup, hd⟩ := hinfinite
  have hread : DpColumnConfig.ofJson (noiseValue d) = none := by
    rw [dpColumn_ofJson (hdouble column d hlookup)]
    apply if_neg
    rw [Bool.and_eq_true]
    exact fun h => hd h.1 h.2
  have hmembers : p.dpValue = p.dpColumns.entries.map fun e => (e.1, noiseValue e.2) := rfl
  rw [dp_ofJson_eq, Json.asMap, hmembers,
    mapM_members_none noiseValue _ ((Dict.mem_entries _).mpr hlookup) hread]
  rfl

variable {p} {serde : SerdeJson}
  (hserde : serde.fromSlice (serde.toVec p.toBundleValue) = some p.toBundleValue)
include hserde

/-- The row filter operator reads the filter of the policy. -/
theorem parseRowFilter_eq :
    RowFilterExec.parseRowFilter serde (p.toBundleHandle serde) = .ok p.rowFilter := by
  rw [RowFilterExec.parseRowFilter, bundleData_of_document hserde p.rowFilter_ofJson]
  rfl

/-- The masking operator reads the masks other than `noop`, and no others. -/
theorem parseMaskingBundle_exact :
    ∃ policies, MaskingExec.parseMaskingBundle serde (p.toBundleHandle serde) = .ok policies ∧
      ∀ column policy, policies.lookup column = some policy ↔ ∃ action,
        p.columnMasks.lookup column = some action ∧ action ≠ .noop ∧ policy = action.toPolicy := by
  obtain ⟨policies, htraverse, hlookup⟩ := Dict.traverse_ok (f := fun col policyStr =>
      MaskingExec.parsePolicyStr policyStr col)
    (g := fun _ token => (MaskPolicy.ofToken? token).getD .noop) (.ofList p.maskTokens)
    (fun column token htoken => by
      obtain ⟨action, -, -, rfl⟩ := p.lookup_maskTokens.mp htoken
      rw [MaskingExec.parsePolicyStr, action.ofToken?_asBundleStr]
      rfl)
  refine ⟨policies, ?_, ?_⟩
  · rw [MaskingExec.parseMaskingBundle, bundleData_of_document hserde p.masking_ofJson]
    exact htraverse
  · intro column policy
    rw [hlookup, Option.map_eq_some_iff]
    constructor
    · intro h
      obtain ⟨token, htoken, rfl⟩ := h
      obtain ⟨action, haction, hne, rfl⟩ := p.lookup_maskTokens.mp htoken
      exact ⟨action, haction, hne, by rw [action.ofToken?_asBundleStr]; rfl⟩
    · intro h
      obtain ⟨action, haction, hne, rfl⟩ := h
      refine ⟨action.asBundleStr, p.lookup_maskTokens.mpr ⟨action, haction, hne, rfl⟩, ?_⟩
      rw [action.ofToken?_asBundleStr]
      rfl

/-- **The masking operator reads the masks of the policy.** -/
theorem parseMaskingBundle_eq :
    ∃ policies, MaskingExec.parseMaskingBundle serde (p.toBundleHandle serde) = .ok policies ∧
      ∀ column, (policies.lookup column).getD .noop = (p.actionFor column).toPolicy := by
  obtain ⟨policies, hparse, hlookup⟩ := parseMaskingBundle_exact hserde
  refine ⟨policies, hparse, ?_⟩
  intro column
  rw [actionFor]
  cases hpolicy : policies.lookup column with
  | some policy =>
    obtain ⟨action, haction, -, rfl⟩ := (hlookup column policy).mp hpolicy
    rw [haction]
    rfl
  | none =>
    -- Only `noop` masks are left out of the bundle.
    cases haction : p.columnMasks.lookup column with
    | none => rfl
    | some action =>
      by_cases hnoop : action = .noop
      · subst hnoop
        rfl
      · have := (hlookup column action.toPolicy).mpr ⟨action, haction, hnoop, rfl⟩
        exact absurd (hpolicy.symm.trans this) (by simp)

/-- The noise operator reads epsilon and sensitivity, each in its place. -/
theorem parseDpBundle_eq (hdouble : p.Doubles) (hfinite : p.FiniteNoise) :
    LaplaceNoiseExec.parseDpBundle serde (p.toBundleHandle serde) =
      .ok (p.dpColumns.map fun d => (d.epsilon, d.sensitivity)) := by
  rw [LaplaceNoiseExec.parseDpBundle, bundleData_of_document hserde (p.dp_ofJson hdouble hfinite)]
  show Except.ok _ = Except.ok _
  congr 1
  ext column : 1
  simp [Option.map_map, Function.comp_def]

/-- A parameter that is not finite makes the bundle unreadable to the noise operator. -/
theorem parseDpBundle_error (hdouble : p.Doubles) (hinfinite : ¬ p.FiniteNoise) :
    LaplaceNoiseExec.parseDpBundle serde (p.toBundleHandle serde) =
      .error (.contractBundleMalformed ("LaplaceNoiseExec" ++ " bundle JSON parse error")) := by
  rw [LaplaceNoiseExec.parseDpBundle, bundleData_of_unreadable hserde
    (p.dp_ofJson_none hdouble hinfinite)]
  rfl

/-- So the noise operator is not built at all. -/
theorem buildLaplaceNoise_error (hdouble : p.Doubles) (hinfinite : ¬ p.FiniteNoise)
    (tenantId : String) (budget : Budget.PrivacyBudgetTracker) (inner : ExecutionPlan) :
    ∃ e, ExecutionPlan.buildLaplaceNoise serde (p.toBundleHandle serde) tenantId budget inner =
      .error e := by
  rw [ExecutionPlan.buildLaplaceNoise, LaplaceNoiseExec.ofBundle,
    parseDpBundle_error hserde hdouble hinfinite]
  cases ExecutionPlan.requireApproved "LaplaceNoiseExec" inner with
  | error e => exact ⟨e, rfl⟩
  | ok => exact ⟨_, rfl⟩

/-- **The three operators decode what the policy encodes**: exactly the masks other than
`noop`, exactly the row filter, and every column's epsilon and sensitivity, in this order, when
all are finite. When one is not, no noise operator can be built. -/
theorem decode_encode (hdouble : p.Doubles) :
    (∃ policies, MaskingExec.parseMaskingBundle serde (p.toBundleHandle serde) = .ok policies ∧
      ∀ column policy, policies.lookup column = some policy ↔ ∃ action,
        p.columnMasks.lookup column = some action ∧ action ≠ .noop ∧ policy = action.toPolicy) ∧
    RowFilterExec.parseRowFilter serde (p.toBundleHandle serde) = .ok p.rowFilter ∧
    (p.FiniteNoise → LaplaceNoiseExec.parseDpBundle serde (p.toBundleHandle serde) =
      .ok (p.dpColumns.map fun d => (d.epsilon, d.sensitivity))) ∧
    (¬ p.FiniteNoise → ∀ tenantId budget inner, ∃ e,
      ExecutionPlan.buildLaplaceNoise serde (p.toBundleHandle serde) tenantId budget inner =
        .error e) :=
  ⟨parseMaskingBundle_exact hserde, parseRowFilter_eq hserde, parseDpBundle_eq hserde hdouble,
    buildLaplaceNoise_error hserde hdouble⟩

end ResolvedPolicy

/-- A policy with a mask, a filter and a parameter that is not finite. -/
def unboundedNoise : ResolvedPolicy where
  contractId := "c"
  contractVersion := "1"
  tenantId := "acme"
  decision := .allow
  columnMasks := .ofList [("email", .hashSha256), ("name", .noop)]
  rowFilter := some "age > 18"
  dpColumns := .ofList [("salary", ⟨.fin 1, .inf false⟩)]

def unboundedText : String :=
  "\x7b\"column_masking\":\x7b\"email\":\"hash_sha256\"\x7d," ++
  "\"contract_id\":\"c\",\"contract_version\":\"1\"," ++
  "\"dp_columns\":\x7b\"salary\":\x7b\"epsilon\":null,\"sensitivity\":1.0\x7d\x7d," ++
  "\"row_filter\":\"age > 18\"\x7d"

theorem unboundedText_ne : unboundedText ≠ "" := by decide +kernel

def unboundedSerde : SerdeJson := .just unboundedText unboundedNoise.toBundleValue unboundedText_ne

theorem decode_encode_unbounded :
    RowFilterExec.parseRowFilter unboundedSerde (unboundedNoise.toBundleHandle unboundedSerde) =
      .ok (some "age > 18") ∧
    ∀ tenantId budget inner, ∃ e, ExecutionPlan.buildLaplaceNoise unboundedSerde
      (unboundedNoise.toBundleHandle unboundedSerde) tenantId budget inner = .error e := by
  have hserde := SerdeJson.just_roundTrip unboundedText unboundedNoise.toBundleValue unboundedText_ne
  have hlookup : unboundedNoise.dpColumns.lookup "salary" = some ⟨.fin 1, .inf false⟩ := rfl
  have hdouble : unboundedNoise.Doubles := by
    intro column d hd
    obtain ⟨rfl, rfl⟩ : column = "salary" ∧ d = ⟨.fin 1, .inf false⟩ := by
      have hd' : (if column = "salary" then some (⟨.fin 1, .inf false⟩ : DpParam) else none) =
        some d := hd
      split at hd'
      · exact ⟨‹_›, (Option.some.inj hd').symm⟩
      · cases hd'
    constructor
    · intro q hq
      cases hq
    · intro q hq
      obtain rfl := F64.fin.inj hq
      exact F64.round_one
  have hinfinite : ¬ unboundedNoise.FiniteNoise := by
    intro h
    exact absurd (h "salary" _ hlookup).1 (by decide)
  have h := @ResolvedPolicy.decode_encode unboundedNoise unboundedSerde hserde hdouble
  exact ⟨h.2.1, h.2.2.2 hinfinite⟩

end Griot
