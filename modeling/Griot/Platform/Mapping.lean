import Griot.Platform.Bundle

/-! What a policy says of the bundle it was mapped from.

The owner, the decision and the view of other readers can be read off the
policy. The mapping is meant to let others read only under a template for them;
it does so exactly for callers the purpose gate turns away and for bundles that
have such a template (`failsClosed_iff`). -/
namespace Griot.Platform

open Lib

/-- A file around a bundle; the mapping reads nothing else of it. -/
def unsigned (bundle : CompiledBundle) : SignedBundleFile := ⟨bundle, "", ⟨"", 0, 0⟩⟩

/-- The masks and the row filter of other readers. -/
def nonOwnerView (bundle : CompiledBundle) : Dict String MaskAction × Option String :=
  match nonOwnerTemplate bundle with
  | some t => (masksFromSql t, rowFilterFromSql t)
  | none => (.empty, none)

/-! ### The policy, part by part -/

/-- The mapping reads a file through four things. -/
theorem mapBundleToPolicy_congr {file file' : SignedBundleFile}
    (hmanifest : file'.bundle.manifest = file.bundle.manifest)
    (howner : file'.ownerTenant = file.ownerTenant)
    (hpurposes : allowedPurposes file'.bundle = allowedPurposes file.bundle)
    (hview : nonOwnerView file'.bundle = nonOwnerView file.bundle) (caller : Caller) :
    mapBundleToPolicy file' caller = mapBundleToPolicy file caller := by
  have hgate : purposeGate file'.bundle caller = purposeGate file.bundle caller := by
    rw [purposeGate, purposeGate, hpurposes]
  unfold mapBundleToPolicy
  rw [hmanifest, howner, hgate]
  cases purposeGate file.bundle caller with
  | some reason => rfl
  | none =>
    simp only
    split
    · rfl
    · show (⟨_, _, _, .allow, (nonOwnerView file'.bundle).1, (nonOwnerView file'.bundle).2, _⟩ :
        ResolvedPolicy) = _
      rw [hview]
      rfl

theorem tenantId_mapBundleToPolicy (file : SignedBundleFile) (caller : Caller) :
    (mapBundleToPolicy file caller).tenantId = file.ownerTenant.getD "" := by
  unfold mapBundleToPolicy
  cases purposeGate file.bundle caller with
  | some reason => rfl
  | none =>
    simp only
    split <;> rfl

theorem decision_mapBundleToPolicy (file : SignedBundleFile) (caller : Caller) :
    (mapBundleToPolicy file caller).decision =
      (purposeGate file.bundle caller).elim .allow .deny := by
  unfold mapBundleToPolicy
  cases purposeGate file.bundle caller with
  | some reason => rfl
  | none =>
    simp only
    split <;> rfl

/-- A caller of another tenant who passes the purpose gate reads under the view of others. -/
theorem view_mapBundleToPolicy (file : SignedBundleFile) (caller : Caller)
    (hgate : purposeGate file.bundle caller = none)
    (hother : file.ownerTenant ≠ some caller.tenant) :
    ((mapBundleToPolicy file caller).columnMasks, (mapBundleToPolicy file caller).rowFilter) =
      nonOwnerView file.bundle := by
  have howner : ¬(file.ownerTenant.getD "" ≠ "" ∧ caller.tenant = file.ownerTenant.getD "") := by
    cases h : file.ownerTenant with
    | none => simp
    | some owner =>
      rw [h] at hother
      intro ⟨_, heq⟩
      exact hother (congrArg some heq.symm)
  unfold mapBundleToPolicy
  rw [hgate]
  simp only [howner, if_false]
  rfl

/-- Some purpose passes the gate. -/
theorem exists_admitted_purpose (bundle : CompiledBundle) :
    ∃ purpose, ∀ caller : Caller, caller.purpose = purpose → purposeGate bundle caller = none := by
  cases hallowed : allowedPurposes bundle with
  | none => exact ⟨"", fun caller _ => by rw [purposeGate, hallowed]⟩
  | some allowed =>
    cases allowed with
    | nil => exact ⟨"", fun caller _ => by simp [purposeGate, hallowed]⟩
    | cons purpose rest => exact ⟨purpose, fun caller h => by simp [purposeGate, hallowed, h]⟩

/-! ### Failing closed -/

/-- A template meant for other readers. -/
def ForOthers (t : SqlTemplate) : Prop := nameContains "non-owner" t.name = true

/-- The caller is let in only under the masks and the row filter of a template meant for
other readers, and never bare where the bundle has none. -/
structure FailsClosed (file : SignedBundleFile) (caller : Caller) : Prop where
  template : (mapBundleToPolicy file caller).decision = .allow →
    ∃ t ∈ file.bundle.sqlTemplates, ForOthers t ∧
      (mapBundleToPolicy file caller).columnMasks = masksFromSql t.template ∧
      (mapBundleToPolicy file caller).rowFilter = rowFilterFromSql t.template
  bare : (∀ t ∈ file.bundle.sqlTemplates, ¬ForOthers t) →
    ¬((mapBundleToPolicy file caller).decision = .allow ∧
      (mapBundleToPolicy file caller).columnMasks = .empty ∧
      (mapBundleToPolicy file caller).rowFilter = none)

theorem decision_allow_iff (file : SignedBundleFile) (caller : Caller) :
    (mapBundleToPolicy file caller).decision = .allow ↔ purposeGate file.bundle caller = none := by
  rw [decision_mapBundleToPolicy]
  cases purposeGate file.bundle caller <;> simp

/-- A template meant for other readers is the one the view comes from. -/
theorem nonOwnerView_of_forOthers {bundle : CompiledBundle}
    (h : ∃ t ∈ bundle.sqlTemplates, ForOthers t) :
    ∃ t ∈ bundle.sqlTemplates, ForOthers t ∧
      nonOwnerView bundle = (masksFromSql t.template, rowFilterFromSql t.template) := by
  obtain ⟨t, ht⟩ := Option.isSome_iff_exists.mp (List.find?_isSome.mpr h)
  refine ⟨t, List.mem_of_find?_eq_some ht, by simpa [ForOthers] using List.find?_some ht, ?_⟩
  rw [nonOwnerView, nonOwnerTemplate, ht]
  rfl

/-- **When the mapping fails closed** for a caller who is not the owner: the purpose gate
turns the caller away, or the bundle has a template meant for other readers. -/
theorem failsClosed_iff (file : SignedBundleFile) (caller : Caller)
    (hother : file.ownerTenant ≠ some caller.tenant) :
    FailsClosed file caller ↔ purposeGate file.bundle caller ≠ none ∨
      ∃ t ∈ file.bundle.sqlTemplates, ForOthers t := by
  constructor
  · intro h
    by_cases hgate : purposeGate file.bundle caller = none
    · obtain ⟨t, ht, hfor, -⟩ := h.template ((decision_allow_iff file caller).mpr hgate)
      exact .inr ⟨t, ht, hfor⟩
    · exact .inl hgate
  · intro h
    by_cases hgate : purposeGate file.bundle caller = none
    · have htemplate := h.resolve_left (not_not_intro hgate)
      refine ⟨fun _ => ?_, fun hnone => ?_⟩
      · obtain ⟨t, ht, hfor, hview⟩ := nonOwnerView_of_forOthers htemplate
        have hpolicy := (view_mapBundleToPolicy file caller hgate hother).trans hview
        exact ⟨t, ht, hfor, congrArg Prod.fst hpolicy, congrArg Prod.snd hpolicy⟩
      · obtain ⟨t, ht, hfor⟩ := htemplate
        exact absurd hfor (hnone t ht)
    · have hdeny := (decision_allow_iff file caller).not.mpr hgate
      exact ⟨fun hallow => absurd hallow hdeny, fun _ hbare => hdeny hbare.1⟩

/-- A bundle of `acme` with one template. -/
def withTemplate (name template : String) : SignedBundleFile :=
  unsigned ⟨⟨"demo_v1", 1, 1⟩, [], [], [⟨name, template⟩], ⟨[⟨"acme/demo_v1", "read", "gate"⟩]⟩⟩

theorem failsClosed_nonOwnerRead :
    (withTemplate "row-filter-non-owner-read" "SELECT sha256_hex(email) FROM t").ownerTenant ≠
      some "globex" ∧
    FailsClosed (withTemplate "row-filter-non-owner-read" "SELECT sha256_hex(email) FROM t")
      (Caller.new "eve" "analytics" "globex") :=
  ⟨by decide, (failsClosed_iff _ _ (by decide)).mpr
    (.inr ⟨_, List.mem_singleton_self _, by unfold ForOthers; decide⟩)⟩

/-- With the owner's template alone, other tenants read bare. -/
theorem ownerRead_opens :
    (withTemplate "row-filter-owner-read" "SELECT email FROM t WHERE 1=1").ownerTenant ≠
      some "globex" ∧
    ¬FailsClosed (withTemplate "row-filter-owner-read" "SELECT email FROM t WHERE 1=1")
      (Caller.new "eve" "analytics" "globex") := by
  refine ⟨by decide, fun h => h.bare ?_ ⟨by decide, ?_, by decide⟩⟩
  · intro t ht
    obtain rfl := List.mem_singleton.mp ht
    unfold ForOthers
    decide
  · show Dict.ofList _ = Dict.ofList []
    exact congrArg Dict.ofList (by decide)

end Griot.Platform
