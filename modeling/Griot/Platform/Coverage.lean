import Griot.Platform.Encoding
import Griot.Platform.Mapping

/-! What the signature covers.

Two bundles with the same digest input have the same manifest and lists that
sort to the same, so below `2 ^ 32` bytes the digest fixes a bundle up to the
order between entries of different keys. The mapping reads first matches, so it
is covered exactly when the first matches of all such orders agree
(`signature_covers_iff`). -/
namespace Griot.Platform

open Lib

/-! ### First matches of the mapping -/

/-- The tenant an entry names. -/
def tenantOf (e : ResolutionMapEntry) : String :=
  String.ofList (e.datasetId.toList.takeWhile (· ≠ '/'))

/-- The templates among which the mapping takes the first for other readers. -/
def meantForOthers (templates : List SqlTemplate) (name : String) : Bool :=
  if templates.any fun t => nameContains "non-owner" t.name then nameContains "non-owner" name
  else nameContains "read" name

def governedBy (t : SqlTemplate) : Dict String MaskAction × Option String :=
  (masksFromSql t.template, rowFilterFromSql t.template)

/-- **The mapping does not depend on an order the digest forgets**: the entries all name
one tenant; the leading purpose modules list the same purposes; the leading templates
for other readers mask and filter alike. Leading is being the first of one's key. -/
structure OrderFree (bundle : CompiledBundle) : Prop where
  owner : Settled ResolutionMapEntry.key (fun _ => true) tenantOf bundle.resolutionMap.entries
  purposes : Settled RegoBundle.name (nameContains "purpose") (fun r => purposesOf r.source)
    bundle.regoBundles
  masks : Settled SqlTemplate.name (meantForOthers bundle.sqlTemplates) governedBy
    bundle.sqlTemplates

/-- Every bundle with the same digest input maps to the same policy for every caller. -/
def SignatureCovers (bundle : CompiledBundle) : Prop :=
  ∀ file file' : SignedBundleFile, file.bundle = bundle →
    digestInput file'.bundle = digestInput bundle →
    ∀ caller, mapBundleToPolicy file' caller = mapBundleToPolicy file caller

theorem ownerTenant_eq (file : SignedBundleFile) :
    file.ownerTenant = (file.bundle.resolutionMap.entries.find? fun e =>
      (fun _ => true) e.key).map tenantOf := by
  rw [SignedBundleFile.ownerTenant]
  cases file.bundle.resolutionMap.entries <;> rfl

theorem nonOwnerView_eq (bundle : CompiledBundle) :
    nonOwnerView bundle = ((bundle.sqlTemplates.find? fun t =>
      meantForOthers bundle.sqlTemplates t.name).map governedBy).getD (.empty, none) := by
  rw [nonOwnerView, nonOwnerTemplate]
  cases hfind : bundle.sqlTemplates.find? fun t => nameContains "non-owner" t.name with
  | some t =>
    have hany : (bundle.sqlTemplates.any fun t => nameContains "non-owner" t.name) = true := by
      rw [List.any_eq_true]
      exact ⟨t, List.mem_of_find?_eq_some hfind, by simpa using List.find?_some hfind⟩
    simp [meantForOthers, hany, hfind, governedBy]
  | none =>
    have hany : (bundle.sqlTemplates.any fun t => nameContains "non-owner" t.name) = false := by
      rw [List.any_eq_false]
      exact List.find?_eq_none.mp hfind
    simp only [meantForOthers, hany, Option.none_or, Bool.false_eq_true, if_false]
    cases bundle.sqlTemplates.find? fun t => nameContains "read" t.name <;> rfl

/-! ### Order that shows -/

theorem exists_notMem (l : List String) : ∃ s, s ∉ l := by
  have hinfinite : Infinite String :=
    Infinite.of_injective (fun n => String.ofList (List.replicate n 'x')) fun m n h => by
      simpa using congrArg String.length h
  obtain ⟨s, hs⟩ := Infinite.exists_notMem_finset l.toFinset
  exact ⟨s, by simpa using hs⟩

/-- A purpose that neither module lists tells the two lists apart. -/
theorem purposes_eq_of_decisions {bundle bundle' : CompiledBundle} {allowed allowed' : List String}
    (hallowed : allowedPurposes bundle = some allowed)
    (hallowed' : allowedPurposes bundle' = some allowed')
    (h : ∀ caller, (purposeGate bundle' caller).elim Decision.allow .deny =
      (purposeGate bundle caller).elim Decision.allow .deny) : allowed' = allowed := by
  obtain ⟨purpose, hfresh⟩ := exists_notMem (allowed ++ allowed')
  rw [List.mem_append, not_or] at hfresh
  have hcaller := h (Caller.new "" purpose "")
  have hpurpose : (Caller.new "" purpose "").purpose = purpose := rfl
  simp only [purposeGate, hallowed, hallowed', hpurpose, hfresh.1, hfresh.2, not_false_eq_true,
    and_true] at hcaller
  split at hcaller <;> split at hcaller
  · simpa using hcaller
  · exact absurd hcaller (by simp)
  · exact absurd hcaller (by simp)
  · simp_all

/-! ### The signature covers a bundle exactly when order does not matter -/

theorem meantForOthers_congr {templates templates' : List SqlTemplate}
    (h : sortBy SqlTemplate.name templates' = sortBy SqlTemplate.name templates) :
    meantForOthers templates' = meantForOthers templates := by
  have hany : (templates'.any fun t => nameContains "non-owner" t.name) =
      templates.any fun t => nameContains "non-owner" t.name := by
    rw [Bool.eq_iff_iff, List.any_eq_true, List.any_eq_true]
    simp only [← mem_sortBy SqlTemplate.name (l := templates'), h, mem_sortBy]
  funext name
  rw [meantForOthers, meantForOthers, hany]

theorem SignatureCovers.owner {bundle : CompiledBundle} (h : SignatureCovers bundle) :
    Settled ResolutionMapEntry.key (fun _ => true) tenantOf bundle.resolutionMap.entries := by
  rw [← find?_settled_iff]
  intro entries hsorted
  have hdigest := digestInput_of_sorted_eq bundle { bundle with resolutionMap := ⟨entries⟩ }
    (by simp only [CompiledBundle.sorted, hsorted])
  have hpolicy := congrArg ResolvedPolicy.tenantId
    (h (unsigned bundle) (unsigned _) rfl hdigest (Caller.new "" "" ""))
  rw [tenantId_mapBundleToPolicy, tenantId_mapBundleToPolicy, ownerTenant_eq,
    ownerTenant_eq] at hpolicy
  exact find?_map_eq_of_getD _ (fun _ => true) _ hsorted "" hpolicy

theorem SignatureCovers.purposes {bundle : CompiledBundle} (h : SignatureCovers bundle) :
    Settled RegoBundle.name (nameContains "purpose") (fun r => purposesOf r.source)
      bundle.regoBundles := by
  rw [← find?_settled_iff]
  intro modules hsorted
  have hdigest := digestInput_of_sorted_eq bundle { bundle with regoBundles := modules }
    (by simp only [CompiledBundle.sorted, hsorted])
  have hdecision := fun caller => congrArg ResolvedPolicy.decision
    (h (unsigned bundle) (unsigned _) rfl hdigest caller)
  simp only [decision_mapBundleToPolicy] at hdecision
  have hsome := find?_isSome_congr RegoBundle.name (nameContains "purpose") hsorted
  cases hfind : bundle.regoBundles.find? fun r => nameContains "purpose" r.name with
  | none =>
    rw [hfind, Option.isSome_none, Option.isSome_eq_false_iff, Option.isNone_iff_eq_none] at hsome
    rw [hsome]
  | some r =>
    rw [hfind, Option.isSome_some, Option.isSome_iff_exists] at hsome
    obtain ⟨r', hr'⟩ := hsome
    rw [hr']
    have hallowed : allowedPurposes bundle = some (purposesOf r.source) := by
      rw [allowedPurposes, hfind]
      rfl
    have hallowed' : allowedPurposes { bundle with regoBundles := modules } =
        some (purposesOf r'.source) := by
      rw [allowedPurposes, hr']
      rfl
    exact congrArg some (purposes_eq_of_decisions hallowed hallowed' hdecision)

theorem SignatureCovers.masks {bundle : CompiledBundle} (h : SignatureCovers bundle) :
    Settled SqlTemplate.name (meantForOthers bundle.sqlTemplates) governedBy
      bundle.sqlTemplates := by
  rw [← find?_settled_iff]
  intro templates hsorted
  have hdigest := digestInput_of_sorted_eq bundle { bundle with sqlTemplates := templates }
    (by simp only [CompiledBundle.sorted, hsorted])
  -- A caller who is let in and is not the owner sees the view.
  obtain ⟨purpose, hpurpose⟩ := exists_admitted_purpose bundle
  obtain ⟨tenant, hfresh⟩ := exists_notMem (unsigned bundle).ownerTenant.toList
  have htenant : (unsigned bundle).ownerTenant ≠ some tenant := fun h => hfresh (by simp [h])
  have hpolicy := h (unsigned bundle) (unsigned _) rfl hdigest (Caller.new "" purpose tenant)
  have hview := view_mapBundleToPolicy (unsigned bundle) (Caller.new "" purpose tenant)
    (hpurpose _ rfl) htenant
  have hview' := view_mapBundleToPolicy (unsigned { bundle with sqlTemplates := templates })
    (Caller.new "" purpose tenant) (hpurpose _ rfl) htenant
  rw [hpolicy, hview] at hview'
  simp only [unsigned, nonOwnerView_eq, meantForOthers_congr hsorted] at hview'
  exact find?_map_eq_of_getD _ _ _ hsorted _ hview'.symm

theorem SignatureCovers.orderFree {bundle : CompiledBundle} (h : SignatureCovers bundle) :
    OrderFree bundle :=
  ⟨h.owner, h.purposes, h.masks⟩

theorem OrderFree.signatureCovers {bundle : CompiledBundle} (h : OrderFree bundle)
    (hshort : (digestInput bundle).length < 2 ^ 32) : SignatureCovers bundle := by
  intro file file' hfile hdigest caller
  subst hfile
  have hsorted := sorted_of_digestInput_eq hshort hdigest
  simp only [CompiledBundle.sorted, Prod.mk.injEq] at hsorted
  obtain ⟨hmanifest, -, hrego, hsql, hentries⟩ := hsorted
  refine mapBundleToPolicy_congr hmanifest ?_ ?_ ?_ caller
  · rw [ownerTenant_eq, ownerTenant_eq]
    exact (find?_settled_iff _ _ _ _).mpr h.owner _ hentries
  · exact (find?_settled_iff _ _ _ _).mpr h.purposes _ hrego
  · rw [nonOwnerView_eq, nonOwnerView_eq, meantForOthers_congr hsql,
      (find?_settled_iff _ _ _ _).mpr h.masks _ hsql]

/-- **What the signature covers**: a bundle whose mapping depends on an order the digest
forgets is never covered; below `2 ^ 32` bytes every other bundle is. -/
theorem signatureCovers_iff (bundle : CompiledBundle) :
    (SignatureCovers bundle → OrderFree bundle) ∧
      ((digestInput bundle).length < 2 ^ 32 → (SignatureCovers bundle ↔ OrderFree bundle)) :=
  ⟨SignatureCovers.orderFree, fun hshort =>
    ⟨SignatureCovers.orderFree, fun h => h.signatureCovers hshort⟩⟩

/-- A bundle whose resolution map has entries of the given datasets. -/
def withDatasets (datasets : List String) : CompiledBundle :=
  ⟨⟨"demo_v1", 1, 1⟩, [], [], [], ⟨datasets.map fun d => ⟨d, "read", "gate"⟩⟩⟩

/-- Swapping two entries of a signed bundle makes another tenant its owner. -/
theorem swapped_entries_same_digest :
    digestInput (withDatasets ["globex/demo_v1", "acme/demo_v1"]) =
      digestInput (withDatasets ["acme/demo_v1", "globex/demo_v1"]) ∧
    mapBundleToPolicy (unsigned (withDatasets ["globex/demo_v1", "acme/demo_v1"]))
      (Caller.new "eve" "analytics" "globex") ≠
    mapBundleToPolicy (unsigned (withDatasets ["acme/demo_v1", "globex/demo_v1"]))
      (Caller.new "eve" "analytics" "globex") := by
  refine ⟨by decide, fun h => ?_⟩
  have := congrArg ResolvedPolicy.tenantId h
  exact absurd this (by decide)

end Griot.Platform
