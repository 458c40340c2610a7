import Griot.Contract.Source
import Griot.Lib.Streams
import Mathlib.Data.Fintype.EquivFin

/-! Loading contracts in another order.

A list of documents fails as a whole or not whatever its order. Where it loads, the last document
for a dataset is the contract, so the order matters exactly if two documents for one dataset do
not come to the same policies and the same file (`load_order_iff`); for which callers they differ
is read off their fields (`resolve_eq_iff`). -/
namespace Griot

open Lib Platform

/-! ### Contracts that come to the same -/

namespace JsonContract

/-- What readers other than the owner get. -/
def enforced (c : JsonContract) :
    Except ContractError (Dict String MaskAction × Option String × Dict String DpParam) :=
  c.columnMasks.map fun masks => (masks, c.rowFilter, c.dpColumns)

/-- The same in every field that a policy is made of. -/
structure Agrees (c c' : JsonContract) : Prop where
  contractId : c.contractId = c'.contractId
  version : c.version = c'.version
  ownerTenant : c.ownerTenant = c'.ownerTenant
  purposes : c.purposes = c'.purposes
  enforced : c.enforced = c'.enforced

variable {c c' : JsonContract} {caller : Caller}

theorem resolve_denied (h : ¬ c.allows caller) : c.resolve caller =
    .ok ⟨c.contractId, c.version, c.ownerTenant,
      .deny (.purposeNotPermittedBy caller.purpose c.contractId c.purposes), .empty, none, .empty⟩ :=
  if_pos h

theorem resolve_owner (h : c.allows caller) (howner : caller.tenant = c.ownerTenant) :
    c.resolve caller = .ok (.allowAll c.contractId c.version c.ownerTenant) := by
  rw [resolve, if_neg (not_not.mpr h), if_pos howner]

theorem resolve_reader (h : c.allows caller) (howner : caller.tenant ≠ c.ownerTenant) :
    c.resolve caller = c.enforced.map fun e =>
      ⟨c.contractId, c.version, c.ownerTenant, .allow, e.1, e.2.1, e.2.2⟩ := by
  rw [resolve, if_neg (not_not.mpr h), if_neg howner, enforced]
  cases c.columnMasks <;> rfl

/-- Whatever a contract comes to is its own. -/
theorem resolve_fields {p : ResolvedPolicy} (h : c.resolve caller = .ok p) :
    p.contractId = c.contractId ∧ p.contractVersion = c.version ∧ p.tenantId = c.ownerTenant := by
  by_cases hallows : c.allows caller
  · by_cases howner : caller.tenant = c.ownerTenant
    · rw [resolve_owner hallows howner] at h
      obtain rfl := Except.ok.inj h
      exact ⟨rfl, rfl, rfl⟩
    · rw [resolve_reader hallows howner] at h
      cases hread : c.enforced with
      | error e =>
        rw [hread] at h
        cases h
      | ok e =>
        rw [hread] at h
        obtain rfl := Except.ok.inj h
        exact ⟨rfl, rfl, rfl⟩
  · rw [resolve_denied hallows] at h
    obtain rfl := Except.ok.inj h
    exact ⟨rfl, rfl, rfl⟩

/-- A caller with a purpose that the contract allows. -/
def welcome (c : JsonContract) (tenant : String) : Caller :=
  .new "" (c.purposes.headD "") tenant

theorem allows_welcome (c : JsonContract) (tenant : String) : c.allows (c.welcome tenant) := by
  cases h : c.purposes with
  | nil => exact .inl h
  | cons purpose purposes =>
    refine .inr ?_
    rw [h]
    simp [welcome, Caller.new, h]

theorem exists_stranger (tenant : String) : ∃ t : String, t ≠ tenant := by
  obtain ⟨t, ht⟩ := Infinite.exists_notMem_finset {tenant}
  exact ⟨t, by simpa using ht⟩

theorem exists_other_purpose (purposes : List String) : ∃ purpose, purpose ∉ purposes := by
  obtain ⟨purpose, h⟩ := Infinite.exists_notMem_finset purposes.toFinset
  exact ⟨purpose, by simpa using h⟩

theorem allows_congr (h : c.purposes = c'.purposes) : c.allows caller ↔ c'.allows caller := by
  rw [allows, allows, h]

/-- A purpose that one contract allows and the other does not tells them apart. -/
theorem allows_of_resolve_eq (h : c.resolve caller = c'.resolve caller) (hallows : c.allows caller)
    (howner : caller.tenant = c.ownerTenant) : c'.allows caller := by
  by_contra hdenied
  rw [resolve_owner hallows howner, resolve_denied hdenied] at h
  have hdecision := congrArg ResolvedPolicy.decision (Except.ok.inj h)
  cases hdecision

theorem purposes_of_resolve_eq (h : ∀ caller, c.resolve caller = c'.resolve caller)
    (hnone : c.purposes ≠ []) : c.purposes = c'.purposes := by
  obtain ⟨purpose, hpurpose⟩ := exists_other_purpose c.purposes
  have hdenied : ¬ c.allows (.new "" purpose c'.ownerTenant) := fun h => h.elim hnone hpurpose
  have hdenied' : ¬ c'.allows (.new "" purpose c'.ownerTenant) :=
    fun hallows => hdenied (allows_of_resolve_eq (h _).symm hallows rfl)
  have hsame := h (.new "" purpose c'.ownerTenant)
  rw [resolve_denied hdenied, resolve_denied hdenied'] at hsame
  have hdecision := congrArg ResolvedPolicy.decision (Except.ok.inj hsame)
  exact (DenyReason.purposeNotPermittedBy.inj (Decision.deny.inj hdecision)).2.2

/-- **Two contracts treat every caller alike exactly when they agree.** -/
theorem resolve_eq_iff : (∀ caller, c.resolve caller = c'.resolve caller) ↔ c.Agrees c' := by
  constructor
  · intro h
    have hpurposes : c.purposes = c'.purposes := by
      by_cases hnone : c.purposes = []
      · by_contra hne
        exact hne (purposes_of_resolve_eq (fun caller => (h caller).symm)
          (fun hnone' => hne (hnone.trans hnone'.symm))).symm
      · exact purposes_of_resolve_eq h hnone
    -- The owner gets a policy of either.
    have howner := resolve_owner (c.allows_welcome c.ownerTenant) rfl
    obtain ⟨hid, hversion, htenant⟩ := resolve_fields ((h _).symm.trans howner)
    obtain ⟨tenant, htenant'⟩ := exists_stranger c.ownerTenant
    have hreader := h (c.welcome tenant)
    rw [resolve_reader (c.allows_welcome tenant) htenant',
      resolve_reader ((allows_congr hpurposes).mp (c.allows_welcome tenant))
        (fun heq => htenant' (heq.trans htenant.symm))] at hreader
    refine ⟨hid, hversion, htenant, hpurposes, ?_⟩
    cases he : c.enforced with
    | error e =>
      cases he' : c'.enforced with
      | error e' =>
        rw [he, he'] at hreader
        obtain rfl := Except.error.inj hreader
        rfl
      | ok e' =>
        rw [he, he'] at hreader
        cases hreader
    | ok e =>
      cases he' : c'.enforced with
      | error e' =>
        rw [he, he'] at hreader
        cases hreader
      | ok e' =>
        rw [he, he'] at hreader
        have hpolicy := Except.ok.inj hreader
        congr 1
        exact Prod.ext (congrArg ResolvedPolicy.columnMasks hpolicy)
          (Prod.ext (congrArg ResolvedPolicy.rowFilter hpolicy)
            (congrArg ResolvedPolicy.dpColumns hpolicy))
  · intro h caller
    have hallows : c.allows caller ↔ c'.allows caller := allows_congr h.purposes
    by_cases hc : c.allows caller
    · by_cases howner : caller.tenant = c.ownerTenant
      · rw [resolve_owner hc howner, resolve_owner (hallows.mp hc) (howner.trans h.ownerTenant),
          h.contractId, h.version, h.ownerTenant]
      · rw [resolve_reader hc howner, resolve_reader (hallows.mp hc) (h.ownerTenant ▸ howner),
          h.contractId, h.version, h.ownerTenant, h.enforced]
    · rw [resolve_denied hc, resolve_denied (fun hc' => hc (hallows.mpr hc')), h.contractId, h.version,
        h.ownerTenant, h.purposes]

end JsonContract

/-! ### Lists of documents -/

namespace JsonContractSource
variable {serde : SerdeJson}

/-- The contract of a document, under its dataset. -/
def entryOf (serde : SerdeJson) (doc : String) : Option (String × JsonContract) :=
  ((serde.fromSlice (utf8 doc)).bind JsonContract.ofJson).map fun c => (c.dataset, c)

/-- The contracts of the documents that can be read. -/
def contractsOf (serde : SerdeJson) (docs : List String) : List (String × JsonContract) :=
  docs.filterMap (entryOf serde)

theorem parseContract_ok_iff {doc : String} {c : JsonContract} :
    parseContract serde doc = .ok c ↔ entryOf serde doc = some (c.dataset, c) := by
  rw [parseContract, entryOf]
  cases h : (serde.fromSlice (utf8 doc)).bind JsonContract.ofJson with
  | none => simp
  | some c' =>
    simp only [Except.ok.injEq, Option.map_some, Option.some.injEq, Prod.mk.injEq]
    exact ⟨fun heq => heq ▸ ⟨rfl, rfl⟩, fun heq => heq.2⟩

theorem insertContract_ok_iff {l : List (String × JsonContract)} {doc : String}
    {contracts : Dict String JsonContract} :
    insertContract serde (.ofList l) doc = .ok contracts ↔
      ∃ e, entryOf serde doc = some e ∧ contracts = .ofList (l ++ [e]) := by
  rw [insertContract, bind_eq_ok]
  constructor
  · intro h
    obtain ⟨c, hc, hinsert⟩ := h
    refine ⟨(c.dataset, c), parseContract_ok_iff.mp hc, ?_⟩
    rw [Dict.ofList_concat]
    exact (Except.ok.inj hinsert).symm
  · intro h
    obtain ⟨e, he, rfl⟩ := h
    obtain ⟨c, -, rfl⟩ := Option.map_eq_some_iff.mp he
    refine ⟨c, parseContract_ok_iff.mpr he, ?_⟩
    rw [Dict.ofList_concat]
    rfl

theorem foldlM_insertContract {docs : List String} {l : List (String × JsonContract)}
    {contracts : Dict String JsonContract} :
    docs.foldlM (insertContract serde) (.ofList l) = .ok contracts ↔
      (∀ doc ∈ docs, entryOf serde doc ≠ none) ∧ contracts = .ofList (l ++ contractsOf serde docs) := by
  induction docs generalizing l with
  | nil =>
    rw [List.foldlM_nil, contractsOf, List.filterMap_nil, List.append_nil]
    refine ⟨fun h => ⟨by simp, (Except.ok.inj h).symm⟩, fun h => congrArg Except.ok h.2.symm⟩
  | cons doc docs ih =>
    rw [List.foldlM_cons, bind_eq_ok, List.forall_mem_cons]
    constructor
    · intro h
      obtain ⟨contracts', hinsert, hrest⟩ := h
      obtain ⟨e, he, rfl⟩ := insertContract_ok_iff.mp hinsert
      obtain ⟨hall, rfl⟩ := ih.mp hrest
      refine ⟨⟨by simp [he], hall⟩, ?_⟩
      rw [contractsOf, contractsOf, List.filterMap_cons_some he, List.append_assoc]
      rfl
    · intro h
      obtain ⟨⟨hdoc, hall⟩, rfl⟩ := h
      obtain ⟨e, he⟩ := Option.ne_none_iff_exists'.mp hdoc
      refine ⟨_, insertContract_ok_iff.mpr ⟨e, he, rfl⟩, ih.mpr ⟨hall, ?_⟩⟩
      rw [contractsOf, contractsOf, List.filterMap_cons_some he, List.append_assoc]
      rfl

/-- **What is loaded**: every document is read, and the last for each dataset stays. -/
theorem fromJsonStrs_ok_iff {docs : List String} {source : JsonContractSource} :
    fromJsonStrs serde docs = .ok source ↔ (∀ doc ∈ docs, entryOf serde doc ≠ none) ∧
      source = ⟨.ofList (contractsOf serde docs)⟩ := by
  rw [fromJsonStrs, bind_eq_ok]
  constructor
  · intro h
    obtain ⟨contracts, hfold, hsource⟩ := h
    obtain ⟨hall, rfl⟩ := foldlM_insertContract (l := []).mp hfold
    exact ⟨hall, (Except.ok.inj hsource).symm⟩
  · intro h
    obtain ⟨hall, rfl⟩ := h
    exact ⟨_, foldlM_insertContract (l := []).mpr ⟨hall, rfl⟩, rfl⟩

/-! ### Sources that answer alike -/

/-- The same policy for every caller, and the same table. -/
structure Same (source source' : JsonContractSource) : Prop where
  resolve : ∀ dataset caller, source.resolve dataset caller = source'.resolve dataset caller
  binding : ∀ (Provider : Type) (load : String → Except BindingError Provider) dataset,
    source.resolveBinding load dataset = source'.resolveBinding load dataset

/-- Both loads fail, or both sources answer alike. -/
def SameLoad (load load' : Except ContractError JsonContractSource) : Prop :=
  (∀ source, load ≠ .ok source) ∧ (∀ source, load' ≠ .ok source) ∨
    ∃ source source', load = .ok source ∧ load' = .ok source' ∧ source.Same source'

/-- What two documents for one dataset must have in common. -/
def Interchangeable (c c' : JsonContract) : Prop :=
  c.Agrees c' ∧ c.binding.parquet = c'.binding.parquet

theorem interchangeable_equivalence : Equivalence Interchangeable where
  refl _ := ⟨⟨rfl, rfl, rfl, rfl, rfl⟩, rfl⟩
  symm h := ⟨JsonContract.resolve_eq_iff.mp fun caller =>
    (JsonContract.resolve_eq_iff.mpr h.1 caller).symm, h.2.symm⟩
  trans h h' := ⟨JsonContract.resolve_eq_iff.mp fun caller =>
    (JsonContract.resolve_eq_iff.mpr h.1 caller).trans (JsonContract.resolve_eq_iff.mpr h'.1 caller),
    h.2.trans h'.2⟩

theorem resolve_some {source : JsonContractSource} {dataset : String} {c : JsonContract}
    (h : source.contracts.lookup dataset = some c) (caller : Caller) :
    source.resolve dataset caller = c.resolve caller := by
  rw [JsonContractSource.resolve, get, h]
  rfl

theorem resolve_none {source : JsonContractSource} {dataset : String}
    (h : source.contracts.lookup dataset = none) (caller : Caller) :
    source.resolve dataset caller = .error (.notFound dataset) := by
  rw [JsonContractSource.resolve, get, h]
  rfl

/-- A dataset that one source has and the other has not tells them apart. -/
theorem Same.lookup_none {source source' : JsonContractSource} {dataset : String}
    (h : source.Same source') (hnone : source.contracts.lookup dataset = none) :
    source'.contracts.lookup dataset = none := by
  cases hsome : source'.contracts.lookup dataset with
  | none => rfl
  | some c =>
    have hsame := h.resolve dataset (c.welcome c.ownerTenant)
    rw [resolve_none hnone, resolve_some hsome,
      JsonContract.resolve_owner (c.allows_welcome c.ownerTenant) rfl] at hsame
    cases hsame

theorem Same.symm {source source' : JsonContractSource} (h : source.Same source') :
    source'.Same source :=
  ⟨fun dataset caller => (h.resolve dataset caller).symm,
    fun Provider load dataset => (h.binding Provider load dataset).symm⟩

theorem same_iff {source source' : JsonContractSource} : source.Same source' ↔
    ∀ dataset, Option.Rel Interchangeable (source.contracts.lookup dataset)
      (source'.contracts.lookup dataset) := by
  constructor
  · intro h dataset
    cases hc : source.contracts.lookup dataset with
    | none =>
      rw [h.lookup_none hc]
      exact .none
    | some c =>
      cases hc' : source'.contracts.lookup dataset with
      | none =>
        rw [h.symm.lookup_none hc'] at hc
        cases hc
      | some c' =>
        refine .some ⟨JsonContract.resolve_eq_iff.mp fun caller => ?_, ?_⟩
        · rw [← resolve_some hc, ← resolve_some hc', h.resolve]
        · have hpath := h.binding String .ok dataset
          simp only [resolveBinding, hc, hc'] at hpath
          exact Except.ok.inj hpath
  · intro h
    constructor
    · intro dataset caller
      have hrel := h dataset
      rw [JsonContractSource.resolve, JsonContractSource.resolve, get, get]
      generalize source.contracts.lookup dataset = c, source'.contracts.lookup dataset = c' at hrel ⊢
      cases hrel with
      | none => rfl
      | some hsame => exact JsonContract.resolve_eq_iff.mpr hsame.1 caller
    · intro Provider load dataset
      have hrel := h dataset
      rw [resolveBinding, resolveBinding]
      generalize source.contracts.lookup dataset = c, source'.contracts.lookup dataset = c' at hrel ⊢
      cases hrel with
      | none => rfl
      | some hsame => exact congrArg load hsame.2

/-! ### Another order -/

theorem fromJsonStrs_ne_ok {docs : List String} (h : ∃ doc ∈ docs, entryOf serde doc = none)
    (source : JsonContractSource) : fromJsonStrs serde docs ≠ .ok source := by
  obtain ⟨doc, hdoc, hnone⟩ := h
  exact fun hok => (fromJsonStrs_ok_iff.mp hok).1 doc hdoc hnone

theorem sameLoad_ok_iff {source source' : JsonContractSource} :
    SameLoad (.ok source) (.ok source') ↔ source.Same source' := by
  constructor
  · intro h
    obtain ⟨hfails, -⟩ | ⟨s, s', hs, hs', hsame⟩ := h
    · exact absurd rfl (hfails source)
    · obtain rfl := Except.ok.inj hs
      obtain rfl := Except.ok.inj hs'
      exact hsame
  · exact fun h => .inr ⟨source, source', rfl, rfl, h⟩

/-- Some document cannot be read, or the contracts for one dataset are interchangeable. -/
def OrderFree (serde : SerdeJson) (docs : List String) : Prop :=
  (∃ doc ∈ docs, entryOf serde doc = none) ∨
    ∀ e ∈ contractsOf serde docs, ∀ e' ∈ contractsOf serde docs, e.1 = e'.1 →
      Interchangeable e.2 e'.2

theorem sameLoad_iff_orderFree (serde : SerdeJson) (docs : List String) :
    (∀ docs' : List String, docs'.Perm docs →
      SameLoad (fromJsonStrs serde docs) (fromJsonStrs serde docs')) ↔ OrderFree serde docs := by
  by_cases hbad : ∃ doc ∈ docs, entryOf serde doc = none
  · refine iff_of_true (fun docs' hperm => .inl ⟨fromJsonStrs_ne_ok hbad, ?_⟩) (.inl hbad)
    obtain ⟨doc, hdoc, hnone⟩ := hbad
    exact fromJsonStrs_ne_ok ⟨doc, hperm.mem_iff.mpr hdoc, hnone⟩
  · have hgood : ∀ doc ∈ docs, entryOf serde doc ≠ none :=
      fun doc hdoc hnone => hbad ⟨doc, hdoc, hnone⟩
    have hload (docs' : List String) (hperm : docs'.Perm docs) :
        fromJsonStrs serde docs' = .ok ⟨.ofList (contractsOf serde docs')⟩ :=
      fromJsonStrs_ok_iff.mpr ⟨fun doc hdoc => hgood doc (hperm.mem_iff.mp hdoc), rfl⟩
    rw [OrderFree, or_iff_right hbad, contractsOf,
      ← Dict.ofList_perm_iff interchangeable_equivalence (entryOf serde) docs]
    refine forall₂_congr fun docs' hperm => ?_
    rw [hload docs (.refl docs), hload docs' hperm, sameLoad_ok_iff, same_iff]
    rfl

/-! ### Directories -/

/-- The document in a directory's entry, if it is one and can be read. -/
def documentOf (entry : Except String DirEntry) : Option String :=
  match entry with
  | .error _ => none
  | .ok entry => if entry.extension = some "json" then entry.text.toOption else none

/-- An entry that does not end the loop. -/
def Readable (entry : Except String DirEntry) : Prop := ∃ docs, readEntry [] entry = .ok docs

theorem readEntry_ok_iff {docs docs' : List String} {entry : Except String DirEntry} :
    readEntry docs entry = .ok docs' ↔ Readable entry ∧ docs' = docs ++ (documentOf entry).toList := by
  cases entry with
  | error e => simp [readEntry, Readable]
  | ok entry =>
    by_cases hjson : entry.extension = some "json"
    · cases htext : entry.text with
      | error e => simp [readEntry, Readable, hjson, htext]
      | ok text =>
        simp [readEntry, Readable, documentOf, hjson, htext, Except.toOption, eq_comm]
    · simp [readEntry, Readable, documentOf, hjson, eq_comm]

theorem foldlM_readEntry {entries : List (Except String DirEntry)} {docs docs' : List String} :
    entries.foldlM readEntry docs = .ok docs' ↔
      (∀ entry ∈ entries, Readable entry) ∧ docs' = docs ++ entries.filterMap documentOf := by
  induction entries generalizing docs with
  | nil =>
    rw [List.foldlM_nil, List.filterMap_nil, List.append_nil]
    exact ⟨fun h => ⟨by simp, (Except.ok.inj h).symm⟩, fun h => congrArg Except.ok h.2.symm⟩
  | cons entry entries ih =>
    have hdocs : (entry :: entries).filterMap documentOf =
        (documentOf entry).toList ++ entries.filterMap documentOf := by
      cases h : documentOf entry <;> simp [h]
    rw [List.foldlM_cons, bind_eq_ok, List.forall_mem_cons, hdocs, ← List.append_assoc]
    constructor
    · intro h
      obtain ⟨docs'', hentry, hrest⟩ := h
      obtain ⟨hreadable, rfl⟩ := readEntry_ok_iff.mp hentry
      obtain ⟨hall, rfl⟩ := ih.mp hrest
      exact ⟨⟨hreadable, hall⟩, rfl⟩
    · intro h
      obtain ⟨⟨hreadable, hall⟩, rfl⟩ := h
      exact ⟨_, readEntry_ok_iff.mpr ⟨hreadable, rfl⟩, ih.mpr ⟨hall, rfl⟩⟩

theorem fromDir_ok_iff {entries : List (Except String DirEntry)} {source : JsonContractSource} :
    fromDir serde (.ok entries) = .ok source ↔ (∀ entry ∈ entries, Readable entry) ∧
      fromJsonStrs serde (entries.filterMap documentOf) = .ok source := by
  rw [fromDir, bind_eq_ok]
  constructor
  · intro h
    obtain ⟨docs, hfold, hload⟩ := h
    obtain ⟨hall, rfl⟩ := foldlM_readEntry.mp hfold
    exact ⟨hall, hload⟩
  · intro h
    exact ⟨_, foldlM_readEntry.mpr ⟨h.1, rfl⟩, h.2⟩

theorem sameLoad_fromDir {entries entries' : List (Except String DirEntry)}
    (hperm : entries'.Perm entries) (h : OrderFree serde (entries.filterMap documentOf)) :
    SameLoad (fromDir serde (.ok entries)) (fromDir serde (.ok entries')) := by
  have hload := (sameLoad_iff_orderFree serde _).mpr h _ (hperm.filterMap documentOf)
  by_cases hall : ∀ entry ∈ entries, Readable entry
  · have hall' : ∀ entry ∈ entries', Readable entry :=
      fun entry hentry => hall entry (hperm.mem_iff.mp hentry)
    obtain ⟨hfails, hfails'⟩ | ⟨source, source', hsource, hsource', hsame⟩ := hload
    · exact .inl ⟨fun source hok => hfails source (fromDir_ok_iff.mp hok).2,
        fun source hok => hfails' source (fromDir_ok_iff.mp hok).2⟩
    · exact .inr ⟨source, source', fromDir_ok_iff.mpr ⟨hall, hsource⟩,
        fromDir_ok_iff.mpr ⟨hall', hsource'⟩, hsame⟩
  · exact .inl ⟨fun source hok => hall (fromDir_ok_iff.mp hok).1,
      fun source hok => hall fun entry hentry =>
        (fromDir_ok_iff.mp hok).1 entry (hperm.mem_iff.mpr hentry)⟩

/-- **When the order does not matter**: some document cannot be read, or the contracts for one
dataset are interchangeable; and then the order of a directory does not, either. -/
theorem load_order_iff (serde : SerdeJson) :
    (∀ docs : List String, (∀ docs' : List String, docs'.Perm docs →
      SameLoad (fromJsonStrs serde docs) (fromJsonStrs serde docs')) ↔ OrderFree serde docs) ∧
    ∀ entries entries' : List (Except String DirEntry), entries'.Perm entries →
      OrderFree serde (entries.filterMap documentOf) →
        SameLoad (fromDir serde (.ok entries)) (fromDir serde (.ok entries')) :=
  ⟨sameLoad_iff_orderFree serde, fun _ _ => sameLoad_fromDir⟩

end JsonContractSource

/-! ### Two contracts for one dataset -/

def openText : String :=
  "\x7b\"contract_id\":\"open\",\"version\":\"1\",\"dataset\":\"sales\"," ++
  "\"binding\":\x7b\"parquet\":\"/data/sales.parquet\"\x7d,\"owner_tenant\":\"acme\"\x7d"

def closedText : String :=
  "\x7b\"contract_id\":\"closed\",\"version\":\"1\",\"dataset\":\"sales\"," ++
  "\"binding\":\x7b\"parquet\":\"/data/sales.parquet\"\x7d,\"owner_tenant\":\"acme\"," ++
  "\"purposes\":[\"audit\"]\x7d"

def salesMembers (contractId : String) : List (String × Json) :=
  [("contract_id", .string contractId), ("version", .string "1"), ("dataset", .string "sales"),
    ("binding", .object [("parquet", .string "/data/sales.parquet")]),
    ("owner_tenant", .string "acme")]

/-- A parser of these two documents. -/
def salesSerde : SerdeJson where
  fromSlice := fun bytes =>
    if bytes = utf8 openText then some (.object (salesMembers "open"))
    else if bytes = utf8 closedText then
      some (.object (salesMembers "closed" ++ [("purposes", .array [.string "audit"])]))
    else none
  toVec := fun _ => []
  fromSlice_nil := by
    rw [if_neg (ne_utf8 (by decide +kernel)), if_neg (ne_utf8 (by decide +kernel))]

def openContract : JsonContract :=
  ⟨"open", "1", "sales", ⟨"/data/sales.parquet"⟩, "acme", [], [], none, .empty⟩

def closedContract : JsonContract :=
  {openContract with contractId := "closed", purposes := ["audit"]}

theorem entryOf_open :
    JsonContractSource.entryOf salesSerde openText = some ("sales", openContract) := by
  have hparse : salesSerde.fromSlice (utf8 openText) = some (.object (salesMembers "open")) := by
    simp [salesSerde]
  rw [JsonContractSource.entryOf, hparse]
  rfl

theorem entryOf_closed :
    JsonContractSource.entryOf salesSerde closedText = some ("sales", closedContract) := by
  have hne : utf8 closedText ≠ utf8 openText := fun h => absurd (utf8_inj h) (by decide +kernel)
  have hparse : salesSerde.fromSlice (utf8 closedText) =
      some (.object (salesMembers "closed" ++ [("purposes", .array [.string "audit"])])) := by
    simp [salesSerde, hne]
  rw [JsonContractSource.entryOf, hparse]
  rfl

/-- **The last file wins**: everyone may read, or auditors only. -/
theorem order_decides : ¬ ∀ (serde : SerdeJson) (docs docs' : List String), docs'.Perm docs →
    JsonContractSource.SameLoad (JsonContractSource.fromJsonStrs serde docs)
      (JsonContractSource.fromJsonStrs serde docs') := by
  intro h
  obtain hbad | hsame := (JsonContractSource.sameLoad_iff_orderFree salesSerde
    [openText, closedText]).mp fun docs' hperm => h salesSerde _ docs' hperm
  · simp [entryOf_open, entryOf_closed] at hbad
  · have hmem : JsonContractSource.contractsOf salesSerde [openText, closedText] =
        [("sales", openContract), ("sales", closedContract)] := by
      simp [JsonContractSource.contractsOf, entryOf_open, entryOf_closed]
    rw [hmem] at hsame
    have hid := (hsame ("sales", openContract) (by simp) ("sales", closedContract) (by simp) rfl).1.contractId
    exact absurd hid (by decide)

end Griot
