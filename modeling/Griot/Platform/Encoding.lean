import Griot.Platform.Bundle

/-! The bytes that are hashed and signed.

Every field comes with its length and every list with its count, so what the hasher is
fed can be read back field by field as long as no length reaches `2 ^ 32`. It fixes the
manifest and, of the lists, everything but the order that sorting forgets; the bytes of
the signing payload fix all they are made of (`encoding_injective`). -/
namespace Griot.Platform

open Lib

/-! ### The digest input can be read back -/

/-- A field whose length the four bytes before it hold. -/
def Short (field : Bytes) : Prop := field.length < 2 ^ 32

def WasmModule.Short (m : WasmModule) : Prop := Platform.Short (utf8 m.name) ∧ Platform.Short m.bytes

def RegoBundle.Short (r : RegoBundle) : Prop :=
  Platform.Short (utf8 r.name) ∧ Platform.Short (utf8 r.source)

def SqlTemplate.Short (t : SqlTemplate) : Prop :=
  Platform.Short (utf8 t.name) ∧ Platform.Short (utf8 t.template)

def ResolutionMapEntry.Short (e : ResolutionMapEntry) : Prop :=
  (Platform.Short (utf8 e.datasetId) ∧ Platform.Short (utf8 e.operation)) ∧
    Platform.Short (utf8 e.checkRef)

/-- Every field and every list is shorter than `2 ^ 32`. -/
structure CompiledBundle.Short (bundle : CompiledBundle) : Prop where
  contractId : Platform.Short (utf8 bundle.manifest.contractId)
  wasmModules : bundle.wasmModules.length < 2 ^ 32 ∧ ∀ m ∈ bundle.wasmModules, m.Short
  regoBundles : bundle.regoBundles.length < 2 ^ 32 ∧ ∀ r ∈ bundle.regoBundles, r.Short
  sqlTemplates : bundle.sqlTemplates.length < 2 ^ 32 ∧ ∀ t ∈ bundle.sqlTemplates, t.Short
  entries : bundle.resolutionMap.entries.length < 2 ^ 32 ∧
    ∀ e ∈ bundle.resolutionMap.entries, e.Short

theorem frame_short : SelfDelimiting Short frame := frame_selfDelimiting

theorem short_u64le (v : UInt64) : Short (u64le v) := by
  show (u64le v).length < 2 ^ 32
  simp

theorem short_u32le (v : UInt32) : Short (u32le v) := by
  show (u32le v).length < 2 ^ 32
  simp

theorem BundleManifest.encode_selfDelimiting :
    SelfDelimiting (fun m => Short (utf8 m.contractId)) BundleManifest.encode := by
  intro m n s t hm hn h
  have hfields := ((frame_short.append frame_short).append frame_short)
    ((utf8 m.contractId, u64le m.contractVersion), u64le m.compiledAtUnixMs)
    ((utf8 n.contractId, u64le n.contractVersion), u64le n.compiledAtUnixMs) s t
    ⟨⟨hm, short_u64le _⟩, short_u64le _⟩ ⟨⟨hn, short_u64le _⟩, short_u64le _⟩ h
  simp only [Prod.mk.injEq] at hfields
  obtain ⟨⟨⟨hid, hversion⟩, hcompiled⟩, hrest⟩ := hfields
  refine ⟨?_, hrest⟩
  obtain ⟨id, version, compiled⟩ := m
  rw [BundleManifest.mk.injEq]
  exact ⟨utf8_inj hid, u64le_inj hversion, u64le_inj hcompiled⟩

theorem WasmModule.encode_selfDelimiting : SelfDelimiting WasmModule.Short WasmModule.encode :=
  (frame_short.append frame_short).comap (f := fun m : WasmModule => (utf8 m.name, m.bytes))
    fun m n h => by
      obtain ⟨hname, hbytes⟩ := by simpa only [Prod.mk.injEq] using h
      obtain ⟨name, bytes⟩ := m
      rw [WasmModule.mk.injEq]
      exact ⟨utf8_inj hname, hbytes⟩

theorem RegoBundle.encode_selfDelimiting : SelfDelimiting RegoBundle.Short RegoBundle.encode :=
  (frame_short.append frame_short).comap
    (f := fun r : RegoBundle => (utf8 r.name, utf8 r.source)) fun r q h => by
      obtain ⟨hname, hsource⟩ := by simpa only [Prod.mk.injEq] using h
      obtain ⟨name, source⟩ := r
      rw [RegoBundle.mk.injEq]
      exact ⟨utf8_inj hname, utf8_inj hsource⟩

theorem SqlTemplate.encode_selfDelimiting : SelfDelimiting SqlTemplate.Short SqlTemplate.encode :=
  (frame_short.append frame_short).comap
    (f := fun t : SqlTemplate => (utf8 t.name, utf8 t.template)) fun t u h => by
      obtain ⟨hname, htemplate⟩ := by simpa only [Prod.mk.injEq] using h
      obtain ⟨name, template⟩ := t
      rw [SqlTemplate.mk.injEq]
      exact ⟨utf8_inj hname, utf8_inj htemplate⟩

theorem ResolutionMapEntry.encode_selfDelimiting :
    SelfDelimiting ResolutionMapEntry.Short ResolutionMapEntry.encode :=
  ((frame_short.append frame_short).append frame_short).comap
    (f := fun e : ResolutionMapEntry => ((utf8 e.datasetId, utf8 e.operation), utf8 e.checkRef))
    fun d e h => by
      obtain ⟨⟨hdataset, hoperation⟩, hcheck⟩ := by simpa only [Prod.mk.injEq] using h
      obtain ⟨dataset, operation, check⟩ := d
      rw [ResolutionMapEntry.mk.injEq]
      exact ⟨utf8_inj hdataset, utf8_inj hoperation, utf8_inj hcheck⟩

/-- The manifest and the sorted lists: what the digest is taken of. -/
def CompiledBundle.sorted (bundle : CompiledBundle) :
    BundleManifest × List WasmModule × List RegoBundle × List SqlTemplate ×
      List ResolutionMapEntry :=
  (bundle.manifest, sortBy WasmModule.name bundle.wasmModules,
    sortBy RegoBundle.name bundle.regoBundles, sortBy SqlTemplate.name bundle.sqlTemplates,
    sortBy ResolutionMapEntry.key bundle.resolutionMap.entries)

/-- Bundles alike up to the order that sorting forgets have the same digest. -/
theorem digestInput_of_sorted_eq (bundle bundle' : CompiledBundle)
    (h : bundle'.sorted = bundle.sorted) : digestInput bundle' = digestInput bundle := by
  simp only [CompiledBundle.sorted, Prod.mk.injEq] at h
  obtain ⟨hmanifest, hwasm, hrego, hsql, hentries⟩ := h
  rw [digestInput, digestInput, hmanifest, hwasm, hrego, hsql, hentries]

/-- **What the digest fixes** of bundles with short fields: everything but that order. -/
theorem sorted_of_short {bundle bundle' : CompiledBundle} (hshort : bundle.Short)
    (hshort' : bundle'.Short) (h : digestInput bundle' = digestInput bundle) :
    bundle'.sorted = bundle.sorted := by
  have hread := BundleManifest.encode_selfDelimiting.append
    ((counted_selfDelimiting WasmModule.encode_selfDelimiting).append
      ((counted_selfDelimiting RegoBundle.encode_selfDelimiting).append
        ((counted_selfDelimiting SqlTemplate.encode_selfDelimiting).append
          (counted_selfDelimiting ResolutionMapEntry.encode_selfDelimiting))))
  have hfits : ∀ b : CompiledBundle, b.Short →
      Short (utf8 b.sorted.1.contractId) ∧
        (b.sorted.2.1.length < 2 ^ 32 ∧ ∀ m ∈ b.sorted.2.1, m.Short) ∧
        (b.sorted.2.2.1.length < 2 ^ 32 ∧ ∀ r ∈ b.sorted.2.2.1, r.Short) ∧
        (b.sorted.2.2.2.1.length < 2 ^ 32 ∧ ∀ t ∈ b.sorted.2.2.2.1, t.Short) ∧
        (b.sorted.2.2.2.2.length < 2 ^ 32 ∧ ∀ e ∈ b.sorted.2.2.2.2, e.Short) := by
    intro b hb
    simp only [CompiledBundle.sorted, length_sortBy, mem_sortBy]
    exact ⟨hb.contractId, hb.wasmModules, hb.regoBundles, hb.sqlTemplates, hb.entries⟩
  exact hread.injective (hfits bundle' hshort') (hfits bundle hshort) h

/-- The items of a counted list are no longer than the list. -/
theorem short_of_counted {α : Type} (encode : α → Bytes) (hpos : ∀ a, 0 < (encode a).length)
    (items : List α) (h : (counted encode items).length < 2 ^ 32) :
    items.length < 2 ^ 32 ∧ ∀ a ∈ items, (encode a).length < 2 ^ 32 := by
  have hcount := count_le_flatMap items hpos
  simp only [counted, List.length_append] at h
  refine ⟨by omega, ?_⟩
  intro a ha
  have : (encode a).length ≤ (items.flatMap encode).length := length_le_flatMap ha
  omega

/-- Below `2 ^ 32` bytes in all, every field is short. -/
theorem CompiledBundle.short_of_length {bundle : CompiledBundle}
    (h : (digestInput bundle).length < 2 ^ 32) : bundle.Short := by
  rw [digestInput] at h
  simp only [List.length_append, BundleManifest.encode, length_frame] at h
  have hwasm := short_of_counted WasmModule.encode (fun m => by simp [WasmModule.encode])
    (sortBy WasmModule.name bundle.wasmModules) (by omega)
  have hrego := short_of_counted RegoBundle.encode (fun r => by simp [RegoBundle.encode])
    (sortBy RegoBundle.name bundle.regoBundles) (by omega)
  have hsql := short_of_counted SqlTemplate.encode (fun t => by simp [SqlTemplate.encode])
    (sortBy SqlTemplate.name bundle.sqlTemplates) (by omega)
  have hentries := short_of_counted ResolutionMapEntry.encode (fun e => by simp [ResolutionMapEntry.encode])
    (sortBy ResolutionMapEntry.key bundle.resolutionMap.entries) (by omega)
  simp only [length_sortBy, mem_sortBy, WasmModule.encode, RegoBundle.encode, SqlTemplate.encode,
    ResolutionMapEntry.encode, List.length_append, length_frame] at hwasm hrego hsql hentries
  refine ⟨?_, ⟨hwasm.1, ?_⟩, ⟨hrego.1, ?_⟩, ⟨hsql.1, ?_⟩, ⟨hentries.1, ?_⟩⟩
  · show (utf8 bundle.manifest.contractId).length < 2 ^ 32
    omega
  · intro m hm
    have hlength := hwasm.2 m hm
    constructor <;> unfold Platform.Short <;> omega
  · intro r hr
    have hlength := hrego.2 r hr
    constructor <;> unfold Platform.Short <;> omega
  · intro t ht
    have hlength := hsql.2 t ht
    constructor <;> unfold Platform.Short <;> omega
  · intro e he
    have hlength := hentries.2 e he
    refine ⟨⟨?_, ?_⟩, ?_⟩ <;> unfold Platform.Short <;> omega

/-- Below `2 ^ 32` bytes the digest fixes everything but that order. -/
theorem sorted_of_digestInput_eq {bundle bundle' : CompiledBundle}
    (hshort : (digestInput bundle).length < 2 ^ 32)
    (h : digestInput bundle' = digestInput bundle) : bundle'.sorted = bundle.sorted :=
  sorted_of_short (CompiledBundle.short_of_length hshort)
    (CompiledBundle.short_of_length (h ▸ hshort)) h

/-! ### The encodings are injective -/

theorem perm_of_sortBy_eq {α κ : Type} [LinearOrder κ] (key : α → κ) {l l' : List α}
    (h : sortBy key l' = sortBy key l) : l'.Perm l :=
  calc l'.Perm (sortBy key l') := (sortBy_perm key l').symm
    _ = sortBy key l := h
    List.Perm _ l := sortBy_perm key l

/-- The hash does not collide on two inputs. -/
def NoCollision (crypto : Crypto) (x y : Bytes) : Prop := crypto.sha256 x = crypto.sha256 y → x = y

/-- What `canonical_signing_payload` feeds the hasher. -/
def signingInput (bundleHash : Bytes) (keyGeneration : UInt32) (signedAtUnixMs : UInt64)
    (metadataBundleHash : Bytes) : Bytes :=
  frame (utf8 "t03:bundle-signing-payload:v1") ++ frame bundleHash ++
    frame (u32le keyGeneration) ++ frame (u64le signedAtUnixMs) ++ frame metadataBundleHash

theorem signingInput_inj {hash hash' metadataHash metadataHash' : Bytes} {generation generation' : UInt32}
    {signedAt signedAt' : UInt64} (hhash : Short hash) (hhash' : Short hash')
    (hmetadata : Short metadataHash) (hmetadata' : Short metadataHash')
    (h : signingInput hash' generation' signedAt' metadataHash' =
      signingInput hash generation signedAt metadataHash) :
    hash' = hash ∧ generation' = generation ∧ signedAt' = signedAt ∧ metadataHash' = metadataHash := by
  have hdomain : Short (utf8 "t03:bundle-signing-payload:v1") := by
    show (utf8 "t03:bundle-signing-payload:v1").length < 2 ^ 32
    decide
  have hread := (((frame_short.append frame_short).append frame_short).append frame_short).append
    frame_short
  have hfields := hread.injective
    (a := ((((utf8 "t03:bundle-signing-payload:v1", hash'), u32le generation'), u64le signedAt'),
      metadataHash'))
    (b := ((((utf8 "t03:bundle-signing-payload:v1", hash), u32le generation), u64le signedAt),
      metadataHash))
    ⟨⟨⟨⟨hdomain, hhash'⟩, short_u32le _⟩, short_u64le _⟩, hmetadata'⟩
    ⟨⟨⟨⟨hdomain, hhash⟩, short_u32le _⟩, short_u64le _⟩, hmetadata⟩ h
  simp only [Prod.mk.injEq, true_and] at hfields
  obtain ⟨⟨⟨rfl, hgeneration⟩, hsignedAt⟩, rfl⟩ := hfields
  exact ⟨rfl, u32le_inj hgeneration, u64le_inj hsignedAt, rfl⟩

/-- The same content: the manifest, and the lists up to their order. -/
structure SameContent (bundle bundle' : CompiledBundle) : Prop where
  manifest : bundle'.manifest = bundle.manifest
  wasmModules : bundle'.wasmModules.Perm bundle.wasmModules
  regoBundles : bundle'.regoBundles.Perm bundle.regoBundles
  sqlTemplates : bundle'.sqlTemplates.Perm bundle.sqlTemplates
  entries : bundle'.resolutionMap.entries.Perm bundle.resolutionMap.entries

theorem sameContent_of_sorted_eq {bundle bundle' : CompiledBundle}
    (h : bundle'.sorted = bundle.sorted) : SameContent bundle bundle' := by
  simp only [CompiledBundle.sorted, Prod.mk.injEq] at h
  obtain ⟨hmanifest, hwasm, hrego, hsql, hentries⟩ := h
  exact ⟨hmanifest, perm_of_sortBy_eq _ hwasm, perm_of_sortBy_eq _ hrego,
    perm_of_sortBy_eq _ hsql, perm_of_sortBy_eq _ hentries⟩

/-- **The hashed and signed encodings are injective** on bundles with short fields, so two
bundles with different content or metadata have different payloads to sign, unless SHA-256
collides on what it is fed for them. -/
theorem encoding_injective {bundle bundle' : CompiledBundle} (hshort : bundle.Short)
    (hshort' : bundle'.Short) :
    (digestInput bundle' = digestInput bundle → SameContent bundle bundle') ∧
    (∀ hash hash' generation generation' signedAt signedAt' metadataHash metadataHash',
      Short hash → Short hash' → Short metadataHash → Short metadataHash' →
      signingInput hash' generation' signedAt' metadataHash' =
        signingInput hash generation signedAt metadataHash →
      hash' = hash ∧ generation' = generation ∧ signedAt' = signedAt ∧
        metadataHash' = metadataHash) ∧
    (∀ (crypto : Crypto) generation generation' signedAt signedAt' metadataHash metadataHash',
      Short metadataHash → Short metadataHash' →
      Short (canonicalDigest crypto bundle) → Short (canonicalDigest crypto bundle') →
      NoCollision crypto (digestInput bundle') (digestInput bundle) →
      NoCollision crypto
        (signingInput (canonicalDigest crypto bundle') generation' signedAt' metadataHash')
        (signingInput (canonicalDigest crypto bundle) generation signedAt metadataHash) →
      canonicalSigningPayload crypto (canonicalDigest crypto bundle') generation' signedAt'
          metadataHash' =
        canonicalSigningPayload crypto (canonicalDigest crypto bundle) generation signedAt
          metadataHash →
      SameContent bundle bundle' ∧ generation' = generation ∧ signedAt' = signedAt ∧
        metadataHash' = metadataHash) := by
  have hcontent : digestInput bundle' = digestInput bundle → SameContent bundle bundle' :=
    fun h => sameContent_of_sorted_eq (sorted_of_short hshort hshort' h)
  refine ⟨hcontent, ?_, ?_⟩
  · intro hash hash' generation generation' signedAt signedAt' metadataHash metadataHash' hhash
      hhash' hmetadata hmetadata' h
    exact signingInput_inj hhash hhash' hmetadata hmetadata' h
  · intro crypto generation generation' signedAt signedAt' metadataHash metadataHash' hmetadata
      hmetadata' hdigest hdigest' hsha hsha' h
    obtain ⟨hhash, hrest⟩ := signingInput_inj hdigest hdigest' hmetadata hmetadata' (hsha' h)
    exact ⟨hcontent (hsha hhash), hrest⟩

/-- Two bundles that list their purpose modules in different orders. -/
theorem encoding_injective_swapped :
    SameContent ⟨⟨"c", 1, 2⟩, [], [⟨"a", "x"⟩, ⟨"b", "y"⟩], [], ⟨[]⟩⟩
      ⟨⟨"c", 1, 2⟩, [], [⟨"b", "y"⟩, ⟨"a", "x"⟩], [], ⟨[]⟩⟩ := by
  have hshort : CompiledBundle.Short ⟨⟨"c", 1, 2⟩, [], [⟨"a", "x"⟩, ⟨"b", "y"⟩], [], ⟨[]⟩⟩ :=
    CompiledBundle.short_of_length (by decide)
  have hshort' : CompiledBundle.Short ⟨⟨"c", 1, 2⟩, [], [⟨"b", "y"⟩, ⟨"a", "x"⟩], [], ⟨[]⟩⟩ :=
    CompiledBundle.short_of_length (by decide)
  exact (encoding_injective hshort hshort').1 (by decide)

end Griot.Platform
