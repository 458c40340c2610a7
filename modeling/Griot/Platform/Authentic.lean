import Griot.Platform.Coverage
import Griot.Platform.Source

/-! Bundles that really were published.

A key is trusted with what was published and what arrives when it verifies payloads of
published bundles only, and the hash tells these apart from all that arrives (`Trusts`). Then
an accepted bundle has the content of a published one, whoever answers (`verify_published`),
and maps like it where the mapping does not depend on an order the digest forgets
(`resolve_published`). -/
namespace Griot.Platform

open Lib

section Trust
variable {crypto : Crypto} {vk : crypto.VerifyingKey} {published arriving : Set CompiledBundle}

/-- What is hashed once more and then signed for a bundle. -/
def payloadInput (crypto : Crypto) (bundle : CompiledBundle) (generation : UInt32)
    (signedAt : UInt64) : Bytes :=
  signingInput (canonicalDigest crypto bundle) generation signedAt (canonicalDigest crypto bundle)

variable (crypto vk published arriving) in
structure Trusts : Prop where
  unforged : ∀ payload sig, crypto.verify vk payload sig = true → ∃ bundle ∈ published,
    ∃ generation signedAt, payload = crypto.sha256 (payloadInput crypto bundle generation signedAt)
  short : ∀ bundle ∈ published ∪ arriving, Short (canonicalDigest crypto bundle)
  digests : ∀ bundle ∈ published, ∀ bundle' ∈ arriving,
    NoCollision crypto (digestInput bundle') (digestInput bundle)
  payloads : ∀ bundle ∈ published, ∀ bundle' ∈ arriving, ∀ generation generation' signedAt signedAt',
    NoCollision crypto (payloadInput crypto bundle' generation' signedAt')
      (payloadInput crypto bundle generation signedAt)

/-- What an accepted file has shown. -/
theorem verify_ok {file : SignedBundleFile} (h : file.verify crypto vk = .ok ()) :
    ∃ sig, crypto.verify vk (crypto.sha256 (payloadInput crypto file.bundle
      file.metadata.keyGeneration file.metadata.signedAtUnixMs)) sig = true := by
  simp only [SignedBundleFile.verify] at h
  split at h
  · cases h
  · split at h
    · cases h
    · rename_i recorded _ hsame
      obtain rfl := not_not.mp hsame
      split at h
      · cases h
      · split at h
        · cases h
        · split at h
          · exact ⟨_, ‹_›⟩
          · cases h

/-- **An accepted bundle was published**, up to what the digest forgets. -/
theorem verify_published (htrust : Trusts crypto vk published arriving) {file : SignedBundleFile}
    (harrives : file.bundle ∈ arriving) (hverify : file.verify crypto vk = .ok ()) :
    ∃ bundle ∈ published, digestInput file.bundle = digestInput bundle := by
  obtain ⟨sig, hsig⟩ := verify_ok hverify
  obtain ⟨bundle, hbundle, generation, signedAt, hpayload⟩ := htrust.unforged _ sig hsig
  have hshort := htrust.short bundle (.inl hbundle)
  have hshort' := htrust.short file.bundle (.inr harrives)
  have hinput := htrust.payloads bundle hbundle file.bundle harrives generation
    file.metadata.keyGeneration signedAt file.metadata.signedAtUnixMs hpayload
  obtain ⟨hdigest, -⟩ := signingInput_inj hshort hshort' hshort hshort' hinput
  exact ⟨bundle, hbundle, htrust.digests bundle hbundle file.bundle harrives hdigest⟩

end Trust

/-! ### Policies that really were published -/

/-- A bundle that is covered by its signature: below `2 ^ 32` bytes, and mapped without regard to
an order the digest forgets. -/
structure CompiledBundle.Covered (bundle : CompiledBundle) : Prop where
  length : (digestInput bundle).length < 2 ^ 32
  orderFree : OrderFree bundle

theorem CompiledBundle.Covered.maps {bundle : CompiledBundle} (h : bundle.Covered)
    {file : SignedBundleFile} (hdigest : digestInput file.bundle = digestInput bundle) (caller : Caller) :
    mapBundleToPolicy file caller = mapBundleToPolicy (unsigned bundle) caller :=
  h.orderFree.signatureCovers h.length (unsigned bundle) file rfl hdigest caller

section Source
variable {crypto : Crypto} {serde : SerdeJson} {source : PlatformBundleSource crypto}
  {authorities : Nat → Authority}

variable (serde source authorities) in
/-- The bundles that can be read from the answers, signed or not. -/
def Arriving : Set CompiledBundle :=
  {bundle | ∃ call name status body file, authorities call (source.request name) = .response status body ∧
    SignedBundleFile.fromJson serde body = .ok file ∧ file.bundle = bundle}

theorem fetch_published {vk : crypto.VerifyingKey} {published : Set CompiledBundle}
    (hkey : source.verifyingKey = some vk)
    (htrust : Trusts crypto vk published (Arriving serde source authorities)) {call : Nat}
    {name : String} {file : SignedBundleFile}
    (h : source.fetch serde (authorities call) name = .ok file) :
    ∃ bundle ∈ published, digestInput file.bundle = digestInput bundle := by
  obtain ⟨⟨status, body, hanswer, -, hparse⟩, hsigned⟩ := PlatformBundleSource.fetch_ok_iff.mp h
  have harrives : file.bundle ∈ Arriving serde source authorities :=
    ⟨call, name, status, body, file, hanswer, hparse, rfl⟩
  have hverify : source.checkSignature file = file.verify crypto vk := by
    rw [PlatformBundleSource.checkSignature, hkey]
  exact verify_published htrust harrives (hverify.symm.trans hsigned)

/-- **A resolved policy is that of a published bundle**, whoever answers. -/
theorem resolve_published {vk : crypto.VerifyingKey} {published : Set CompiledBundle}
    (hkey : source.verifyingKey = some vk)
    (htrust : Trusts crypto vk published (Arriving serde source authorities))
    (hcovered : ∀ bundle ∈ published, bundle.Covered) {call : Nat} {name : String} {caller : Caller}
    {p : ResolvedPolicy} (h : source.resolve serde (authorities call) name caller = .ok p) :
    ∃ bundle ∈ published, p = mapBundleToPolicy (unsigned bundle) caller := by
  obtain ⟨file, hfetch, rfl⟩ := PlatformBundleSource.resolve_ok_iff.mp h
  obtain ⟨bundle, hbundle, hdigest⟩ := fetch_published hkey htrust hfetch
  exact ⟨bundle, hbundle, (hcovered bundle hbundle).maps hdigest caller⟩

end Source
end Griot.Platform
