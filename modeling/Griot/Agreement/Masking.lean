import Griot.Logical.Evaluate
import Griot.Physical.Masking

/-! Where the masking rule and the masking operator mask alike.

The rule finds the policy of a column under `column_policies`, the operator under
`column_masking`; the rule masks with an expression, the operator cell by cell. The policies
are one where the two name the same token, of the five that mask; of the masked cells only
some are (`masks_alike_iff`). -/
namespace Griot.Agreement

open Lib
open Logical (Datum Evaluator Expr MaskPolicy MaskingRule Planner datumOf)
open Physical (MaskingExec)

/-! ### The policies -/

/-- The tokens that mask. -/
def maskTokens : List String := ["redact", "hash_sha256", "tokenize", "partial", "null"]

/-- The policy of a column, by its token. -/
def policyOf : Option String → MaskPolicy
  | some token => MaskPolicy.fromBundleStr token
  | none => .noop

/-- What the bundle says of the column under `column_policies`, if the rule can read it. -/
def ruleToken (rule : MaskingRule) (name : String) : Option String := do
  let data ← rule.parseBundle
  let entry ← data.columnPolicies.lookup name
  return entry.mask

/-- What the bundle says of the column under `column_masking`, if the operator can read it. -/
def execToken (serde : SerdeJson) (bundle : ContractBundleHandle) (name : String) :
    Option String :=
  match Physical.bundleData "MaskingExec" Physical.MaskingBundleData.ofJson ⟨.empty⟩ serde bundle with
  | .ok data => data.columnMasking.lookup name
  | .error _ => none

theorem ruleToken_policy (rule : MaskingRule) (name : String) :
    rule.policyForColumn name = policyOf (ruleToken rule name) := by
  unfold MaskingRule.policyForColumn ruleToken
  cases rule.parseBundle with
  | none => rfl
  | some data =>
    simp only [Option.bind_eq_bind, Option.bind_some]
    cases data.columnPolicies.lookup name <;> rfl

theorem execToken_policy {serde : SerdeJson} {bundle : ContractBundleHandle}
    {columnPolicies : Dict String MaskPolicy}
    (h : MaskingExec.parseMaskingBundle serde bundle = .ok columnPolicies) (outputSchema : Schema)
    (name : String) : MaskingExec.policyForColumn ⟨bundle, columnPolicies, outputSchema⟩ name =
      policyOf (execToken serde bundle name) := by
  obtain ⟨data, hdata, h⟩ := bind_eq_ok.mp h
  have hall : ∀ col token, data.columnMasking.lookup col = some token →
      MaskingExec.parsePolicyStr token col = .ok (MaskPolicy.fromBundleStr token) := by
    intro col token hlookup
    obtain ⟨policy, hpolicy⟩ := Dict.traverse_entry_ok h hlookup
    rw [MaskingExec.parsePolicyStr] at hpolicy ⊢
    split at hpolicy
    · rename_i htoken
      simp only [MaskPolicy.fromBundleStr_of_ofToken? htoken]
    · cases hpolicy
  obtain ⟨rebuilt, hrebuilt, hlookup⟩ := Dict.traverse_ok data.columnMasking hall
  obtain rfl := Except.ok.inj (h.symm.trans hrebuilt)
  unfold MaskingExec.policyForColumn execToken
  simp only [hlookup, hdata]
  cases data.columnMasking.lookup name <;> rfl

theorem fromBundleStr_ne_noop {token : String} (h : token ∈ maskTokens) :
    MaskPolicy.fromBundleStr token ≠ .noop := by
  revert token
  decide

theorem mem_of_fromBundleStr {token : String} (h : MaskPolicy.fromBundleStr token ≠ .noop) :
    token ∈ maskTokens := by
  unfold MaskPolicy.fromBundleStr at h
  split at h
  case h_6 => exact absurd rfl h
  all_goals decide

theorem fromBundleStr_inj {token token' : String} (h : token ∈ maskTokens)
    (h' : token' ∈ maskTokens)
    (heq : MaskPolicy.fromBundleStr token = MaskPolicy.fromBundleStr token') : token = token' := by
  have hall : ∀ a ∈ maskTokens, ∀ b ∈ maskTokens,
      MaskPolicy.fromBundleStr a = MaskPolicy.fromBundleStr b → a = b := by decide
  exact hall token h token' h' heq

/-- A token that masks is told by its policy. -/
theorem policyOf_eq_iff {token : String} (h : token ∈ maskTokens) (found : Option String) :
    policyOf found = MaskPolicy.fromBundleStr token ↔ found = some token := by
  refine ⟨fun hpolicy => ?_, fun hfound => by rw [hfound, policyOf]⟩
  cases found with
  | none => exact absurd hpolicy.symm (fromBundleStr_ne_noop h)
  | some other =>
    rw [policyOf] at hpolicy
    have hother : other ∈ maskTokens :=
      mem_of_fromBundleStr (hpolicy ▸ fromBundleStr_ne_noop h)
    exact congrArg some (fromBundleStr_inj hother h hpolicy)

theorem policyOf_of_unmasked {found : Option String} (h : ∀ token ∈ maskTokens, found ≠ some token) :
    policyOf found = .noop := by
  cases found with
  | none => rfl
  | some token =>
    by_contra hmasks
    exact h token (mem_of_fromBundleStr hmasks) rfl

/-- **The two find one policy exactly where they find the same token, of those that mask.** -/
theorem policyOf_eq_policyOf_iff (found found' : Option String) :
    policyOf found = policyOf found' ↔
      ∀ token ∈ maskTokens, found = some token ↔ found' = some token := by
  constructor
  · intro h token htoken
    rw [← policyOf_eq_iff htoken, ← policyOf_eq_iff htoken, h]
  · intro h
    by_cases hmasked : ∃ token ∈ maskTokens, found = some token
    · obtain ⟨token, htoken, hfound⟩ := hmasked
      rw [hfound, (h token htoken).1 hfound]
    · have hnone : ∀ token ∈ maskTokens, found ≠ some token := by simpa using hmasked
      rw [policyOf_of_unmasked hnone, policyOf_of_unmasked]
      exact fun token htoken hfound' => hnone token htoken ((h token htoken).2 hfound')

/-! ### The cells -/

/-- What the functions of the engine do, and the digest in hexadecimal. -/
structure Computes (E : Evaluator) (engine : Physical.Engine) (sha256 : Bytes → Bytes) : Prop where
  sha256_text : ∀ s, E.function "sha256" [.text s] = some (.binary (sha256 (utf8 s)))
  sha256_null : E.function "sha256" [.null] = some .null
  sha256_length : ∀ bytes, (sha256 bytes).length = 32
  /-- Bytes are cast to the text they encode, or to none. -/
  cast_binary : ∀ bytes d, E.cast .utf8 (.binary bytes) = some d → d = .null ∨
    ∃ s, d = .text s ∧ utf8 s = bytes
  cast_null : E.cast .utf8 .null = some .null
  right_text : ∀ s (n : Nat), E.function "right" [.text s, .number n] =
    some (.text (String.ofList (s.toList.drop (s.length - n))))
  right_null : ∀ n, E.function "right" [.null, n] = some .null
  /-- Nulls are skipped. -/
  concat : ∀ texts : List (Option String),
    E.function "concat" (texts.map fun text => text.elim .null .text) =
      some (.text (String.join (texts.filterMap id)))
  sha256Hex_length : ∀ bytes, (utf8 (engine.sha256Hex bytes)).length = 64

/-- The datum of a text, or of none. -/
def textDatum (text : Option String) : Datum := text.elim .null .text

theorem datumOf_string {cell : Value} {dataType : DataType} (htyped : cell.hasType dataType = true)
    (hstring : dataType = .utf8 ∨ dataType = .largeUtf8) :
    datumOf cell = textDatum (MaskingExec.textOf cell) := by
  obtain rfl | rfl := hstring <;> cases cell <;> first | rfl | cases htyped

/-- The cells on which the two policies come to the same. -/
def Kept : MaskPolicy → Option String → Prop
  | .noop, _ => True
  | .partialMask, text => text ≠ none
  | .hashSha256, text => text = none
  | .tokenize, text => text = none
  | .null, text => text = none
  | .redact, _ => False

/-- What the operator leaves of a cell. -/
def maskedText (engine : Physical.Engine) (policy : MaskPolicy) (text : Option String) : Datum :=
  if policy = .noop then textDatum text else datumOf (MaskingExec.maskText engine policy text)

section
variable {E : Evaluator} {engine : Physical.Engine} {sha256 : Bytes → Bytes}
  (hE : Computes E engine sha256) {row : Logical.Column → Datum} {expr : Expr}
  {text : Option String} (hexpr : E.eval row expr = some (textDatum text))

include hE hexpr

/-- The digest as text is not the digest in hexadecimal. -/
theorem eval_sha256_iff (name : String) :
    E.eval row (.alias (.cast (.scalarFunction "sha256" [expr]) .utf8) name) =
      some (datumOf (MaskingExec.maskText engine .hashSha256 text)) ↔ text = none := by
  have heval : E.eval row (.alias (.cast (.scalarFunction "sha256" [expr]) .utf8) name) =
      (E.function "sha256" [textDatum text]).bind (E.cast .utf8) := by
    simp only [Evaluator.eval, Logical.Expr.scalarFunction, Evaluator.evalAll, hexpr]
    rfl
  rw [heval]
  cases text with
  | none =>
    rw [textDatum, Option.elim_none, hE.sha256_null, Option.bind_some, hE.cast_null]
    exact iff_of_true rfl rfl
  | some s =>
    rw [textDatum, Option.elim_some, hE.sha256_text, Option.bind_some]
    refine iff_of_false ?_ nofun
    intro hcast
    obtain hnull | ⟨digest, hdigest, hbytes⟩ := hE.cast_binary _ _ hcast
    · cases hnull
    · obtain rfl : engine.sha256Hex (utf8 s) = digest := Datum.text.inj hdigest
      have hshort := hE.sha256_length (utf8 s)
      rw [← hbytes, hE.sha256Hex_length] at hshort
      cases hshort

theorem eval_partial_iff (name : String) :
    E.eval row (.alias (.scalarFunction "concat" [.literal (.utf8 (some "***")),
      .scalarFunction "right" [expr, .literal (.int64 4)]]) name) =
      some (datumOf (MaskingExec.maskText engine .partialMask text)) ↔ text ≠ none := by
  have hright : E.eval row (.scalarFunction "right" [expr, .literal (.int64 4)]) =
      E.function "right" [textDatum text, .number (4 : Nat)] := by
    simp only [Evaluator.eval, Logical.Expr.scalarFunction, Evaluator.evalAll, hexpr]
    rfl
  have hconcat : ∀ tail, E.function "right" [textDatum text, .number (4 : Nat)] = some (textDatum tail) →
      E.eval row (.alias (.scalarFunction "concat" [.literal (.utf8 (some "***")),
        .scalarFunction "right" [expr, .literal (.int64 4)]]) name) =
        some (.text (String.join (["***"] ++ tail.toList))) := by
    intro tail htail
    have hskip := hE.concat [some "***", tail]
    rw [Evaluator.eval, Logical.Expr.scalarFunction, Evaluator.eval, Evaluator.evalAll,
      Evaluator.evalAll, hright, htail]
    cases tail <;> exact hskip
  cases text with
  | none =>
    rw [hconcat none (hE.right_null _)]
    exact iff_of_false nofun (not_not.2 rfl)
  | some s =>
    rw [hconcat (some (String.ofList (s.toList.drop (s.length - 4)))) (hE.right_text s 4)]
    refine iff_of_true ?_ nofun
    simp only [MaskingExec.maskText, MaskingExec.maskStringValue, datumOf]
    simp [String.join]

/-- **The expression of the rule and the operator make the same of a cell exactly where the
policy keeps it.** -/
theorem eval_applyMask_iff (rule : MaskingRule) (policy : MaskPolicy) :
    E.eval row (rule.applyMask expr policy) = some (maskedText engine policy text) ↔
      Kept policy text := by
  cases policy with
  | noop => exact iff_of_true hexpr trivial
  | redact =>
    refine iff_of_false ?_ id
    intro h
    cases text with
    | none => cases h
    | some s =>
      have htexts : "<REDACTED>" = "***" := Datum.text.inj (Option.some.inj h)
      exact absurd htexts (by decide)
  | null =>
    cases text with
    | none => exact iff_of_true rfl rfl
    | some s => exact iff_of_false nofun nofun
  | hashSha256 => exact eval_sha256_iff hE hexpr _
  | tokenize => exact eval_sha256_iff hE hexpr _
  | partialMask => exact eval_partial_iff hE hexpr _

end

/-! ### The bundle -/

/-- What the operator makes of one cell of a column. -/
def maskedCell (engine : Physical.Engine) (col : ArrayRef) (name : String) (policy : MaskPolicy)
    (i : Nat) : Option Value :=
  match MaskingExec.applyMaskToColumn engine col name policy with
  | .ok masked => masked.cells[i]?
  | .error _ => none

theorem maskedCell_string {engine : Physical.Engine} {col : ArrayRef} {i : Nat} {cell : Value}
    (hstring : col.dataType = .utf8 ∨ col.dataType = .largeUtf8) (hcell : col.cells[i]? = some cell)
    (name : String) (policy : MaskPolicy) :
    (maskedCell engine col name policy i).map datumOf =
      some (maskedText engine policy (MaskingExec.textOf cell)) := by
  unfold maskedCell MaskingExec.applyMaskToColumn maskedText
  by_cases hnoop : policy = .noop
  · have htyped := col.typed cell (List.mem_of_getElem? hcell)
    simp only [if_pos hnoop, hcell, Option.map_some, datumOf_string htyped hstring]
  · simp only [if_neg hnoop, if_pos hstring, MaskingExec.maskStrings, ArrayRef.map,
      List.getElem?_map, hcell, Option.map_some]

section
variable (E : Evaluator) (engine : Physical.Engine) (rule : MaskingRule) (op : MaskingExec)

/-- The two find one policy for the column, and the rule's expression over a cell has the value
that the operator makes of it. -/
def MasksAlike (name : String) (row : Logical.Column → Datum) (expr : Expr) (col : ArrayRef)
    (i : Nat) : Prop :=
  rule.policyForColumn name = op.policyForColumn name ∧
    E.eval row (rule.applyMask expr (rule.policyForColumn name)) =
      (maskedCell engine col name (op.policyForColumn name) i).map datumOf

end

/-- **The rule and the operator mask a cell of a string column alike exactly where the bundle
gives them the same token, of those that mask, and the policy keeps the cell.** -/
theorem masks_alike_iff {E : Evaluator} {engine : Physical.Engine} {sha256 : Bytes → Bytes}
    (hE : Computes E engine sha256) {serde : SerdeJson} {bundle : ContractBundleHandle}
    {columnPolicies : Dict String MaskPolicy}
    (hparse : MaskingExec.parseMaskingBundle serde bundle = .ok columnPolicies) {col : ArrayRef}
    (hstring : col.dataType = .utf8 ∨ col.dataType = .largeUtf8) {i : Nat} {cell : Value}
    (hcell : col.cells[i]? = some cell) {row : Logical.Column → Datum} {expr : Expr}
    (hexpr : E.eval row expr = some (datumOf cell)) (planner : Planner) (outputSchema : Schema)
    (name : String) :
    MasksAlike E engine ⟨serde, planner, bundle⟩ ⟨bundle, columnPolicies, outputSchema⟩ name row expr
        col i ↔
      (∀ token ∈ maskTokens, ruleToken ⟨serde, planner, bundle⟩ name = some token ↔
        execToken serde bundle name = some token) ∧
      Kept (policyOf (execToken serde bundle name)) (MaskingExec.textOf cell) := by
  rw [datumOf_string (col.typed cell (List.mem_of_getElem? hcell)) hstring] at hexpr
  rw [MasksAlike, ruleToken_policy, execToken_policy hparse, ← policyOf_eq_policyOf_iff,
    maskedCell_string hstring hcell]
  refine and_congr_right fun hpolicy => ?_
  rw [hpolicy]
  exact eval_applyMask_iff hE hexpr _ _

/-! A bundle with one token for one column under either key, and an engine to mask with. -/

def ssnDocument (token : String) : Json :=
  .object [("column_policies", .object [("ssn", .object [("mask", .string token)])]),
    ("column_masking", .object [("ssn", .string token)])]

def ssnSerde (token : String) : SerdeJson := .just "bundle" (ssnDocument token) (by decide)

def ssnBundle : ContractBundleHandle := ⟨utf8 "bundle", "c", "acme"⟩

def ssnColumn : ArrayRef := ⟨.utf8, [.utf8 "123-45-6789"], by decide⟩

def blankPlanner : Planner := ⟨fun _ _ => none, fun _ _ => .ok [], fun _ => ""⟩

def zeroDigest : String := "0000000000000000000000000000000000000000000000000000000000000000"

/-- An engine whose digest of everything is zero. -/
def zeroEngine : Physical.Engine where
  sql := ⟨fun _ => .error "no parser", fun name => ⟨none, name⟩, fun _ => ""⟩
  dfSchema := fun _ => .ok ()
  createPhysicalExpr := fun _ _ => .error "no planner"
  castFails := fun _ _ => none
  render := fun _ _ => none
  sha256Hex := fun _ => zeroDigest
  rounding := .nearest

def zeroEvaluator : Evaluator where
  compare := fun _ _ _ => .unknown
  function
    | "sha256", [.text _] => some (.binary (List.replicate 32 0))
    | "sha256", [.null] => some .null
    | "right", [.text s, .number n] =>
      some (.text (String.ofList (s.toList.drop (s.length - n.num.toNat))))
    | "right", [.null, _] => some .null
    | "concat", ds => some (.text (String.join (ds.filterMap textOf)))
    | _, _ => none
  cast
    | .utf8, .binary _ => some .null
    | .utf8, .null => some .null
    | _, _ => none
where
  textOf : Datum → Option String
    | .text s => some s
    | _ => none

theorem zeroEvaluator_computes :
    Computes zeroEvaluator zeroEngine fun _ => List.replicate 32 0 where
  sha256_text := fun _ => rfl
  sha256_null := rfl
  sha256_length := fun _ => rfl
  cast_binary := by
    intro bytes d h
    exact .inl (Option.some.inj h).symm
  cast_null := rfl
  right_text := by
    intro s n
    simp [zeroEvaluator]
  right_null := fun n => rfl
  concat := by
    intro texts
    have htexts : (texts.map fun text => text.elim Datum.null .text).filterMap
        zeroEvaluator.textOf = texts.filterMap id := by
      rw [List.filterMap_map]
      apply List.filterMap_congr
      intro text _
      cases text <;> rfl
    simp [zeroEvaluator, htexts]
  sha256Hex_length := by
    have hlength : (utf8 zeroDigest).length = 64 := by decide
    exact fun _ => hlength

theorem ssnBundle_read (token : String) : Physical.bundleData "MaskingExec"
    Physical.MaskingBundleData.ofJson ⟨.empty⟩ (ssnSerde token) ssnBundle =
      .ok ⟨.ofList [("ssn", token)]⟩ :=
  Physical.bundleData_of_document (SerdeJson.just_fromSlice _ (ssnDocument token) _) rfl

theorem ssnBundle_parse {token : String} {policy : MaskPolicy}
    (h : MaskPolicy.ofToken? token = some policy) :
    MaskingExec.parseMaskingBundle (ssnSerde token) ssnBundle =
      .ok (.ofList [("ssn", policy)]) := by
  have hentry : ∀ col other, (Dict.ofList [("ssn", token)]).lookup col = some other →
      MaskingExec.parsePolicyStr other col = .ok policy := by
    intro col other hlookup
    obtain ⟨-, rfl⟩ : col = "ssn" ∧ other = token := by
      simpa using (Dict.lookup_ofList _ (by simp)).1 hlookup
    rw [MaskingExec.parsePolicyStr, h]
  obtain ⟨rebuilt, hrebuilt, hlookup⟩ := Dict.traverse_ok _ hentry
  rw [MaskingExec.parseMaskingBundle, ssnBundle_read]
  refine hrebuilt.trans (congrArg Except.ok (Dict.ext fun col => ?_))
  rw [hlookup]
  show (if col = "ssn" then some token else none).map _ = if col = "ssn" then some policy else none
  split <;> rfl

theorem masks_alike_iff_partial :
    MasksAlike zeroEvaluator zeroEngine ⟨ssnSerde "partial", blankPlanner, ssnBundle⟩
        ⟨ssnBundle, .ofList [("ssn", .partialMask)], []⟩ "ssn" (fun _ => .text "123-45-6789")
        (.column ⟨none, "ssn"⟩) ssnColumn 0 ↔
      (∀ token ∈ maskTokens,
        ruleToken ⟨ssnSerde "partial", blankPlanner, ssnBundle⟩ "ssn" = some token ↔
          execToken (ssnSerde "partial") ssnBundle "ssn" = some token) ∧
      Kept (policyOf (execToken (ssnSerde "partial") ssnBundle "ssn"))
        (MaskingExec.textOf (.utf8 "123-45-6789")) :=
  masks_alike_iff zeroEvaluator_computes (ssnBundle_parse rfl) (.inl rfl) (i := 0) rfl rfl
    blankPlanner [] "ssn"

/-- **A redacted text is one thing in the plan and another in the batch.** -/
theorem redact_unlike :
    MaskingExec.parseMaskingBundle (ssnSerde "redact") ssnBundle = .ok (.ofList [("ssn", .redact)]) ∧
      MaskingRule.policyForColumn ⟨ssnSerde "redact", blankPlanner, ssnBundle⟩ "ssn" = .redact ∧
      zeroEvaluator.eval (fun _ => .text "123-45-6789")
        (MaskingRule.applyMask ⟨ssnSerde "redact", blankPlanner, ssnBundle⟩ (.column ⟨none, "ssn"⟩)
          .redact) = some (.text "<REDACTED>") ∧
      maskedCell zeroEngine ssnColumn "ssn" .redact 0 = some (.utf8 "***") := by
  refine ⟨ssnBundle_parse rfl, ?_, rfl, rfl⟩
  have hdocument : ssnBundle.document (ssnSerde "redact") = some (ssnDocument "redact") :=
    ContractBundleHandle.document_just _ _ _ _ _
  rw [MaskingRule.policyForColumn, MaskingRule.parseBundle, hdocument]
  rfl

end Griot.Agreement
