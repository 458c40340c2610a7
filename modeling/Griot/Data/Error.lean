import Griot.Data.F64

/-! Errors of the operators and of the optimizer rules.

Texts a third party words (a parser's message, a planner's message) are carried
along as they come. -/
namespace Griot

inductive PhysicalError where
  | contractNotApproved (operator : String)
  /-- AttestationExec requires a contract_id and contract_version -/
  | missingContractReference
  | contractBundleMalformed (reason : String)
  | unknownMaskPolicy (policy column : String)
  | maskTypeUnsupported (column typeName : String)
  | invalidDpParameters (column : String) (epsilon sensitivity : F64)
  | dpTypeUnsupported (column typeName : String)
  | budgetExhausted (tenantId column : String)
  | attestationSerializationFailed (reason : String)
  | internal (message : String)
  deriving DecidableEq

inductive DataFusionError where
  /-- `External` around an operator's error. -/
  | physical (error : PhysicalError)
  /-- `External` with the text "operator: error". -/
  | operator (operator : String) (error : PhysicalError)
  | external (message : String)
  | internal (message : String)
  /-- An error of the planner or of an operator of DataFusion. -/
  | engine (message : String)
  deriving DecidableEq

end Griot
