import Griot.Lib.StableSort
import Griot.Lib.Framing
import Griot.Lib.Streams
import Griot.Lib.Columns
import Griot.Lib.Text
import Griot.Lib.Scanner
import Griot.Lib.Latin
import Griot.Lib.Gate
import Griot.Lib.Joins
import Griot.Lib.Refinement
import Griot.Result.Lossless
import Griot.Storaged.RangedRead
import Griot.Storaged.Serving
import Griot.T05.Client
import Griot.Physical.RulesApplied
import Griot.Data.Json
import Griot.Data.Number
import Griot.Data.Arrow
import Griot.Logical.RealNoise
import Griot.Logical.Satisfaction
import Griot.Logical.FilterExact
import Griot.Logical.Fixpoint
import Griot.Logical.WellFormed
import Griot.Logical.MarkerSchema
import Griot.Platform.Bundle
import Griot.Platform.Encoding
import Griot.Platform.PurposeGate
import Griot.Platform.Coverage
import Griot.Platform.MaskCalls
import Griot.Platform.WhereClause
import Griot.Platform.Source
import Griot.Platform.Authentic
import Griot.Platform.Scanners
import Griot.Governed.Hiding
import Griot.Governed.Alike
import Griot.Governed.Linking
import Griot.Governed.Attested
import Griot.Engine.Signed
import Griot.Engine.Shell
import Griot.Governed.Schema
import Griot.Governed.Declarations
import Griot.Governed.NumericFilter
import Griot.Physical.BatchCharge
import Griot.Physical.EpsilonEnvelope
import Griot.Contract.Validity
import Griot.Ddl.Soundness
import Griot.Ddl.Comments
import Griot.Agreement.Masking
import Griot.Agreement.RowFilter
import Griot.Sql.Meaning
import Griot.Sql.WholeFilter
import Griot.Pool.CacheBytes
import Griot.Pool.Drain
import Griot.Pool.Lifetime
import Griot.Pool.Provenance
import Griot.Pool.Sessions
import Griot.Pool.Routing
import Griot.Logical.Views
