import Pllua.Runs
import Pllua.Catalog
import Pllua.TypeInfo
import Pllua.TypeCache
import Pllua.ErrorState
import Pllua.ProtectedCalls
import Pllua.TrustedLoad
import Pllua.Brackets
import Pllua.PendingErrors
import Pllua.ErrorPropagation
import Pllua.WatchedCalls
import Pllua.XpcallHandlers
import Pllua.Subxacts
import Pllua.ActiveErrors
import Pllua.RowCast
import Pllua.RowVersions
import Pllua.CursorLinks
import Pllua.CursorRegistry
import Pllua.Documents
import Pllua.Jsonb
import Pllua.ResetCallbacks
import Pllua.JsonbMap
import Pllua.JsonbToSql
import Pllua.JsonbTables
import Pllua.JsonbEmit
import Pllua.JsonbRoundTrip
import Pllua.JsonbReference
import Pllua.Typmods
import Pllua.JsonbArrays
import Pllua.Srf
import Pllua.ErrorContext
import Pllua.Interpreters
import Pllua.Startup
import Pllua.FunctionCache
import Pllua.NestedRecords
import Pllua.Datums
import Pllua.DatumPlaces
import Pllua.DatumExplosion
import Pllua.DatumWrites
import Pllua.DatumCasts
import Pllua.DatumArrays
import Pllua.DatumFinalizers
import Pllua.DatumTexts
import Pllua.DatumTrees
import Pllua.DatumAliasing
import Pllua.RowPairs
import Pllua.Triggers
import Pllua.TriggerViews
import Pllua.Tenancy
import Pllua.TableCaches
import Pllua.TypeConversions
import Pllua.JsonbCollections
import Pllua.JsonbFolds
import Pllua.JsonbDiscard
import Pllua.JsonbPairs
import Pllua.RowText
import Pllua.Constructors
import Pllua.DomainRows
import Pllua.ArrayMap
import Pllua.ArrayTables
import Pllua.ArrayElements
import Pllua.ArrayPairs
import Pllua.TimeFields
import Pllua.RowIteration
import Pllua.Rounding
import Pllua.NumericOps
import Pllua.NumericIntegers
import Pllua.ScalarValues
import Pllua.ArrayCoercion
import Pllua.SpiArguments
import Pllua.Floats
import Pllua.Calendar
import Pllua.TimeTables
import Pllua.TimeRoundTrip
import Pllua.FixedZones
import Pllua.TimeAmounts
import Pllua.TimeConstruction
import Pllua.SqlStates
import Pllua.ErrorReports
import Pllua.Warnings
import Pllua.TimeZones
import Pllua.Grammars
import Pllua.LuaGrammar
import Pllua.FunctionSource
import Pllua.BodyWrapping
import Pllua.TrustedModules
import Pllua.TrustedRequire
import Pllua.TrustedCopies
import Pllua.TableAccess
import Pllua.TrustedProxies
import Pllua.Hstore
