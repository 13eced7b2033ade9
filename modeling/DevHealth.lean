import DevHealth.Authverify.ExchangeExpiry
import DevHealth.Authverify.JwksPaths
import DevHealth.Authverify.JwksUnknown
import DevHealth.Authverify.VerdictLaws
import DevHealth.Llm.BatchLines
import DevHealth.Llm.BatchResultsLaws
import DevHealth.Llm.Complete
import DevHealth.Llm.Retry
import DevHealth.Llm.SchemaLimits
import DevHealth.Pep.CacheBatch
import DevHealth.Pep.CacheFailure
import DevHealth.Pep.CacheSound
import DevHealth.Pep.RepositoryObligations
import DevHealth.Readers.AuthorizationNarrowing
import DevHealth.Readers.MetricsRollup
import DevHealth.Readers.ProjectThemeMixLaws
import DevHealth.Readers.RepositoryNames
import DevHealth.Readers.RowCut
import DevHealth.Readers.TeamMetrics
import DevHealth.Readers.TeamThemeMixLaws
import DevHealth.Readers.TimeWindow
import DevHealth.StrictScanners
import DevHealth.Workloadtoken.ClientBackoff
import DevHealth.Workloadtoken.ClientInvalidate
import DevHealth.Workloadtoken.Transport
