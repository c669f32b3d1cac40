import TQDBProxy.GuardedRuns
import TQDBProxy.QueryParser
import TQDBProxy.StatementParams
import TQDBProxy.MariaDBSession
import TQDBProxy.MariaDBMoves
import TQDBProxy.MariaDBSteps
import TQDBProxy.PostgresSession
import TQDBProxy.PostgresSteps
import TQDBProxy.MariaDBAffinity
import TQDBProxy.CacheBypass
import TQDBProxy.TransactionTracking
import TQDBProxy.QueryCache
import TQDBProxy.CacheIsolation
import TQDBProxy.CacheAnswers
import TQDBProxy.ProxySystem
import TQDBProxy.BatchDatabases
import TQDBProxy.ProxyEvents
import TQDBProxy.TransactionControl
import TQDBProxy.ReplicaPool
import TQDBProxy.WriteBatchTypes
import TQDBProxy.WriteBatchExecutor
import TQDBProxy.WriteBatchAnswers
import TQDBProxy.WriteBatchManager
import TQDBProxy.WriteBatchKeys
import TQDBProxy.WriteBatchCustody
import TQDBProxy.WriteBatchPending
import TQDBProxy.GoStringLemmas
import TQDBProxy.SqlLexer
import TQDBProxy.SqlLexerModes
import TQDBProxy.InsertRewrite
import TQDBProxy.ListCopies
import TQDBProxy.SqlLexerOpen
import TQDBProxy.InsertClauses
import TQDBProxy.InsertTuples
import TQDBProxy.InsertPreserved
import TQDBProxy.InsertMeaning
import TQDBProxy.MariaDBSends
import TQDBProxy.MariaDBReconnect
import TQDBProxy.MariaDBPrimary
import TQDBProxy.MariaDBShards
import TQDBProxy.MariaDBDatabase
import TQDBProxy.MySqlWire
import TQDBProxy.BackendResponses
import TQDBProxy.ClientResponses
import TQDBProxy.MariaDBReplies
import TQDBProxy.MariaDBPrepared
import TQDBProxy.PostgresRecovery
import TQDBProxy.DeleteRewrite
import TQDBProxy.DeleteMeaning
import TQDBProxy.ReplicaHealth
import TQDBProxy.WriteBatchSize
import TQDBProxy.GoSlices
import TQDBProxy.ResponseBuffers
import TQDBProxy.CacheFlights
import TQDBProxy.CacheSingleFlight
import TQDBProxy.BatchDelivery
import TQDBProxy.PostgresPortals
import TQDBProxy.PostgresReplies
import TQDBProxy.PostgresReady
import TQDBProxy.PostgresDescribe
import TQDBProxy.CachedResults
import TQDBProxy.ReplicaRounds
import TQDBProxy.ConfigReload
import TQDBProxy.MetricLabels
import TQDBProxy.StatementBounds
import TQDBProxy.DeleteParams
import TQDBProxy.PostgresParameters
import TQDBProxy.UpperCase
import TQDBProxy.UpperOffsets
import TQDBProxy.HintRecovery
import TQDBProxy.HintStripping
import TQDBProxy.ListSegments
import TQDBProxy.StatementBoundaries
import TQDBProxy.StatementHints
import TQDBProxy.PacketFraming
import TQDBProxy.ParameterCodec
import TQDBProxy.PlaceholderCounts
import TQDBProxy.LocalInfile
import TQDBProxy.ClientHints
import TQDBProxy.QualifiedNames
import TQDBProxy.PostgresBind
import TQDBProxy.BatchInsertIds
import TQDBProxy.LoadDataPayload
import TQDBProxy.PostgresRows
import TQDBProxy.PreparedKeys
import TQDBProxy.PostgresStartup
import TQDBProxy.ConnectionStrings
import TQDBProxy.PostgresConnect
import TQDBProxy.HintDurations
import TQDBProxy.RefreshTokens
import TQDBProxy.FinishedGroups
import TQDBProxy.BatchOutcomes
import TQDBProxy.HealthChecks
import TQDBProxy.PostgresHandshake
