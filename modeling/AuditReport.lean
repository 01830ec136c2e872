import AuditReport.Http.Api
import AuditReport.Http.Client
import AuditReport.KeyedCache
import AuditReport.Log.Column
import AuditReport.Proofs.MatchTruth
import AuditReport.Proofs.QueryStages
import AuditReport.Settings
import AuditReport.Proofs.FilterPlacement
import AuditReport.Proofs.MatchShape
import AuditReport.Proofs.PageTiling
import AuditReport.Proofs.CacheEntries
import AuditReport.Proofs.RowPasswords
import AuditReport.Proofs.WorkSharing
import AuditReport.Proofs.DecryptionBatch
import AuditReport.Proofs.ResolverStates
import AuditReport.Proofs.RowsAlone
import AuditReport.Proofs.QueryOrder
import AuditReport.Proofs.CredentialForm
import AuditReport.Proofs.CacheRuns
import AuditReport.Proofs.CacheInvalidation
import AuditReport.Proofs.DeniedCallers
import AuditReport.Proofs.Projection
import AuditReport.Proofs.CredentialFaults
import AuditReport.Proofs.WordSizes
import AuditReport.Proofs.Readings
import AuditReport.Proofs.RowReads
import AuditReport.Proofs.OrderedLists
import AuditReport.Proofs.ServiceHistories
import AuditReport.Proofs.PasswordLists
import AuditReport.Proofs.EqualValues
import AuditReport.Proofs.CredentialListings
import AuditReport.Proofs.ExportTables
import AuditReport.Proofs.LogRedaction
import AuditReport.Proofs.CoercedValues
import AuditReport.Proofs.AcceptedRequests
import AuditReport.Proofs.AcceptedStages
import AuditReport.Proofs.LeastPlan
import AuditReport.Proofs.SortOrder
import AuditReport.Proofs.StoredForms
import AuditReport.Proofs.LiteralPatterns
import AuditReport.Proofs.DecryptionCounts
import AuditReport.Proofs.NormalizedDates
import AuditReport.Proofs.LogPages
import AuditReport.Proofs.DisplayedFilters
import AuditReport.Proofs.ChunkSizes
import AuditReport.Proofs.PageCounts
import AuditReport.Proofs.CsvReading
import AuditReport.Proofs.CanonicalRequests
import AuditReport.Proofs.PrintableValues
import AuditReport.Proofs.PayloadTexts
