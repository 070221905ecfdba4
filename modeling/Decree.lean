import Decree.WholeConfig
import Decree.Idempotency
import Decree.Canonical
import Decree.Seeding
import Decree.Completeness
import Decree.VersionedReads
import Decree.FieldLocks
import Decree.ClientVerify
import Decree.AuditTrail
import Decree.ProgramCache
import Decree.Rebinding
import Decree.SchemaExport
import Decree.VersionDiffs
import Decree.PageWalks
import Decree.VersionConflicts
import Decree.SharedFetches
import Decree.Activation
import Decree.RateLimit
import Decree.CompileSlots
import Decree.ConfigCaches
import Decree.TenantStores
import Decree.ErrorMessages
import Decree.ValueChanges
import Decree.UsageStats
import Decree.Snapshots
import Decree.VersionPages
import Decree.StoredRules
import Decree.Backoff
import Decree.RuleLint
