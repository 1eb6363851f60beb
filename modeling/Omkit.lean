import Omkit.Lib.Machine
import Omkit.Lib.Json.Bytes
import Omkit.Eventbus.Postgres
import Omkit.Eventbus.Replicas
import Omkit.Lib.Uuid
import Omkit.Dbpool
import Omkit.Jobqueue.Streaq
import Omkit.Jobqueue.Grammar
import Omkit.Lib.Coro
import Omkit.Scheduler.Entries
import Omkit.Scheduler.Idempotent
import Omkit.Scheduler.Isolation
import Omkit.Scheduler.Change
import Omkit.Encryption.Canonical
import Omkit.Kms.LocalDev
import Omkit.Kms.Transit
import Omkit.Kms.Errors
import Omkit.Kms.FromEnv
import Omkit.Kms.Relogin
import Omkit.Sessions.Expiry
import Omkit.Sessions.Listing
import Omkit.Settings.Fresh
import Omkit.Settings.Recovery
import Omkit.Settings.Secrets
import Omkit.Settings.CacheFile
import Omkit.Settings.Message
import Omkit.Settings.GetSecret
import Omkit.Provider.Construct
import Omkit.ModelLifecycle.Registry
import Omkit.ModelLifecycle.Shutdown
import Omkit.Resilience.Probe
import Omkit.Resilience.Count
import Omkit.Resilience.Watch
import Omkit.Resilience.Retry
import Omkit.Featureflags.Store
import Omkit.Eventbus.Pending
import Omkit.Eventbus.Backends
import Omkit.Tenant.Spelling
import Omkit.Tenant.Rls
import Omkit.Cleanup
import Omkit.Jobqueue.Request
import Omkit.ModelLifecycle.Gauge
import Omkit.Featureflags.Collapse
import Omkit.Quota
import Omkit.Httpclient
import Omkit.Jobqueue.Malformed
import Omkit.Sanitize.Extract
import Omkit.Sanitize.Spliced
import Omkit.Valkeystream.Recovery
import Omkit.Scheduler.Worker
import Omkit.Valkeysub.Delivery
import Omkit.Auth.Roles
import Omkit.Quota.Runs
import Omkit.Tenant.Pool
import Omkit.Httpclient.Travel
import Omkit.Lib.Boundary
import Omkit.Lib.Escape
import Omkit.Sanitize.Html
import Omkit.Lib.Woven
import Omkit.Sanitize.Interrupted
