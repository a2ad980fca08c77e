import StarterHub.Lib.Machine
import StarterHub.Lib.Journal
import StarterHub.Lib.Ascii
import StarterHub.Lib.Json
import StarterHub.Lib.Http
import StarterHub.Lib.Tower
import StarterHub.Lib.PercentEncoding
import StarterHub.Lib.Decimal
import StarterHub.Lib.UrlSyntax
import StarterHub.Runtime
import StarterHub.Job
import StarterHub.Engine
import StarterHub.OverlapGate
import StarterHub.CronServer
import StarterHub.CronShutdown
import StarterHub.CronBudget
import StarterHub.Main
import StarterHub.Supervision
import StarterHub.Config
import StarterHub.ProcessFence
import StarterHub.Migration
import StarterHub.BootMigrations
import StarterHub.ConnectionUrl
import StarterHub.ApiError
import StarterHub.Middleware
import StarterHub.RequestId
import StarterHub.Router
import StarterHub.JsonEnvelope
import StarterHub.Masking
import StarterHub.Sanitation
import StarterHub.StackOutcome
import StarterHub.Traces
import StarterHub.Isolation
import StarterHub.Registration
import StarterHub.HttpServer
import StarterHub.GracefulStop
import StarterHub.SlowClient
import StarterHub.Lib.Tree
import StarterHub.ConfigLoad
import StarterHub.Layering
import StarterHub.Scalars
import StarterHub.Variables
import StarterHub.Overrides
import StarterHub.Dotenv
import StarterHub.Lib.Clock
import StarterHub.Deadlines
import StarterHub.Lib.Ipv6
import StarterHub.HostConfinement
import StarterHub.Binaries
import StarterHub.MigrationCli
import StarterHub.MigrationJournal
import StarterHub.MigrationExclusion
import StarterHub.MigrationProgress
import StarterHub.Deployment
import StarterHub.Rollout
import StarterHub.System
import StarterHub.SystemLaw
import StarterHub.SystemWork
import StarterHub.SystemStop
import StarterHub.Contract
