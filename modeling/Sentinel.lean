import Sentinel.Lib.Gregorian
import Sentinel.Lib.Successor
import Sentinel.Lib.Heap
import Sentinel.Lib.Throwing
import Sentinel.Lib.Runs
import Sentinel.Lib.Commands
import Sentinel.Lib.Atomic
import Sentinel.Lib.Logged
import Sentinel.Lib.Versioned
import Sentinel.Lib.Keyed
import Sentinel.Lib.Watchdog
import Sentinel.Lib.Backoff
import Sentinel.Lib.CanonicalText
import Sentinel.Lib.JoinedWords
import Sentinel.Lib.Replacing
import Sentinel.Lib.Retry
import Sentinel.DotNet.Base
import Sentinel.DotNet.DateTime
import Sentinel.DotNet.JToken
import Sentinel.Cron.CrontabField
import Sentinel.Cron.CrontabSchedule
import Sentinel.Cron.NextOccurrence
import Sentinel.Cron.StoppingPoint
import Sentinel.Cron.Occurrences
import Sentinel.Cron.CrontabFormat
import Sentinel.Cron.FieldMeaning
import Sentinel.Cron.FieldValues
import Sentinel.Cron.ParserErrors
import Sentinel.Cron.FieldRepresentation
import Sentinel.Scheduler.ScheduledTask
import Sentinel.Scheduler.SchedulerRepository
import Sentinel.Scheduler.SyncSteps
import Sentinel.Scheduler.SyncProgress
import Sentinel.Scheduler.SyncResults
import Sentinel.Scheduler.SyncFrame
import Sentinel.Scheduler.ExceptionSafety
import Sentinel.Scheduler.SchedulerRepositoryFeeder
import Sentinel.Scheduler.FeederResults
import Sentinel.Scheduler.BusScheduler
import Sentinel.Scheduler.PublishedInstants
import Sentinel.Scheduler.CatchUp
import Sentinel.Scheduler.CarriedItems
import Sentinel.Scheduler.QuartzJobs
import Sentinel.Auth.AZAuthService
import Sentinel.Auth.TokenReuse
import Sentinel.Redis.RedisDictionary
import Sentinel.Redis.RedisSync
import Sentinel.Redis.InterleavedSyncs
import Sentinel.Redis.RedisMap
import Sentinel.Redis.RetryPolicy
import Sentinel.Watchers.ResourceWatcher
import Sentinel.Watchers.WatcherInvariant
import Sentinel.Watchers.ReconnectRate
import Sentinel.Watchers.StaleCallback
import Sentinel.Watchers.WatcherBackgroundService
import Sentinel.Common.BackgroundServiceWithHealthCheck
import Sentinel.Common.BackgroundServiceHealthCheck
import Sentinel.Watchers.WatcherWatchdog
import Sentinel.PubSub.SubscribeBackgroundService
import Sentinel.Mongo.MongoBaseRepo
import Sentinel.Mongo.MemoryServer
import Sentinel.Mongo.InterleavedRepo
import Sentinel.K8s.K8sEventClient
import Sentinel.K8s.EventCounts
import Sentinel.K8s.CountUpResults
import Sentinel.K8s.K8sServiceClient
import Sentinel.K8s.IngressAttribution
import Sentinel.K8s.IstioObjects
import Sentinel.K8s.K8SMapper
import Sentinel.K8s.ClientUrlFixer
import Sentinel.K8s.LabelSelectors
import Sentinel.K8s.KubernetesClient
import Sentinel.K8s.VersionedServer
import Sentinel.K8s.AtomicCalls
import Sentinel.K8s.InterleavedCalls
import Sentinel.K8s.K8sHealthCheckResourceClient
import Sentinel.K8s.StatusUpdates
import Sentinel.HttpClients.IsAliveAndWellHealthCheckDownloader
import Sentinel.HttpClients.EndpointStrings
import Sentinel.K8s.IstioAttribution
import Sentinel.HttpClients.DownloadService
import Sentinel.HttpClients.CredentialIsolation
import Sentinel.Workers.HealthCheckSyncSchedulerJob
import Sentinel.Workers.HealthCheckSyncResults
import Sentinel.Workers.ServiceResolution
import Sentinel.Workers.HealthCheckPipeline
import Sentinel.Workers.CheckAccounting
import Sentinel.Workers.PipelineResults
import Sentinel.Workers.SchedulerWorker
import Sentinel.Workers.EndToEnd
