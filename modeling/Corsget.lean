import Corsget.Library.Text
import Corsget.Library.MultiMap
import Corsget.Library.Prog
import Corsget.Http
import Corsget.Cors
import Corsget.Limit
import Corsget.Matcher
import Corsget.CachePolicy
import Corsget.Directory
import Corsget.CacheStore
import Corsget.Overrides
import Corsget.Proxy
import Corsget.Footprint
import Corsget.AccessPolicy
import Corsget.Forwarding
import Corsget.CacheIdentity
import Corsget.Storing
import Corsget.StorageDirectives
import Corsget.Refreshing
import Corsget.HitHeaders
import Corsget.Conditional
import Corsget.Library.Runs
import Corsget.StoreRuns
import Corsget.CorsLayer
import Corsget.KeySeparation
import Corsget.CrashSafety
import Corsget.World
import Corsget.RequestRuns
import Corsget.Supersede
import Corsget.Library.Interleaving
import Corsget.SharedDirectory
import Corsget.Untorn
import Corsget.Overriding
import Corsget.Bandwidth
import Corsget.TemporaryFiles
import Corsget.WriteFaults
import Corsget.Restarts
import Corsget.LostCommit
import Corsget.Library.Lru
import Corsget.Eviction
import Corsget.SizeLimit
import Corsget.Library.Ledger
import Corsget.StoreMap
import Corsget.StoreRefinement
import Corsget.MeteredStream
import Corsget.Tee
import Corsget.Library.FixedWindow
import Corsget.Library.Keyed
import Corsget.Counters
import Corsget.Accounting
import Corsget.EvictionOrder
import Corsget.CleanStart
import Corsget.Oversized
import Corsget.DeclaredLifetime
import Corsget.TargetUrl
import Corsget.Library.Glob
import Corsget.Patterns
import Corsget.HostNames
import Corsget.CacheRules
import Corsget.ByteExpressions
import Corsget.Buckets
import Corsget.OverrideRules
import Corsget.UpstreamHops
import Corsget.CacheStatus
import Corsget.Library.Protocol
import Corsget.RequestProtocol
import Corsget.RequestOrder
import Corsget.Disciplines
import Corsget.Layout
import Corsget.OwnFiles
import Corsget.StoredEntries
import Corsget.Library.Fetch
import Corsget.Server
import Corsget.Config
import Corsget.LoadedConfig
import Corsget.KeyOrder
import Corsget.Startup
import Corsget.CleanupAccount
import Corsget.Recovery
import Corsget.RedirectChain
import Corsget.Relay
