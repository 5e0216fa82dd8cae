import Octraban.Daemon.LeaderElection
import Octraban.Daemon.ReorgWorker
import Octraban.Daemon.Resume
import Octraban.Auth.Keys
import Octraban.Auth.Sessions
import Octraban.Auth.Signers
import Octraban.Auth.OneTime
import Octraban.Indexer.Orphans
import Octraban.Daemon.Leadership
import Octraban.Daemon.TokenHolders
import Octraban.Daemon.DerivedState
import Octraban.Api.EventsCache
import Octraban.Daemon.EventBus
import Octraban.Api.Concurrency
import Octraban.Api.AbuseDetector
import Octraban.Indexer.Compactor
import Octraban.Indexer.Reentrancy
import Octraban.Indexer.Governance
import Octraban.CacheExpiry
import Octraban.Indexer.YieldDistribution
import Octraban.Api.StakeAccounts
import Octraban.Api.BuildQueue
import Octraban.Api.DeveloperKeys
import Octraban.Feed.Replay
import Octraban.Archive.QueryEngine
import Octraban.Bridge.Tracker
import Octraban.Webhooks.Leases
import Octraban.Webhooks.Endings
import Octraban.Ws.EventBroadcaster
import Octraban.Compliance.SanctionsFetcher
import Octraban.Pricing.DexPrice
import Octraban.Pricing.PriceUpdater
import Octraban.Sandbox.Status
import Octraban.Indexer.FallbackBucket
import Octraban.Indexer.RpcMultiNode
import Octraban.Indexer.StateDiffs
import Octraban.Indexer.FootprintContention
import Octraban.Indexer.RpcProviderPool
import Octraban.Indexer.GraphqlComplexity
import Octraban.Indexer.CacheAside
import Octraban.Indexer.DeadLetterQueue
import Octraban.Api.TierLimits
import Octraban.Feed.Batches
import Octraban.Indexer.Batch
import Octraban.Api.Sanitize
import Octraban.Webhooks.Redaction
import Octraban.Webhooks.AddressSpellings
import Octraban.Playground.RoundTrip
import Octraban.Archive.ColdReads
import Octraban.Reputation.SybilVerdicts
import Octraban.Reputation.TrustGraph
import Octraban.Reputation.VotingPower
import Octraban.Nft.RarityEngine
import Octraban.Bridge.Liquidity
import Octraban.Indexer.TraceEngine
import Octraban.Indexer.Contention
import Octraban.Indexer.UpgradeGovernance
import Octraban.Indexer.TemporalScanner
import Octraban.Indexer.SystemicRisk
import Octraban.Indexer.FeeAggregator
import Octraban.Indexer.SandwichDetector
import Octraban.Pricing.DexArbitrage
import Octraban.Pricing.ArbitrageCycles
import Octraban.Indexer.TemplateMatch
import Octraban.Indexer.HostCalls
import Octraban.Indexer.ModuleParsing
import Octraban.Indexer.SectionLoops
import Octraban.Pricing.TokenPrices
import Octraban.Indexer.CronRuns
import Octraban.Indexer.EventJson
import Octraban.Indexer.HolderRanks
import Octraban.Compliance.FuzzyMatching
import Octraban.Pricing.PoolRuns
import Octraban.Indexer.GapDetection
import Octraban.Indexer.CsvFiles
import Octraban.Indexer.Search
import Octraban.Sandbox.Snapshots
