import TradingService.Alerts.Triggers
import TradingService.Api.MarketGateway
import TradingService.Api.MarketStream
import TradingService.Api.MatchingStatus
import TradingService.Api.OrderBooks
import TradingService.Api.Quotes
import TradingService.Api.TradeExport
import TradingService.Core.Chain
import TradingService.Core.Charges
import TradingService.Core.DecimalPrices
import TradingService.Core.FastPrice
import TradingService.Core.OrderPolicy
import TradingService.Engine.AuctionOrder
import TradingService.Engine.AuctionSound
import TradingService.Engine.Candidates
import TradingService.Engine.Commits
import TradingService.Engine.Completeness
import TradingService.Engine.Conservation
import TradingService.Engine.Exhaustive
import TradingService.Engine.FillOrKill
import TradingService.Engine.Gather
import TradingService.Engine.GatherPaths
import TradingService.Engine.Islands
import TradingService.Engine.MatchCycle
import TradingService.Engine.Priority
import TradingService.Engine.Provenance
import TradingService.Engine.Quiescence
import TradingService.Engine.Rationing
import TradingService.Engine.Reaping
import TradingService.Engine.RowOrder
import TradingService.Engine.Types
import TradingService.Engine.UniformAuction
import TradingService.Engine.Volume
import TradingService.Engine.ZonesApart
import TradingService.Ledger.Agreement
import TradingService.Ledger.Audit
import TradingService.Ledger.Bounds
import TradingService.Ledger.Database
import TradingService.Ledger.DoubleEntry
import TradingService.Ledger.EpochTotals
import TradingService.Ledger.EpochWindows
import TradingService.Ledger.Epochs
import TradingService.Ledger.Immediate
import TradingService.Ledger.ImmediateCycle
import TradingService.Ledger.LimitPrices
import TradingService.Ledger.MatcherWorker
import TradingService.Ledger.Matching
import TradingService.Ledger.Partners
import TradingService.Ledger.OrderChange
import TradingService.Ledger.PassThrough
import TradingService.Ledger.Provenance
import TradingService.Ledger.Replicas
import TradingService.Ledger.Rest
import TradingService.Ledger.Rows
import TradingService.Ledger.TariffCycle
import TradingService.Ledger.UniformTariff
import TradingService.Ledger.Upkeep
import TradingService.Lib.BoundedInt
import TradingService.Lib.BroadcastRing
import TradingService.Lib.CellProgram
import TradingService.Lib.Checks
import TradingService.Lib.Chunks
import TradingService.Lib.Delimited
import TradingService.Lib.GroupedIndex
import TradingService.Lib.KWayMerge
import TradingService.Lib.KeyedTable
import TradingService.Lib.LastWriter
import TradingService.Lib.Newest
import TradingService.Lib.Notify
import TradingService.Lib.OrderedMap
import TradingService.Lib.PartitionedLog
import TradingService.Lib.Precedence
import TradingService.Lib.RoundedSum
import TradingService.Lib.Rounding
import TradingService.Lib.Runs
import TradingService.Lib.ScaledDecimal
import TradingService.Lib.SupplyDemand
import TradingService.Lib.Tally
import TradingService.Orders.Admission
import TradingService.Orders.Expiries
import TradingService.Orders.Intake
import TradingService.Orders.Interval
import TradingService.Orders.Lifetimes
import TradingService.Orders.PriceGates
import TradingService.Orders.RecurringRules
import TradingService.Orders.Schedule
import TradingService.Orders.Signed
import TradingService.Orders.Standing
import TradingService.Orders.Story
import TradingService.Orders.Submission
import TradingService.Orders.Terminal
import TradingService.Outbox.BusOrder
import TradingService.Outbox.Decoding
import TradingService.Outbox.Loss
import TradingService.Outbox.Relay
import TradingService.Outbox.Stream
import TradingService.ReadModel.Backfill
import TradingService.ReadModel.Feed
import TradingService.ReadModel.Meters
import TradingService.ReadModel.Redelivery
import TradingService.ReadModel.Wallets
import TradingService.Settlement.Batch
import TradingService.Settlement.Collectors
import TradingService.Settlement.Expiry
import TradingService.Settlement.Gateway
import TradingService.Settlement.MoneyTrail
import TradingService.Settlement.OffchainMessage
import TradingService.Settlement.Once
import TradingService.Settlement.PerUser
import TradingService.Settlement.PlacedRuns
import TradingService.Settlement.Placement
import TradingService.Settlement.Reports
import TradingService.Settlement.Repository
import TradingService.Settlement.Retries
import TradingService.Settlement.SignedTerms
import TradingService.Settlement.Tasks
import TradingService.Settlement.Worker
