import OpenHft.Lib.Arguments
import OpenHft.Lib.Bitmap
import OpenHft.Lib.Chain
import OpenHft.Lib.Cyclic
import OpenHft.Lib.Fairness
import OpenHft.Lib.Footprint
import OpenHft.Lib.KeyedList
import OpenHft.Lib.Ledger
import OpenHft.Lib.PriorityList
import OpenHft.Lib.Rounding
import OpenHft.Lib.Runs
import OpenHft.Model.Arguments
import OpenHft.Model.Double
import OpenHft.Model.ExchangeRuntime
import OpenHft.Model.ExchangeServer
import OpenHft.Model.Executions
import OpenHft.Model.FixedHashMap
import OpenHft.Model.FpgaEthernet
import OpenHft.Model.Gateway
import OpenHft.Model.Ingestion
import OpenHft.Model.Itch
import OpenHft.Model.LevelSearch
import OpenHft.Model.LiveRuntime
import OpenHft.Model.MarketData
import OpenHft.Model.MatchingEngine
import OpenHft.Model.OrderBook
import OpenHft.Model.OrderPool
import OpenHft.Model.Ouch
import OpenHft.Model.OuchClient
import OpenHft.Model.Packet
import OpenHft.Model.Pipeline
import OpenHft.Model.SampleReplay
import OpenHft.Model.SpscObserver
import OpenHft.Model.SpscRing
import OpenHft.Model.Strategy
import OpenHft.Model.TcpTransport
import OpenHft.Model.TlsTransport
import OpenHft.Model.TradingDesk
import OpenHft.Model.TradingProcess
import OpenHft.Model.TradingRuntime
import OpenHft.Model.Types
import OpenHft.Model.Wire
import OpenHft.Spec.BoundedMap
import OpenHft.Spec.CommandLine
import OpenHft.Spec.Frames
import OpenHft.Spec.ItchMessage
import OpenHft.Spec.PriceTime
import OpenHft.Spec.ReferenceDesk
import OpenHft.Spec.ReferenceExchange
import OpenHft.Spec.ReferenceMarket
import OpenHft.Spec.Replay
import OpenHft.Spec.Rounds
import OpenHft.Proofs.Attribution
import OpenHft.Proofs.BestPrices
import OpenHft.Proofs.BitmapSearch
import OpenHft.Proofs.BookContent
import OpenHft.Proofs.BookInvariant
import OpenHft.Proofs.BookOps
import OpenHft.Proofs.BookRun
import OpenHft.Proofs.BookUpdates
import OpenHft.Proofs.CommandLine
import OpenHft.Proofs.Conservation
import OpenHft.Proofs.Consumer
import OpenHft.Proofs.ConsumerIndex
import OpenHft.Proofs.ConsumerReplay
import OpenHft.Proofs.DeskOrders
import OpenHft.Proofs.DeskReference
import OpenHft.Proofs.EngineInvariant
import OpenHft.Proofs.EngineLedger
import OpenHft.Proofs.EngineOwnership
import OpenHft.Proofs.EngineRefinement
import OpenHft.Proofs.EngineRun
import OpenHft.Proofs.EngineStep
import OpenHft.Proofs.EngineWrap
import OpenHft.Proofs.ExecutionReports
import OpenHft.Proofs.FpgaEthernet
import OpenHft.Proofs.GatewayExposure
import OpenHft.Proofs.GatewayLimit
import OpenHft.Proofs.GatewayPrices
import OpenHft.Proofs.GeneratedReplay
import OpenHft.Proofs.HandlerCalls
import OpenHft.Proofs.HandlerRuns
import OpenHft.Proofs.HashMap
import OpenHft.Proofs.HashMapRun
import OpenHft.Proofs.Ingestion
import OpenHft.Proofs.ItchGrammar
import OpenHft.Proofs.KnownOrders
import OpenHft.Proofs.Ledger
import OpenHft.Proofs.Level
import OpenHft.Proofs.LevelRun
import OpenHft.Proofs.LevelSearch
import OpenHft.Proofs.LevelTotals
import OpenHft.Proofs.LiveOrders
import OpenHft.Proofs.LiveRuns
import OpenHft.Proofs.MarketShown
import OpenHft.Proofs.Numbering
import OpenHft.Proofs.OrderFlow
import OpenHft.Proofs.OrderPool
import OpenHft.Proofs.OrderValue
import OpenHft.Proofs.OrderWire
import OpenHft.Proofs.OuchCodec
import OpenHft.Proofs.PacketBounds
import OpenHft.Proofs.PipelineCalls
import OpenHft.Proofs.PipelineFed
import OpenHft.Proofs.PipelineInvariant
import OpenHft.Proofs.PipelineLifecycle
import OpenHft.Proofs.PipelineWork
import OpenHft.Proofs.PoolRun
import OpenHft.Proofs.PooledBook
import OpenHft.Proofs.Positions
import OpenHft.Proofs.Reference
import OpenHft.Proofs.ReplayFile
import OpenHft.Proofs.ReplayTermination
import OpenHft.Proofs.Rounds
import OpenHft.Proofs.RuntimeClients
import OpenHft.Proofs.RuntimeLinear
import OpenHft.Proofs.RuntimeMoves
import OpenHft.Proofs.RuntimePlain
import OpenHft.Proofs.RuntimeReference
import OpenHft.Proofs.RuntimeReplay
import OpenHft.Proofs.RuntimeResources
import OpenHft.Proofs.RuntimeTls
import OpenHft.Proofs.SendStream
import OpenHft.Proofs.ServerAnswers
import OpenHft.Proofs.ServerCalls
import OpenHft.Proofs.ServerFraming
import OpenHft.Proofs.ServerMessages
import OpenHft.Proofs.SideLists
import OpenHft.Proofs.SpscFifo
import OpenHft.Proofs.SpscMetrics
import OpenHft.Proofs.SpscSize
import OpenHft.Proofs.StrategyRounding
import OpenHft.Proofs.StrategySymbols
import OpenHft.Proofs.Symbols
import OpenHft.Proofs.TlsTransport
import OpenHft.Proofs.TradingRuns
import OpenHft.Proofs.WireCodec
import OpenHft.Proofs.WirePrices
