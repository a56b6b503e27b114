import CamelidEnterprise.Foundation.Outcome
import CamelidEnterprise.Foundation.Word
import CamelidEnterprise.Foundation.Utf8
import CamelidEnterprise.Engine.Error
import CamelidEnterprise.Engine.Gguf
import CamelidEnterprise.Engine.GgufLayout
import CamelidEnterprise.Engine.Tokenizer
import CamelidEnterprise.Engine.Pretokenizer
import CamelidEnterprise.Engine.Encode
import CamelidEnterprise.Engine.Decode
import CamelidEnterprise.Engine.RoundTrip
import CamelidEnterprise.Foundation.Machine
import CamelidEnterprise.Foundation.Rounding
import CamelidEnterprise.Platform.Quota
import CamelidEnterprise.Platform.QuotaRun
import CamelidEnterprise.Identity.Store
import CamelidEnterprise.Identity.StoreRun
import CamelidEnterprise.Foundation.Fairness
import CamelidEnterprise.Server.Pool
import CamelidEnterprise.Server.PoolRun
import CamelidEnterprise.Server.PoolLive
import CamelidEnterprise.Server.Stream
import CamelidEnterprise.Server.StreamRun
import CamelidEnterprise.Server.StreamLive
import CamelidEnterprise.Foundation.Http
import CamelidEnterprise.Foundation.Json
import CamelidEnterprise.Server.Chat
import CamelidEnterprise.Server.Surface
import CamelidEnterprise.Server.Handlers
import CamelidEnterprise.Gateway.Selection
import CamelidEnterprise.Gateway.Proxy
import CamelidEnterprise.Gateway.ProxyRun
import CamelidEnterprise.Gateway.Agreement
import CamelidEnterprise.Engine.ControlTokens
import CamelidEnterprise.Foundation.Binary
import CamelidEnterprise.Engine.ModelConfig
import CamelidEnterprise.Engine.Declared
import CamelidEnterprise.Engine.Runtime
import CamelidEnterprise.Engine.RuntimeRun
import CamelidEnterprise.Foundation.Causal
import CamelidEnterprise.Foundation.Rows
import CamelidEnterprise.Engine.Tensor
import CamelidEnterprise.Engine.KvCache
import CamelidEnterprise.Engine.Rope
import CamelidEnterprise.Engine.Weights
import CamelidEnterprise.Engine.Forward
import CamelidEnterprise.Engine.CausalDecoder
import CamelidEnterprise.Engine.CausalRun
import CamelidEnterprise.Engine.Session
import CamelidEnterprise.Engine.Binding
import CamelidEnterprise.Engine.Load
import CamelidEnterprise.Foundation.Exact
import CamelidEnterprise.Engine.Linear
import CamelidEnterprise.Engine.Orientation
import CamelidEnterprise.Engine.LoadShapes
import CamelidEnterprise.Engine.KvCacheRun
import CamelidEnterprise.Engine.GgufWire
import CamelidEnterprise.Identity.Migration
import CamelidEnterprise.Identity.MigrationRun
import CamelidEnterprise.Platform.Evidence
import CamelidEnterprise.Foundation.FixedWindow
import CamelidEnterprise.Gateway.OrgQuota
import CamelidEnterprise.Platform.EvidenceRun
import CamelidEnterprise.Gateway.OrgSlots
import CamelidEnterprise.Gateway.Log
import CamelidEnterprise.Gateway.LogRun
import CamelidEnterprise.Engine.DecodedText
import CamelidEnterprise.Engine.Merging
import CamelidEnterprise.Engine.PretokenizerRegex
import CamelidEnterprise.Engine.EncodeTotal
import CamelidEnterprise.Engine.SpmRoundTrip
import CamelidEnterprise.Engine.DecodeLength
import CamelidEnterprise.Engine.Loaders
import CamelidEnterprise.Foundation.Nearest
import CamelidEnterprise.Engine.HalfPrecision
import CamelidEnterprise.Foundation.BitLayout
import CamelidEnterprise.Engine.KQuants
import CamelidEnterprise.Engine.KQuantLayout
import CamelidEnterprise.Engine.KQuantValues
import CamelidEnterprise.Engine.EmbeddingGather
import CamelidEnterprise.Engine.RowDots
import CamelidEnterprise.Foundation.Lanes
import CamelidEnterprise.Engine.SimdDot
import CamelidEnterprise.Foundation.Extended
import CamelidEnterprise.Engine.Quantizer
import CamelidEnterprise.Engine.NeonQuantizer
import CamelidEnterprise.Engine.Avx2Quantizer
import CamelidEnterprise.Engine.Rotation
import CamelidEnterprise.Identity.Renewal
import CamelidEnterprise.Identity.Open
import CamelidEnterprise.Server.PoolAdmission
import CamelidEnterprise.Server.PoolClose
import CamelidEnterprise.Foundation.Headers
import CamelidEnterprise.Gateway.HopByHop
import CamelidEnterprise.Foundation.Bodies
import CamelidEnterprise.Gateway.Bodies
import CamelidEnterprise.Engine.EncodeErrors
import CamelidEnterprise.Engine.GenerationStops
import CamelidEnterprise.Server.ContextErrors
import CamelidEnterprise.Foundation.JsonTree
import CamelidEnterprise.Server.RequestGrammar
import CamelidEnterprise.Engine.ForwardEnds
import CamelidEnterprise.Engine.ForwardSafe
import CamelidEnterprise.Engine.GenerationEnds
import CamelidEnterprise.Foundation.Lossy
import CamelidEnterprise.Server.Lane
import CamelidEnterprise.Server.LaneDigest
import CamelidEnterprise.Server.LaneRun
import CamelidEnterprise.Foundation.JsonLines
import CamelidEnterprise.Foundation.Routing
import CamelidEnterprise.Server.Contract
import CamelidEnterprise.Server.ContractAgree
import CamelidEnterprise.Server.Attribution
import CamelidEnterprise.Server.Served
import CamelidEnterprise.Foundation.AppendLog
import CamelidEnterprise.Server.Receipts
import CamelidEnterprise.Gateway.Records
import CamelidEnterprise.Platform.Records
import CamelidEnterprise.Platform.Pipeline
import CamelidEnterprise.Gateway.Authority
import CamelidEnterprise.Gateway.SelectionCapacity
import CamelidEnterprise.Foundation.FileSystem
import CamelidEnterprise.Engine.LoadCalls
import CamelidEnterprise.Server.Startup
import CamelidEnterprise.Engine.RawControl
import CamelidEnterprise.Engine.GreedyValues
import CamelidEnterprise.Engine.Markers
import CamelidEnterprise.Server.ChatTurns
