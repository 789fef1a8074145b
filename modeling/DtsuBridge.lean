import DtsuBridge.Lib.BinFormat
import DtsuBridge.Lib.PyFloat
import DtsuBridge.Lib.ExactFloat
import DtsuBridge.Lib.FloatOrder
import DtsuBridge.Lib.Run
import DtsuBridge.Lib.Dict
import DtsuBridge.Lib.Slice
import DtsuBridge.Lib.Banks
import DtsuBridge.Lib.Except
import DtsuBridge.Lib.Latest
import DtsuBridge.Lib.Windows
import DtsuBridge.Basic
import DtsuBridge.Codec
import DtsuBridge.WireActivity
import DtsuBridge.Config
import DtsuBridge.AppConfig
import DtsuBridge.Canonical
import DtsuBridge.Derive
import DtsuBridge.Split
import DtsuBridge.Datastore
import DtsuBridge.Publish
import DtsuBridge.EncodeOrder
import DtsuBridge.Registers
import DtsuBridge.Words
import DtsuBridge.Accounting
import DtsuBridge.Pollers
import DtsuBridge.Replies
import DtsuBridge.Coverage
import DtsuBridge.Decode
import DtsuBridge.Declared
import DtsuBridge.Isolation
import DtsuBridge.Combine
import DtsuBridge.GroupReading
import DtsuBridge.Nd45Acceptance
import DtsuBridge.HubCache
import DtsuBridge.HubBackoff
import DtsuBridge.HubReadiness
import DtsuBridge.HubEquiv
import DtsuBridge.PollTiming
import DtsuBridge.ServerSupervisor
import DtsuBridge.PollSupervisor
import DtsuBridge.PollRecovery
import DtsuBridge.Startup
import DtsuBridge.StallDetection
import DtsuBridge.FailSafe
import DtsuBridge.HubAge
import DtsuBridge.HubStaleness
import DtsuBridge.Gauges
import DtsuBridge.RequestCrc
import DtsuBridge.RoundTrip
import DtsuBridge.SampleSpread
import DtsuBridge.Lib.Counter
import DtsuBridge.RtuActivity
import DtsuBridge.RegisterTrace
import DtsuBridge.Lib.Episodes
import DtsuBridge.InvalidEpisodes
import DtsuBridge.Lib.Numeral
import DtsuBridge.Lib.Exposition
import DtsuBridge.Metrics
import DtsuBridge.MetricsText
import DtsuBridge.MetricsBlocks
import DtsuBridge.Unambiguous
import DtsuBridge.Lib.Interleave
import DtsuBridge.Lib.Http
import DtsuBridge.HttpLayer
import DtsuBridge.Process
import DtsuBridge.StatusGauges
import DtsuBridge.Lib.Refine
import DtsuBridge.ServerAvailability
import DtsuBridge.Watchdog
import DtsuBridge.StaticMode
import DtsuBridge.Lib.RoundingError
import DtsuBridge.Accuracy
import DtsuBridge.Counters
import DtsuBridge.Lib.Decimal
import DtsuBridge.ReadBack
import DtsuBridge.Lib.Ranking
import DtsuBridge.RunApp
import DtsuBridge.Shutdown
