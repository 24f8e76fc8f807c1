import ChromeGcc.Units
import ChromeGcc.Base.Trace
import ChromeGcc.Loss.Collection
import ChromeGcc.Loss.Steps
import ChromeGcc.Loss.Sound
import ChromeGcc.Loss.IndexSafety
import ChromeGcc.Loss.Counting
import ChromeGcc.Loss.Boundary
import ChromeGcc.Loss.Offset
import ChromeGcc.Base.CString
import ChromeGcc.Packet.Codec
import ChromeGcc.Packet.RoundTrip
import ChromeGcc.Packet.Malformed
import ChromeGcc.SendSide.Estimation
import ChromeGcc.Base.MinQueue
import ChromeGcc.SendSide.Steps
import ChromeGcc.SendSide.Rates
import ChromeGcc.SendSide.Runs
import ChromeGcc.SendSide.LowLoss
import ChromeGcc.RateControl.LinkCapacity
import ChromeGcc.RateControl.Aimd
import ChromeGcc.RateControl.Response
import ChromeGcc.DelayBased.InterArrival
import ChromeGcc.DelayBased.Trendline
import ChromeGcc.Throughput.BitrateEstimator
import ChromeGcc.DelayBased.Bwe
import ChromeGcc.Controller.GoogCc
import ChromeGcc.Controller.Limits
import ChromeGcc.DelayBased.ClockShift
import ChromeGcc.Controller.ClockOffset
import ChromeGcc.Peers.Sender
import ChromeGcc.Peers.Receiver
import ChromeGcc.Peers.Malformed
import ChromeGcc.Loss.Conservation
import ChromeGcc.Loss.HandOver
import ChromeGcc.DelayBased.Predictor
import ChromeGcc.Peers.Pacing
import ChromeGcc.Peers.WallClock
import ChromeGcc.Peers.PacingRate
import ChromeGcc.Packet.Overflow
import ChromeGcc.SendSide.LimitRange
import ChromeGcc.Peers.Network
import ChromeGcc.Peers.Agreement
import ChromeGcc.DelayBased.Drift
import ChromeGcc.Loss.Batching
import ChromeGcc.Base.Batches
import ChromeGcc.Controller.PacketOrder
import ChromeGcc.SendSide.LossFraction
import ChromeGcc.SendSide.RampUp
import ChromeGcc.Throughput.Conservation
import ChromeGcc.Throughput.Estimate
import ChromeGcc.Throughput.Windows
import ChromeGcc.DelayBased.Debounce
import ChromeGcc.DelayBased.Packets
import ChromeGcc.DelayBased.Recovery
import ChromeGcc.DelayBased.SendOrder
import ChromeGcc.Base.LeastSquares
import ChromeGcc.Controller.IncreaseSafety
import ChromeGcc.Controller.RateViews
import ChromeGcc.DelayBased.DeltaSums
import ChromeGcc.DelayBased.Slope
import ChromeGcc.RateControl.CapacityBounds
import ChromeGcc.SendSide.MinHistory
import ChromeGcc.Base.Channel
import ChromeGcc.DelayBased.Easing
import ChromeGcc.Loss.Ledger
import ChromeGcc.Loss.WindowCut
import ChromeGcc.Peers.Hearing
import ChromeGcc.Peers.Bottleneck
import ChromeGcc.Peers.Easing
import ChromeGcc.Peers.Lossless
import ChromeGcc.Peers.Progress
import ChromeGcc.Peers.SendRate
import ChromeGcc.SendSide.Climb
import ChromeGcc.Peers.BackOff
import ChromeGcc.Peers.Draining
import ChromeGcc.DelayBased.Smoothing
import ChromeGcc.DelayBased.Groups
import ChromeGcc.Peers.SlowDown
import ChromeGcc.DelayBased.Spacing
import ChromeGcc.Peers.Spacing
