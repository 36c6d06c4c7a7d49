import DetBypass.Common.ClockOffset
import DetBypass.Senders
import DetBypass.Receivers
import DetBypass.Common.BitsetRuns
import DetBypass.Common.BucketCalls
import DetBypass.Common.BucketOutliers
import DetBypass.Analysis.BucketEdges
import DetBypass.Analysis.BucketArrays
import DetBypass.Analysis.Latencies
import DetBypass.NoBypass.HwtsPairs
import DetBypass.Rdma.UdRecords
import DetBypass.Rdma.UdSends
import DetBypass.Rdma.UdCompletions
import DetBypass.Rdma.UdExit
import DetBypass.Rdma.RcRounds
import DetBypass.Rdma.RcTimestamps
import DetBypass.Rdma.RcCount
import DetBypass.Rdma.RcCredit
import DetBypass.Xdp.PollRingFifo
import DetBypass.Xdp.PollRingCursor
import DetBypass.Xdp.PollRingOverwrite
import DetBypass.Xdp.PollRounds
import DetBypass.Xdp.PureChecksum
import DetBypass.Xdp.Reflection
import DetBypass.Xdp.PollCall
import DetBypass.Xdp.Usage
import DetBypass.Xdp.Interval
import DetBypass.Xdp.XskConservation
import DetBypass.Xdp.XskAddresses
import DetBypass.Xdp.XskTransmit
import DetBypass.Delays
import DetBypass.Common.Addresses
import DetBypass.Rdma.Connect
import DetBypass.Intervals
import DetBypass.NoBypass.HwtsRounds
import DetBypass.Xdp.Loading
import DetBypass.Rdma.Context
import DetBypass.Persistence
import DetBypass.Peaks
import DetBypass.CommandLines
import DetBypass.Xdp.PollEnd
import DetBypass.Rdma.RcEnd
import DetBypass.NoBypass.HwtsEnd
