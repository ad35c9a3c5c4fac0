import OneWifiTestSuite.Runs
import OneWifiTestSuite.Cells
import OneWifiTestSuite.Queue
import OneWifiTestSuite.HashMap
import OneWifiTestSuite.HashMapWalk
import OneWifiTestSuite.StaKey
import OneWifiTestSuite.StaMgr
import OneWifiTestSuite.Steps
import OneWifiTestSuite.Scheduler
import OneWifiTestSuite.Moves
import OneWifiTestSuite.Invariant
import OneWifiTestSuite.Barrier
import OneWifiTestSuite.BitSet
import OneWifiTestSuite.PendingMask
import OneWifiTestSuite.ThreadExit
import OneWifiTestSuite.Trigger
import OneWifiTestSuite.MainLoop
import OneWifiTestSuite.SharedCell
import OneWifiTestSuite.StepTypes
import OneWifiTestSuite.ConfigSteps
import OneWifiTestSuite.LocalSteps
import OneWifiTestSuite.StaFrame
import OneWifiTestSuite.CharDevice
import OneWifiTestSuite.ByteRegion
import OneWifiTestSuite.MsgHdlr
import OneWifiTestSuite.RebootResume
import OneWifiTestSuite.StaleData
import OneWifiTestSuite.KernelCodec
import OneWifiTestSuite.CStrings
import OneWifiTestSuite.RebootFile
import OneWifiTestSuite.MsgMgr
import OneWifiTestSuite.BusTree
import OneWifiTestSuite.BusShape
import OneWifiTestSuite.BusEdits
import OneWifiTestSuite.BusInsert
import OneWifiTestSuite.BusRemoval
import OneWifiTestSuite.BusRuns
import OneWifiTestSuite.BusOwnership
import OneWifiTestSuite.BusRows
import OneWifiTestSuite.BusRegistry
import OneWifiTestSuite.BusResolution
import OneWifiTestSuite.AgentJson
import OneWifiTestSuite.AgentStatus
import OneWifiTestSuite.AgentCapability
import OneWifiTestSuite.AgentRequests
import OneWifiTestSuite.ExtStaMgr
import OneWifiTestSuite.AgentLife
import OneWifiTestSuite.AgentNotify
import OneWifiTestSuite.AgentStations
import OneWifiTestSuite.StaSubdoc
import OneWifiTestSuite.IperfSubdoc
import OneWifiTestSuite.StepRemoval
import OneWifiTestSuite.PendingSearch
import OneWifiTestSuite.StaAtomic
import OneWifiTestSuite.MsgBounds
import OneWifiTestSuite.StaRemoveAll
import OneWifiTestSuite.Reconnect
import OneWifiTestSuite.StatsGet
import OneWifiTestSuite.ResultFile
import OneWifiTestSuite.StepRefs
import OneWifiTestSuite.SimRelease
import OneWifiTestSuite.StepRelease
import OneWifiTestSuite.Accesses
import OneWifiTestSuite.AgentDecodeError
import OneWifiTestSuite.AgentPolling
import OneWifiTestSuite.AgentTestconfig
import OneWifiTestSuite.Buffers
import OneWifiTestSuite.DataModelCheck
import OneWifiTestSuite.Elements
import OneWifiTestSuite.KernelBounds
import OneWifiTestSuite.MsgName
import OneWifiTestSuite.RbusProps
import OneWifiTestSuite.SignalPattern
import OneWifiTestSuite.StatsSchedule
import OneWifiTestSuite.SsidRewrite
import OneWifiTestSuite.Radiotap
import OneWifiTestSuite.IperfPolling
import OneWifiTestSuite.PacketGenerator
import OneWifiTestSuite.PcapFrames
import OneWifiTestSuite.IperfOptions
import OneWifiTestSuite.SecurityObject
import OneWifiTestSuite.StationDecode
import OneWifiTestSuite.IndexRanges
import OneWifiTestSuite.FrameOffer
import OneWifiTestSuite.StationPrototypes
import OneWifiTestSuite.Stdio
import OneWifiTestSuite.DmcliGet
import OneWifiTestSuite.IndexConvention
import OneWifiTestSuite.AgentAgreement
import OneWifiTestSuite.AgentSteps
import OneWifiTestSuite.BusMux
import OneWifiTestSuite.CciParameters
import OneWifiTestSuite.Delivery
import OneWifiTestSuite.EthDevices
import OneWifiTestSuite.Injection
import OneWifiTestSuite.Namespaces
import OneWifiTestSuite.StatsSteps
import OneWifiTestSuite.StepKinds
