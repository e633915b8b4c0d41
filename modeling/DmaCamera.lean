import DmaCamera.Library.Runs
import DmaCamera.Engine
import DmaCamera.TransferData
import DmaCamera.Fetch
import DmaCamera.EngineRuns
import DmaCamera.ServiceOrder
import DmaCamera.ServiceOutcome
import DmaCamera.Cyclic
import DmaCamera.Interrupts
import DmaCamera.Threads
import DmaCamera.Camera
import DmaCamera.Library.Circular
import DmaCamera.Receive
import DmaCamera.ReceiveRing
import DmaCamera.Credits
import DmaCamera.Overrun
import DmaCamera.ReadCall
import DmaCamera.ReadSystem
import DmaCamera.Library.Framing
import DmaCamera.ReadFlow
import DmaCamera.ReadOrder
import DmaCamera.SoleReader
import DmaCamera.PacketReads
import DmaCamera.OverrunReport
import DmaCamera.Library.Sharing
import DmaCamera.SharedReads
import DmaCamera.Ring
import DmaCamera.CyclicSetup
import DmaCamera.AsyncRequest
import DmaCamera.RequestPaths
import DmaCamera.Stream
import DmaCamera.StreamClose
import DmaCamera.StreamQueue
import DmaCamera.FixedAddress
import DmaCamera.BarAccess
import DmaCamera.Completion
import DmaCamera.AsyncOutcome
import DmaCamera.Conservation
import DmaCamera.Library.Ledger
import DmaCamera.Probe
import DmaCamera.ProbeUnwind
import DmaCamera.ProbeEngines
import DmaCamera.ProbeInterfaces
import DmaCamera.ProbeOutcome
import DmaCamera.InstanceTable
import DmaCamera.Events
import DmaCamera.Ioctl
import DmaCamera.ReadResult
import DmaCamera.ReadBounds
import DmaCamera.SetupErrors
import DmaCamera.CreateOutcome
import DmaCamera.AsyncError
import DmaCamera.DescriptorLength
import DmaCamera.DescriptorAlignment
import DmaCamera.Position
import DmaCamera.BypassRead
import DmaCamera.BitHeader
import DmaCamera.MonitorCyclic
import DmaCamera.PerfCounters
import DmaCamera.PerfLoop
import DmaCamera.BitHeaderRoundTrip
import DmaCamera.BitHeaderBounds
import DmaCamera.XclBin
import DmaCamera.BitDevice
import DmaCamera.Mcap
import DmaCamera.Icap
import DmaCamera.BitstreamIoctl
import DmaCamera.ControlIoctl
import DmaCamera.IcapAnswers
import DmaCamera.IcapDelivery
import DmaCamera.DownloadResult
import DmaCamera.McapDelivery
import DmaCamera.GateRuns
import DmaCamera.PageList
import DmaCamera.RingProcess
import DmaCamera.ServiceCount
import DmaCamera.DmaMemory
import DmaCamera.FileAccess
import DmaCamera.Isr
import DmaCamera.Pipeline
import DmaCamera.PipelineRuns
import DmaCamera.Removal
import DmaCamera.RemovalOutcome
import DmaCamera.ServiceModes
import DmaCamera.BypassWrite
import DmaCamera.BootFile
