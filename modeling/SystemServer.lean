import SystemServer.Core.LTS
import SystemServer.Core.Trace
import SystemServer.Core.Pool
import SystemServer.Core.Fifo
import SystemServer.Core.Mirror
import SystemServer.Core.Shared
import SystemServer.Core.Announce
import SystemServer.Core.Bracket
import SystemServer.Core.CString
import SystemServer.Core.Decimal
import SystemServer.L1Wire.Recv
import SystemServer.L1Wire.Fragment
import SystemServer.L1Wire.Readings
import SystemServer.L2Queue.RunQueue
import SystemServer.L2Queue.ExactlyOnce
import SystemServer.L2Queue.Order
import SystemServer.L2Queue.Registry
import SystemServer.L2Queue.Refine
import SystemServer.L2Queue.KindOrder
import SystemServer.L2Queue.Drain
import SystemServer.L3Daemon.Sigchld
import SystemServer.L3Daemon.Sysnoti
import SystemServer.L3Daemon.EndToEnd
import SystemServer.L3Daemon.PipeBound
import SystemServer.L3Daemon.Strings
import SystemServer.L4Device.CpuFreq
import SystemServer.L4Device.MinFloor
import SystemServer.L4Device.PowerSaving
import SystemServer.L4Device.LowMem
import SystemServer.L4Device.OomTimer
import SystemServer.L4Device.Shm
import SystemServer.L4Device.LowBat
import SystemServer.L4Device.BatStatus
import SystemServer.L4Device.BatMonitor
import SystemServer.L4Device.ProcMgr
import SystemServer.L4Device.Ageing
import SystemServer.L4Device.Recency
import SystemServer.L4Device.Capacity
import SystemServer.L4Device.CrashLog
import SystemServer.L4Device.CrashOnce
import SystemServer.L4Device.CrashOwn
import SystemServer.L4Device.Launch
import SystemServer.L4Device.CommandLine
import SystemServer.L4Device.Permanent
import SystemServer.L4Device.Generations
import SystemServer.L4Device.Cables
import SystemServer.L4Device.BatFull
import SystemServer.L4Device.TimeMgr
import SystemServer.L4Device.Screen
import SystemServer.L4Device.Mmc
import SystemServer.L4Device.MmcNumber
import SystemServer.L4Device.UsbStorage
import SystemServer.L4Device.StorageKeys
import SystemServer.L4Device.StorageEvents
import SystemServer.L4Device.UsbServer
import SystemServer.L4Device.LowBatPopup
import SystemServer.L4Device.PowerOff
import SystemServer.L4Device.PowerClock
import SystemServer.L4Device.Predefine
import SystemServer.L4Device.NullArgs
import SystemServer.L4Device.Boot
import SystemServer.L4Device.Serve
import SystemServer.L4Device.Alarms
import SystemServer.L4Device.Jacks
import SystemServer.L4Device.JackRequests
import SystemServer.L4Device.DeviceNoti
