import ParkingSystem.Foundation.Text
import ParkingSystem.Foundation.Lines
import ParkingSystem.Foundation.Strip
import ParkingSystem.Foundation.Decimal
import ParkingSystem.Foundation.CInt
import ParkingSystem.Foundation.Scan
import ParkingSystem.Foundation.Calendar
import ParkingSystem.Foundation.Replay
import ParkingSystem.Foundation.Trace
import ParkingSystem.Foundation.Machine
import ParkingSystem.Foundation.Ring
import ParkingSystem.Foundation.CellCopy
import ParkingSystem.Foundation.RwLock
import ParkingSystem.Foundation.Unwinding
import ParkingSystem.Foundation.IrqFlag
import ParkingSystem.Foundation.Resource
import ParkingSystem.Foundation.Fifo
import ParkingSystem.Foundation.FileSystem
import ParkingSystem.Common
import ParkingSystem.Common.Config
import ParkingSystem.Common.ConfigC
import ParkingSystem.Stm32.Frame
import ParkingSystem.Stm32.Ticks
import ParkingSystem.Stm32.Schedule
import ParkingSystem.Stm32.Rounds
import ParkingSystem.Stm32.Slave
import ParkingSystem.Stm32.Firmware
import ParkingSystem.Bbg.I2c
import ParkingSystem.Bbg.Tcp
import ParkingSystem.Bbg.Delivery
import ParkingSystem.Bbg.PipeLines
import ParkingSystem.Server.MessageParser
import ParkingSystem.Server.Session
import ParkingSystem.Server.PriceTable
import ParkingSystem.Server.TcpServer
import ParkingSystem.Server.Billing
import ParkingSystem.Server.Framing
import ParkingSystem.Server.NulBytes
import ParkingSystem.Server.Isolation
import ParkingSystem.Server.Descriptors
import ParkingSystem.Server.Shutdown
import ParkingSystem.Server.Replies
import ParkingSystem.System.FrameToMessage
import ParkingSystem.System.PipeSessions
import ParkingSystem.System.Cycles
import ParkingSystem.System.Fleet
import ParkingSystem.System.FleetBilling
import ParkingSystem.System.Backpressure
import ParkingSystem.Db.Database
import ParkingSystem.System.Audit
import ParkingSystem.Db.PriceUpdater
import ParkingSystem.Db.UpdaterRace
import ParkingSystem.Db.PriceReloader
import ParkingSystem.Db.PriceFile
import ParkingSystem.Db.LastCommand
import ParkingSystem.Db.BilledPrices
import ParkingSystem.Db.LoaderAgreement
import ParkingSystem.Db.StoresAgree
import ParkingSystem.Db.PriceList
import ParkingSystem.Db.AddReplay
import ParkingSystem.Db.AddFailures
import ParkingSystem.Db.AddLaws
import ParkingSystem.Db.Transaction
import ParkingSystem.Db.ReloadLaws
import ParkingSystem.Db.MainLoop
import ParkingSystem.Db.Propagation
import ParkingSystem.System.RecordRing
import ParkingSystem.System.EndToEnd
import ParkingSystem.System.Restarts
import ParkingSystem.System.RingLag
import ParkingSystem.System.TornRecords
import ParkingSystem.System.Counters
import ParkingSystem.System.PriceRace
import ParkingSystem.System.LoadRace
import ParkingSystem.System.PollFailures
