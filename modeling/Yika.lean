import Yika.Program.Basic
import Yika.Program.Rules
import Yika.Program.Lower
import Yika.Program.Fields
import Yika.Program.Race
import Yika.Program.Threads
import Yika.Program.Heed
import Yika.Program.Beside
import Yika.Program.Cells
import Yika.Program.Region
import Yika.Fm.Board
import Yika.Fm.Driver
import Yika.Fm.Ioctl
import Yika.Fm.Footprint
import Yika.Fm.WorkingMode
import Yika.Fm.Requests
import Yika.Fm.RssiBands
import Yika.Fm.NoiseFloor
import Yika.Fm.Seek
import Yika.Fm.Concurrency
import Yika.Fm.RdsBuffer
import Yika.I2c.Bus
import Yika.I2c.Master
import Yika.I2c.Transfer
import Yika.I2c.Slave
import Yika.Fm.OnPins
import Yika.Fm.WithoutChip
import Yika.Fm.Updates
import Yika.Fm.Settings
import Yika.Fm.Access
import Yika.Fm.Serializable
import Yika.Fm.Sought
import Yika.Program.Guard
import Yika.Relay.Framing
import Yika.Relay.Relayer
import Yika.Relay.Forward
import Yika.Relay.Chip
import Yika.Relay.Receive
import Yika.Relay.Duplex
import Yika.Fm.Registers
import Yika.Fm.Tables
import Yika.Fm.Tuning
import Yika.Fm.Reads
import Yika.Fm.Abi
import Yika.Fm.Process
import Yika.Fm.Service
import Yika.Fm.Dial
import Yika.Bt803.KeyEvent
import Yika.BtTest.Listener
import Yika.Program.Ledger
import Yika.Relay.Devices
import Yika.Probe.Drivers
import Yika.Program.Bounded
import Yika.Fm.Polling
import Yika.Fm.Termination
import Yika.Probe.CharDevice
import Yika.Probe.Restore
import Yika.Relay.Pairing
import Yika.Bt803.Switch
import Yika.Bt803.Hall
import Yika.Devs.Serial
import Yika.I2c.Acks
import Yika.Fm.FloorUpdate
import Yika.Fm.ScanSettings
import Yika.Fm.Threshold
import Yika.Fm.Stricter
import Yika.Fm.ScanOrder
import Yika.Fm.ScanPasses
import Yika.Fm.SingleSeek
import Yika.Program.Throughout
import Yika.Fm.HandBack
import Yika.Fm.BandWindows
import Yika.Program.Pump
import Yika.Relay.WritePc
import Yika.Relay.ReadPc
import Yika.Program.Finishing
import Yika.Relay.Exit
import Yika.BtTest.Packet
import Yika.BtTest.Parse
import Yika.BtTest.Send
import Yika.Bt803.ProcNode
import Yika.Devs.Cmdline
import Yika.Devs.Fixup
import Yika.Devs.Atags
import Yika.Devs.Boot
import Yika.Devs.InPlace
import Yika.Devs.Handover
import Yika.Devs.Lines
import Yika.Devs.FrameBuffer
