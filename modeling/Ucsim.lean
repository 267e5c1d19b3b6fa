import Ucsim.Logic.Run
import Ucsim.Logic.Program
import Ucsim.Pobj.SortedList
import Ucsim.Sim.Cell
import Ucsim.Sim.OperatorChain
import Ucsim.Sim.AddressSpace
import Ucsim.Sim.AddressDecoder
import Ucsim.Sim.Decoding
import Ucsim.Sim.SpaceRun
import Ucsim.Sim.OperatorPlaces
import Ucsim.Sim.Breakpoints
import Ucsim.S51.Board
import Ucsim.S51.Memory
import Ucsim.S51.Cells
import Ucsim.S51.MemoryMap
import Ucsim.S51.DebugAccess
import Ucsim.S51.Core
import Ucsim.S51.Arith
import Ucsim.S51.Logic
import Ucsim.S51.Mov
import Ucsim.S51.Jmp
import Ucsim.S51.Exec
import Ucsim.S51.Arbitration
import Ucsim.S51.Movx
import Ucsim.S51.CodeSpace
import Ucsim.Format.HexText
import Ucsim.Graph.Search
import Ucsim.S51.HexImage
import Ucsim.S51.MacTicks
import Ucsim.S51.CompareSchedule
import Ucsim.S51.Receptions
import Ucsim.S51.MacOverflow
import Ucsim.S51.DmaDisarm
import Ucsim.S51.CspControl
import Ucsim.S51.CspLoad
import Ucsim.S51.CspWaits
import Ucsim.Sim.FetchBreakpoints
import Ucsim.S51.RfDelivery
import Ucsim.S51.CellUses
import Ucsim.S51.FlashGeometry
import Ucsim.S51.UsartFrames
import Ucsim.S51.Uc390Stack
import Ucsim.S51.Uc390Jumps
import Ucsim.S51.Uc390Hw
import Ucsim.S51.Uc390Dptr
import Ucsim.S51.Uc51r
import Ucsim.S51.Timer0
import Ucsim.S51.Timer2
import Ucsim.S51.ItSources
import Ucsim.Z80.IndexPrefix
import Ucsim.Z80.Stack
import Ucsim.S51.Serial
import Ucsim.S51.Pca
import Ucsim.Z80.BlockLoops
import Ucsim.Z80.Fetches
import Ucsim.Z80.InvalidCodes
import Ucsim.Z80.InstLength
import Ucsim.Avr.Operands
import Ucsim.Avr.MultiPrecision
import Ucsim.Avr.Stack
import Ucsim.Avr.Flags
import Ucsim.Avr.Skips
import Ucsim.S51.MultiByte
import Ucsim.S51.Uc89c51r
import Ucsim.Hc08.AddressRange
import Ucsim.Hc08.InstLength
import Ucsim.Hc08.Branches
import Ucsim.Hc08.Stack
import Ucsim.S51.Wdt
import Ucsim.S51.DmaEvents
import Ucsim.S51.Transmission
import Ucsim.S51.PageErase
import Ucsim.Pobj.CList
import Ucsim.Pobj.ListRuns
import Ucsim.Sim.Counters
import Ucsim.Sim.Searching
import Ucsim.Sim.Dump
import Ucsim.S51.Waveform
import Ucsim.S51.TimerTicking
import Ucsim.Xa.Branches
import Ucsim.Xa.Calls
import Ucsim.Avr.Shifts
import Ucsim.Avr.Words
import Ucsim.Z80.Exchanges
import Ucsim.Z80.Conditions
import Ucsim.Z80.Decimal
import Ucsim.S51.BitAddress
import Ucsim.Cmd.Escapes
import Ucsim.Cmd.DataList
import Ucsim.Cmd.CreateDecoder
import Ucsim.Hc08.Bits
import Ucsim.Hc08.MultiByte
import Ucsim.Hc08.Decimal
import Ucsim.Xa.Bits
import Ucsim.Xa.Shifts
import Ucsim.S51.PortEvents
import Ucsim.S51.EventBreakpoints
import Ucsim.S51.Parity
import Ucsim.Sim.BreakCommands
import Ucsim.Cmd.CommandLine
import Ucsim.Cmd.CommandSet
import Ucsim.S51.SerialLink
import Ucsim.App.Options
