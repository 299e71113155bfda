import Allwinner.Library.Runs
import Allwinner.Modem.StatusLaws
import Allwinner.Modem.Driver
import Allwinner.Modem.ControlLaws
import Allwinner.Modem.Coherence
import Allwinner.Modem.InFlight
import Allwinner.Modem.PassLaws
import Allwinner.Modem.Calls
import Allwinner.Modem.Pin
import Allwinner.Library.Memory
import Allwinner.Scp.Layout
import Allwinner.Scp.Machine
import Allwinner.Library.Weakest
import Allwinner.Scp.StackSafety
import Allwinner.Modem.Chunks
import Allwinner.Modem.Reboot
import Allwinner.Scp.Mailbox
import Allwinner.Scp.Sessions
import Allwinner.Scp.Scheduling
import Allwinner.Scp.Client
import Allwinner.Gpu.Objects
import Allwinner.Gpu.Worker
import Allwinner.Gpu.Calls
import Allwinner.Gpu.Books
import Allwinner.Gpu.Bookkeeping
import Allwinner.Gpu.Sharing
import Allwinner.Modem.CallList
import Allwinner.Scp.Effects
import Allwinner.Scp.Strings
import Allwinner.Modem.Lines
import Allwinner.Modem.Main
import Allwinner.Modem.MainLaws
import Allwinner.Modem.QcfgExchange
import Allwinner.Modem.Settle
import Allwinner.Library.ListModel
import Allwinner.Pio.Counts
import Allwinner.Pio.Registers
import Allwinner.Pio.Restored
import Allwinner.Library.Segments
import Allwinner.Library.BitFields
import Allwinner.Scp.Arithmetic
import Allwinner.Scp.Numbers
import Allwinner.Scp.Output
import Allwinner.Scp.Formatting
import Allwinner.Scp.Scanner
import Allwinner.Scp.Dictionary
import Allwinner.Scp.Interpreter
import Allwinner.Scp.Image
import Allwinner.Scp.ParsingWords
import Allwinner.Scp.Evaluate
import Allwinner.Scp.Compiler
import Allwinner.Scp.Definitions
import Allwinner.Scp.Editor
import Allwinner.Scp.Threaded
import Allwinner.Scp.Registers
import Allwinner.Scp.Primitives
import Allwinner.Scp.Simulation
import Allwinner.Scp.Bitfields
import Allwinner.Modem.EarnedReboot
import Allwinner.Gpu.Import
import Allwinner.Gpu.Submission
import Allwinner.Library.Raster
import Allwinner.Camera.Rotation
import Allwinner.Camera.DoubleBuffer
import Allwinner.Touch.Input
import Allwinner.Touch.Contacts
import Allwinner.Touch.Bounds
import Allwinner.Audio.Recording
import Allwinner.Audio.Analog
import Allwinner.Modem.Fields
import Allwinner.Modem.Terminal
import Allwinner.Scp.Vocabulary
import Allwinner.Scp.MobOutput
import Allwinner.Library.Structured
import Allwinner.Scp.Structures
import Allwinner.Scp.ControlWords
import Allwinner.Scp.Compilation
import Allwinner.Scp.Implementation
import Allwinner.Library.Canvas
import Allwinner.Library.Procedures
import Allwinner.Library.Divergence
import Allwinner.Library.RegisterFile
import Allwinner.Camera.Conversion
import Allwinner.Audio.Playback
import Allwinner.Scp.Programs
import Allwinner.Scp.EndlessLoops
import Allwinner.Scp.Printing
import Allwinner.Platform.Ccu
import Allwinner.Power.SerialBus
import Allwinner.Power.BusWords
import Allwinner.Power.Program
import Allwinner.Power.Requests
import Allwinner.Power.Services
import Allwinner.Power.Report
import Allwinner.Power.Commands
import Allwinner.Power.Interpreting
import Allwinner.Power.Driver
import Allwinner.Power.Supplies
import Allwinner.Pio.BankRuns
