import Cpen311.ClockedRun
import Cpen311.SyncMemory
import Cpen311.Rc4
import Cpen311.Task2Fsm
import Cpen311.KeyAttempt
import Cpen311.AttemptRun
import Cpen311.KeySearch
import Cpen311.KeyVerdict
import Cpen311.IpodPlayer
import Cpen311.Task2Fsm2
import Cpen311.AvalonRead
import Cpen311.PlayedContent
import Cpen311.FskTuning
import Cpen311.Kcpsm3
import Cpen311.PracPico
import Cpen311.PicoService
import Cpen311.PicoInterrupts
import Cpen311.StrengthMeter
import Cpen311.SwapFsm
import Cpen311.BusReads
import Cpen311.ClkDivider
import Cpen311.ClockSync
import Cpen311.ClkSync
import Cpen311.Fast2Slow
import Cpen311.OrganDivider
import Cpen311.Slow2Fast
import Cpen311.SpeedController
import Cpen311.Task1And2
import Cpen311.Accumulators
import Cpen311.Canvas
import Cpen311.SongPlayer
import Cpen311.TouchPanel
import Cpen311.Debounce
import Cpen311.HeldKeys
import Cpen311.Bresenham
import Cpen311.KeyboardControl
import Cpen311.SimpleGraphics
import Cpen311.AudioFifo
import Cpen311.Dds
import Cpen311.FskReceiver
import Cpen311.TwoTasks
import Cpen311.PicoDelays
import Cpen311.SearchReport
import Cpen311.FrameBuffer
import Cpen311.GimpImages
import Cpen311.SimpleText
import Cpen311.TouchScreen
import Cpen311.Bitmaps
import Cpen311.OsCore
import Cpen311.OsTime
import Cpen311.Pointer
import Cpen311.VgaOscilloscope
import Cpen311.DrawingBuffers
