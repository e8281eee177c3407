import Blyt.ArenaStale
import Blyt.Eviction
import Blyt.PersistentGuard
import Blyt.HybridBudget
import Blyt.ShadowHeap
import Blyt.EvictHidden
import Blyt.AssetReload
import Blyt.ResetCycle
import Blyt.CartBounds
import Blyt.ConstNames
import Blyt.PackedSlots
import Blyt.StateLaws
import Blyt.StateMigration
import Blyt.SaveCompat
import Blyt.FillSpec
import Blyt.FrameHash
import Blyt.LockArena
import Blyt.PhaseGate
import Blyt.RawFramebuffer
import Blyt.FrameScope
import Blyt.BreakpointSafe
import Blyt.SwapFresh
import Blyt.GdbReload
import Blyt.LuaBridge
import Blyt.TaskRunner
import Blyt.WatchSignals
import Blyt.DapPaths
import Blyt.ReverseCall
import Blyt.CompileCommand
import Blyt.ResourceCodec
import Blyt.LongDivision
import Blyt.Base64
import Blyt.PersistentSet
