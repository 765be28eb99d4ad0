import Messaround.Aofs.Allocator
import Messaround.Aofs.Backing
import Messaround.Aofs.BitmapSet
import Messaround.Aofs.Concurrent
import Messaround.Aofs.Exposure
import Messaround.Aofs.Invariants
import Messaround.Aofs.Metadata
import Messaround.Aofs.Names
import Messaround.Aofs.RawWrite
import Messaround.Aofs.ReadBounds
import Messaround.Aofs.Resize
import Messaround.Aofs.Service
import Messaround.Aofs.WriteLoop
import Messaround.Pager.BusyRuns
import Messaround.Pager.FrameRuns
import Messaround.Pager.Heads
import Messaround.Pager.Laundry
import Messaround.Pager.Oom
import Messaround.Pager.Views
import Messaround.Sched.Balance
import Messaround.Sched.HistoryRuns
import Messaround.Sched.Rotation
import Messaround.Sched.Words
import Messaround.Shell.Forks
import Messaround.Shell.Leftover
import Messaround.Shell.Pipes
import Messaround.Shell.Redirection
import Messaround.Shell.Split
