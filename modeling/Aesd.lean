import Aesd.Library.Machine
import Aesd.Library.Heap
import Aesd.Driver.CircularBuffer
import Aesd.Driver.FifoRefinement
import Aesd.Driver.CharDevice
import Aesd.Driver.Effects
import Aesd.Driver.Lookup
import Aesd.Driver.Transitions
import Aesd.Driver.SeekPosition
import Aesd.Driver.Validity
import Aesd.Library.Grouping
import Aesd.Driver.CommandStore
import Aesd.Driver.Ownership
import Aesd.Driver.Atomicity
import Aesd.Server.CString
import Aesd.Server.Process
import Aesd.Server.Buffers
import Aesd.Library.Words
import Aesd.Server.Receive
import Aesd.Server.Framing
import Aesd.Server.CriticalSection
import Aesd.Server.IdealDevice
import Aesd.Server.Turn
import Aesd.Server.Serial
import Aesd.Library.Progress
import Aesd.Server.Requests
import Aesd.Server.Conversation
import Aesd.Server.Replies
import Aesd.Driver.EndPosition
import Aesd.Driver.Reading
import Aesd.Driver.SharedReading
import Aesd.Server.ReceiveLoop
import Aesd.Server.Shutdown
import Aesd.Server.StaleBytes
import Aesd.Server.SeekLine
import Aesd.Server.SeekNumbers
import Aesd.Server.Accounting
import Aesd.Library.Chain
import Aesd.Server.AcceptLoop
import Aesd.Server.Reaping
import Aesd.Driver.LockDiscipline
import Aesd.Driver.EndWalk
import Aesd.Driver.Cleanup
import Aesd.Server.ReceiveWindow
import Aesd.Driver.PositionRange
import Aesd.Driver.PositionAccounts
import Aesd.Library.Transfers
import Aesd.Server.ControlFlow
import Aesd.Server.ShortTransfers
import Aesd.Server.ExitLock
import Aesd.Driver.Concurrent
import Aesd.Server.Deployment
import Aesd.Server.Coupling
import Aesd.Server.EndToEnd
import Aesd.Server.Silence
import Aesd.Server.Consistency
import Aesd.Server.Discipline
import Aesd.Server.TurnBound
import Aesd.Server.TurnProgress
import Aesd.Server.Stranded
import Aesd.Driver.Forgotten
import Aesd.Driver.Loading
import Aesd.Driver.Reloading
import Aesd.Server.Ending
import Aesd.Server.GracefulEnd
import Aesd.Server.EndReachable
import Aesd.Server.Installed
