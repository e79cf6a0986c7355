import RyanNetwork.Lib.Extents
import RyanNetwork.Lib.Lines
import RyanNetwork.Lib.Outcome
import RyanNetwork.Lib.Runs
import RyanNetwork.Lib.Lockstep
import RyanNetwork.Lib.SizeT
import RyanNetwork.Lib.Condition
import RyanNetwork.Lib.Ledger
import RyanNetwork.Lib.Numeral
import RyanNetwork.Lib.Double
import RyanNetwork.Lib.Directory
import RyanNetwork.Lib.SwapErase
import RyanNetwork.Lib.Ring
import RyanNetwork.Lib.ExactCover
import RyanNetwork.Lib.CircularBuffer
import RyanNetwork.Lib.Wheel
import RyanNetwork.Buffer.Model
import RyanNetwork.Buffer.Content
import RyanNetwork.Buffer.ByteQueue
import RyanNetwork.Buffer.Growth
import RyanNetwork.Buffer.Series
import RyanNetwork.Buffer.Integers
import RyanNetwork.Buffer.Received
import RyanNetwork.Buffer.Disclosure
import RyanNetwork.Buffer.FixedBuffer
import RyanNetwork.Net.Channel
import RyanNetwork.Net.EventLoop
import RyanNetwork.Net.PendingFunctors
import RyanNetwork.Net.Quit
import RyanNetwork.Net.EventLoopThread
import RyanNetwork.Net.Interest
import RyanNetwork.Net.EpollWait
import RyanNetwork.Net.PollPoller
import RyanNetwork.Net.Slots
import RyanNetwork.Net.Interchange
import RyanNetwork.Timers.TimerQueue
import RyanNetwork.Timers.Arming
import RyanNetwork.Timers.Lifecycle
import RyanNetwork.Tcp.Connection
import RyanNetwork.Tcp.Stream
import RyanNetwork.Tcp.FlowControl
import RyanNetwork.Tcp.Callbacks
import RyanNetwork.Tcp.CrossThread
import RyanNetwork.Tcp.HalfClose
import RyanNetwork.Tcp.Registration
import RyanNetwork.Tcp.CloseOnce
import RyanNetwork.Tcp.StaysClosed
import RyanNetwork.Tcp.Server
import RyanNetwork.Tcp.ServerView
import RyanNetwork.Tcp.Table
import RyanNetwork.Tcp.Lifetime
import RyanNetwork.Tcp.Balance
import RyanNetwork.Tcp.OtherPoller
import RyanNetwork.Tcp.SharedPoller
import RyanNetwork.Tcp.Descriptors
import RyanNetwork.Http.Context
import RyanNetwork.Http.Parsing
import RyanNetwork.Http.Grammar
import RyanNetwork.Http.Incremental
import RyanNetwork.Http.Server
import RyanNetwork.Http.Segmentation
import RyanNetwork.Http.RequestLine
import RyanNetwork.Http.PrintParse
import RyanNetwork.Http.Termination
import RyanNetwork.Http.Answers
import RyanNetwork.Http.Response
import RyanNetwork.Http.Framing
import RyanNetwork.MemoryPool.Model
import RyanNetwork.MemoryPool.Layout
import RyanNetwork.MemoryPool.Allocations
import RyanNetwork.MemoryPool.Uninitialised
import RyanNetwork.MemoryPool.Foreign
import RyanNetwork.MemoryPool.Skipping
import RyanNetwork.MemoryPool.Destroy
import RyanNetwork.Logger.AsyncLogging
import RyanNetwork.Logger.LogStream
import RyanNetwork.Logger.Numerals
import RyanNetwork.Logger.Insertions
import RyanNetwork.Logger.Conservation
import RyanNetwork.Logger.Pointers
import RyanNetwork.Logger.Stop
import RyanNetwork.Logger.Logging
import RyanNetwork.Logger.FileUtil
import RyanNetwork.Logger.LogFile
import RyanNetwork.Logger.Pipeline
import RyanNetwork.Mysql.MysqlConnPool
import RyanNetwork.Mysql.Recycling
import RyanNetwork.Base.ThreadPool
import RyanNetwork.Base.TaskQueue
import RyanNetwork.Base.Wakeup
import RyanNetwork.Base.CountDownLatch
import RyanNetwork.Servers.IdleConnection
import RyanNetwork.Servers.FileTransfer
import RyanNetwork.Sudoku.SudokuSolver
import RyanNetwork.Sudoku.DancingLinks
import RyanNetwork.Sudoku.Solve
import RyanNetwork.Sudoku.Layout
import RyanNetwork.Sudoku.Puzzle
import RyanNetwork.Sudoku.Memory
import RyanNetwork.Servers.SudokuServer
