import TarmIo.Core.SizeRoundTrip
import TarmIo.Loop.Work
import TarmIo.Loop.PostedCallbacks
import TarmIo.Loop.ScheduledCallbacks
import TarmIo.Loop.TimerStop
import TarmIo.Loop.TimerSchedule
import TarmIo.Backlog.Accuracy
import TarmIo.Backlog.Moves
import TarmIo.Net.Udp.Restart
import TarmIo.Net.Udp.NonInterference
import TarmIo.Net.Udp.PeerLifetime
import TarmIo.Net.Tcp.Offsets
import TarmIo.Net.Tcp.NullCallbacks
import TarmIo.Net.Tcp.CloseReport
import TarmIo.Net.Tcp.ListenRetry
import TarmIo.Net.Tls.PendingData
import TarmIo.Net.Tls.ConnectReport
import TarmIo.Net.Tls.Segmentation
import TarmIo.Net.Tls.ServedClient
import TarmIo.Net.Dtls.CloseReports
import TarmIo.Net.SendsAnswered
import TarmIo.Net.MessageSend
import TarmIo.Net.KeptMessages
import TarmIo.Net.KeptChunks
import TarmIo.Fs.Reopen
import TarmIo.Fs.ChunkSource
import TarmIo.Fs.SequentialRead
import TarmIo.Fs.OverlappingReads
import TarmIo.Fs.DirListing
import TarmIo.Fs.OpenAnswered
import TarmIo.Fs.SubtreeRemoval
import TarmIo.Fs.PathHash
import TarmIo.Fs.QuotedPath
import TarmIo.Fs.PathAccess
import TarmIo.Fs.RelativePath
import TarmIo.Fs.AllDirsMade
import TarmIo.Global.BufferSize
