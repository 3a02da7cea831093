import Firestr.Network.UdpSenderRuns
import Firestr.Network.UdpPump
import Firestr.Network.UdpPeers
import Firestr.Network.UdpBuffer
import Firestr.Network.UdpArrivals
import Firestr.Network.UdpChunkSizes
import Firestr.Network.UdpReceiveBuffer
import Firestr.Network.AddressRoundTrip
import Firestr.Network.TcpReaderRuns
import Firestr.Network.TcpWriterRuns
import Firestr.Network.TcpQueue
import Firestr.Network.PoolAvailability
import Firestr.Util.MencodePrefix
import Firestr.Util.SerializeProperties
import Firestr.Util.CrStringReplicas
import Firestr.Util.CrStringContents
import Firestr.Util.StoreFailures
import Firestr.Util.VClockJoin
import Firestr.Conversations.EmptyConversation
import Firestr.Conversations.Senders
import Firestr.Messages.Replies
import Firestr.Gui.ChatRuns
import Firestr.Gui.AppEditorRuns
import Firestr.Gui.AppFiles
import Firestr.Gui.LuaMessage
import Firestr.User.HandshakeMail
import Firestr.User.ThreadRuns
import Firestr.User.UserDataTrip
import Firestr.User.ContactListRuns
import Firestr.Security.KeyBlocks
import Firestr.Library.Base64
import Firestr.User.Identity
import Firestr.Gui.AppSaving
import Firestr.Util.FileSystemDirectories
import Firestr.Gui.AppSavingTrip
import Firestr.Gui.LuaApart
import Firestr.Dtl.Merge
import Firestr.Util.QueueWorker
