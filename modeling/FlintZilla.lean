import FlintZilla.Aio.ReaderDelivers
import FlintZilla.Aio.WriterLog
import FlintZilla.Cache.Eviction
import FlintZilla.Cache.FindMap
import FlintZilla.Cache.ServerMap
import FlintZilla.CommonUi.CertStore
import FlintZilla.CommonUi.Protect
import FlintZilla.CommonUi.SiteManager
import FlintZilla.CommonUi.UpdaterReady
import FlintZilla.CommonUi.VersionNumber
import FlintZilla.CommonUi.XmlFileCrash
import FlintZilla.Ftp.AsciiTransfer
import FlintZilla.Ftp.Mkdir
import FlintZilla.Ftp.Receive
import FlintZilla.Ftp.Replies
import FlintZilla.Ftp.ResumeTest
import FlintZilla.Ftp.TransferResult
import FlintZilla.Ftp.SendCommand
import FlintZilla.Ftp.Upgrade
import FlintZilla.Ftp.WorkingDirectory
import FlintZilla.Http.Resume
import FlintZilla.Listing.Fragments
import FlintZilla.Listing.Tokens
import FlintZilla.OpLock.Wakeup
import FlintZilla.Path.Drive
import FlintZilla.Path.RoundTrip
import FlintZilla.Queue.RowLookup
import FlintZilla.Recursive.Confinement
import FlintZilla.Recursive.PostOrder
import FlintZilla.Recursive.Termination
import FlintZilla.Sftp.HelperReplies
import FlintZilla.Sftp.OneLine
