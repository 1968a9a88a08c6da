import HvmlFpm.Multipart.Bounds
import HvmlFpm.Multipart.Protocol
import HvmlFpm.Multipart.Sizes
import HvmlFpm.Multipart.Upload
import HvmlFpm.Multipart.Chunking
import HvmlFpm.Request.FormData
import HvmlFpm.Worker.BadBody
import HvmlFpm.Supervisor.Pool
import HvmlFpm.Supervisor.Abandon
import HvmlFpm.Library.Strsep
import HvmlFpm.Multipart.Pairs
import HvmlFpm.Multipart.RoundTrip
import HvmlFpm.Request.Charset
import HvmlFpm.Worker.OwnInput
import HvmlFpm.Worker.Response
import HvmlFpm.Multipart.Text
import HvmlFpm.Multipart.Grammar
import HvmlFpm.Multipart.TempFiles
import HvmlFpm.Multipart.FirstPart
import HvmlFpm.Multipart.LetterCase
import HvmlFpm.Launcher.Identity
import HvmlFpm.Launcher.Main
import HvmlFpm.Launcher.Numbers
import HvmlFpm.Library.AvlTree
import HvmlFpm.Library.Ring
import HvmlFpm.Multipart.ValidVariants
import HvmlFpm.Request.AllOrNothing
import HvmlFpm.Supervisor.PidFile
import HvmlFpm.Util.Attach
import HvmlFpm.Util.Find
import HvmlFpm.Util.Insert
import HvmlFpm.Util.Runs
import HvmlFpm.Worker.ContentLength
import HvmlFpm.Worker.ExecutionLimit
import HvmlFpm.Fcgi.Requests
import HvmlFpm.Fcgi.Joining
import HvmlFpm.Fcgi.Foreign
import HvmlFpm.Fcgi.Answers
import HvmlFpm.Fcgi.Content
import HvmlFpm.Util.Nearest
