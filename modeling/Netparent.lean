import Netparent.Text
import Netparent.Mac
import Netparent.Command
import Netparent.Diff
import Netparent.Watch
import Netparent.Web.Safety
import Netparent.Web.Server
import Netparent.Ensure
import Netparent.LeaseLines
import Netparent.Load
import Netparent.Lib.Base64
import Netparent.Marking
import Netparent.Responses
import Netparent.Scan
import Netparent.Web.Devices
import Netparent.Shell
import Netparent.Web.Auth
import Netparent.Web.Isolation
import Netparent.Web.Mirror
import Netparent.Web.Oui
import Netparent.Web.Render
import Netparent.Web.Toggle
import Netparent.Web.Topics
import Netparent.LastSeen
import Netparent.Enforced
import Netparent.Presence
import Netparent.Web.LateJoin
import Netparent.Web.Button
import Netparent.Web.Vendor
import Netparent.Web.Dashboard
