import Microsippy.HdrLookup
import Microsippy.Eviction
import Microsippy.RunReport
import Microsippy.Deadlines
import Microsippy.Completed
import Microsippy.FailedSend
import Microsippy.Notices
import Microsippy.HdrCaps
import Microsippy.RouteSet
import Microsippy.WireSplit
import Microsippy.LocalUri
import Microsippy.BreakDown
import Microsippy.DialogUris
import Microsippy.NextRun
import Microsippy.NextRequest
import Microsippy.ActiveCount
import Microsippy.Reentry
import Microsippy.FailedAnswer
import Microsippy.Regions
import Microsippy.AuthHdr
import Microsippy.FailedParse
import Microsippy.ParseHdrs
import Microsippy.SipUa
import Microsippy.UaLife
import Microsippy.Owners
import Microsippy.Digest
import Microsippy.AuthText
import Microsippy.AuthzText
import Microsippy.AuthzPrint
import Microsippy.AuthzAnswer
import Microsippy.AuthzRound
import Microsippy.DigestCheck
import Microsippy.CaseCompare
import Microsippy.TimerG
import Microsippy.ValueRound
import Microsippy.QuotedStrings
import Microsippy.Padding
import Microsippy.UriText
import Microsippy.ListHdrs
import Microsippy.AuthRound
import Microsippy.AckMatch
import Microsippy.MethodLookup
import Microsippy.CseqNumber
import Microsippy.FinalAnswer
import Microsippy.Retransmits
import Microsippy.ResponseTags
import Microsippy.Md5
import Microsippy.ReqRound
import Microsippy.ResRound
import Microsippy.ServerRuns
import Microsippy.Reaping
import Microsippy.RouteLines
import Microsippy.Starved
import Microsippy.Fits
import Microsippy.Unstopped
import Microsippy.TurnAsserts
import Microsippy.RunAsserts
