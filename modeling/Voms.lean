import Voms.L2Ac.Validate
import Voms.L2Ac.Holder
import Voms.L2Ac.Write
import Voms.L2Ac.RoundTrip
import Voms.L1Asn1.Dn
import Voms.L3Trust.Evaluate
import Voms.Core.Run
import Voms.L3Trust.Proxy
import Voms.L3Trust.Verify
import Voms.L4Api.Lsc
import Voms.L4Api.Issuer
import Voms.L3Wire.Xml
import Voms.L4Api.Policy
import Voms.L2Ac.Safety
import Voms.L4Api.Safety
import Voms.Core.Sort
import Voms.L5Server.MakeAC
import Voms.L5Server.Commands
import Voms.L5Server.Rest
import Voms.L5Server.Grants
import Voms.Core.Decimal
import Voms.L3Wire.Document
import Voms.L3Wire.Requests
import Voms.L4Api.Answers
import Voms.L5Server.Fqan
import Voms.L5Server.Lifetime
import Voms.L3Wire.Codec
import Voms.L3Wire.XmlAnswers
import Voms.L4Api.Records
import Voms.L4Api.Export
import Voms.L5Server.RestAnswer
import Voms.L4Api.ContactRest
import Voms.L5Server.Kept
import Voms.L5Server.Interfaces
import Voms.Core.Frames
import Voms.L3Wire.GsiSocket
import Voms.Core.Bits
import Voms.Core.Tlv
import Voms.L1Asn1.Newformat
import Voms.L2Ac.Reencode
import Voms.L1Asn1.Wire
import Voms.L5Server.Children
import Voms.L4Api.PrivateData
import Voms.L4Api.Partial
import Voms.L5Server.Targets
import Voms.L3Trust.ProxyCertInfo
import Voms.L5Server.Ordering
import Voms.L5Server.Attributes
import Voms.L3Trust.Subjects
import Voms.L3Trust.Namespaces
import Voms.L3Trust.Signing
import Voms.L3Trust.ProxyName
import Voms.L3Trust.PathLength
import Voms.L2Ac.Extensions
import Voms.L4Api.Sequences
import Voms.L4Api.Blocks
import Voms.L4Api.Quotes
import Voms.L4Api.Paths
import Voms.L3Wire.Buffers
import Voms.L3Wire.Flags
import Voms.L3Wire.Sending
import Voms.L5Server.Escapes
import Voms.L5Server.OrderText
import Voms.L3Trust.Mktime
import Voms.L3Trust.ProxySign
import Voms.L3Trust.MakeProxy
import Voms.L5Server.AttributeText
import Voms.L5Server.FqanParts
import Voms.L3Trust.TimeText
import Voms.Core.Replace
import Voms.Core.Rewrite
import Voms.L1Asn1.Spellings
import Voms.L3Trust.DnText
import Voms.L3Trust.SigningPolicy
import Voms.L6Tools.ParseTime
import Voms.L6Tools.ProxyInfo
import Voms.L4Api.Vomses
import Voms.L4Api.CInterface
import Voms.L4Api.CopyRecords
import Voms.L6Tools.Fake
import Voms.L6Tools.GaValue
import Voms.L6Tools.PastTime
import Voms.L6Tools.Extension
import Voms.L5Server.LogRotate
import Voms.L5Server.LogFile
import Voms.L5Server.LogMessage
import Voms.Core.Interleave
import Voms.L5Server.LogProcs
import Voms.L4Api.Provenance
import Voms.L5Server.Delivery
import Voms.L3Trust.Descent
import Voms.L4Api.Delegation
import Voms.L3Trust.ProxyFile
import Voms.L6Tools.ClientRun
import Voms.L6Tools.KnownServers
