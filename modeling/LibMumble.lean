import LibMumble.ByteArray
import LibMumble.ByteArray.Operations
import LibMumble.ByteArray.Pointers
import LibMumble.ByteArray.Safety
import LibMumble.ByteArray.Slice
import LibMumble.ByteArray.Values
import LibMumble.Error
import LibMumble.Lib.Ascii
import LibMumble.Lib.History
import LibMumble.Lib.Keyed
import LibMumble.Lib.Latin1
import LibMumble.Lib.Ownership
import LibMumble.Lib.Refinement
import LibMumble.Lib.Run
import LibMumble.Lib.SortedSet
import LibMumble.Lib.Stream
import LibMumble.Lib.Utf8
import LibMumble.Lib.Varint
import LibMumble.Lib.Wildcard
import LibMumble.MumbleProto.Mumble
import LibMumble.TLSConnection.Closing
import LibMumble.TLSConnection.Ending
import LibMumble.TLSConnection.Frame
import LibMumble.TLSConnection.Machine
import LibMumble.TLSConnection.Order
import LibMumble.TLSConnection.Protocol
import LibMumble.TLSConnection.Reconnect
import LibMumble.TLSConnection.RemoteClose
import LibMumble.TLSConnection.Requests
import LibMumble.TLSConnection.Retry
import LibMumble.TLSConnection.Rules
import LibMumble.TLSConnection.Segmentation
import LibMumble.TLSConnection.Setup
import LibMumble.TLSConnection.Shutdown
import LibMumble.TLSConnection.Terminal
import LibMumble.TLSConnection.TrustGate
import LibMumble.TLSConnection.Wakeup
import LibMumble.TLSConnection.World
import LibMumble.TLSConnection.WriteQueue
import LibMumble.UVBio
import LibMumble.UVBio.Flags
import LibMumble.UVBio.Pointers
import LibMumble.UVBio.Wire
import LibMumble.X509.AndroidRoots
import LibMumble.X509.Certificate
import LibMumble.X509.CertificateFiles
import LibMumble.X509.DateTime
import LibMumble.X509.Generate
import LibMumble.X509.Hostname
import LibMumble.X509.HostnameExpr
import LibMumble.X509.Identity
import LibMumble.X509.NameLookup
import LibMumble.X509.NullCertificates
import LibMumble.X509.Ownership
import LibMumble.X509.PEMStore
import LibMumble.X509.PEMVerifier
import LibMumble.X509.PKCS12
import LibMumble.X509.PKCS12Import
import LibMumble.X509.PKCS12Ownership
import LibMumble.X509.Strptime
import LibMumble.X509.SystemVerifier
import LibMumble.X509.Time
import LibMumble.X509.TimeOrder
import LibMumble.X509.UnixRoots
import LibMumble.X509.Validity
