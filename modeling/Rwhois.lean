import Rwhois.RustStd.Exec
import Rwhois.RustStd.Loop
import Rwhois.RustStd.Sync
import Rwhois.RustStd.Str
import Rwhois.RustStd.Pattern
import Rwhois.RustStd.Num
import Rwhois.RustStd.Lines
import Rwhois.Error
import Rwhois.Codec
import Rwhois.Codec.Stream
import Rwhois.Codec.RoundTrip
import Rwhois.CStd
import Rwhois.Reference.StrUtil
import Rwhois.Codec.CleanUp
import Rwhois.Query
import Rwhois.Query.Cursor
import Rwhois.Query.Grammar
import Rwhois.Query.Spine
import Rwhois.Query.Print
import Rwhois.Query.Lifting
import Rwhois.Query.Progress
import Rwhois.Wire.Request
import Rwhois.Wire.Response
import Rwhois.Wire.Banner
import Rwhois.Wire.Greeting
import Rwhois.Wire.Numbers
import Rwhois.Wire.RoundTrip
import Rwhois.Wire.Blocks
import Rwhois.Wire.Splitting
import Rwhois.Intake
import Rwhois.Context
import Rwhois.Directive.Builtin
import Rwhois.Directive.Effect
import Rwhois.Directive.Framing
import Rwhois.Server.Connection
import Rwhois.Server.Lookup
import Rwhois.Directive.Listing
import Rwhois.Server.Session
import Rwhois.Server.Settings
import Rwhois.Server.Framing
import Rwhois.Server.ObjectLimit
import Rwhois.Server.Reporting
import Rwhois.Server.LineWidth
import Rwhois.Server.Lifetime
import Rwhois.Server.Registration
import Rwhois.Server.Interleaving
import Rwhois.Server.AcceptLoop
import Rwhois.Server.ConnectionLimit
