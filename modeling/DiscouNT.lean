import DiscouNT.Advapi.Paths
import DiscouNT.Advapi.ServiceRuns
import DiscouNT.Advapi.Sizes
import DiscouNT.Advapi.Values
import DiscouNT.Cdfs.AtapiRead
import DiscouNT.Csrss.Launch
import DiscouNT.Csrss.Locked
import DiscouNT.Fat.Accesses
import DiscouNT.Fat.Names
import DiscouNT.Fb.Clip
import DiscouNT.Fb.ResolutionRuns
import DiscouNT.Fb.TtfGlyph
import DiscouNT.Fb.TtfSafe
import DiscouNT.Gdi32.BitBlt
import DiscouNT.Gdi32.Bmp
import DiscouNT.Gdi32.Line
import DiscouNT.Gdi32.SavedDc
import DiscouNT.Io.DriverRuns
import DiscouNT.Io.ServiceOrder
import DiscouNT.Io.TransportOrder
import DiscouNT.Ke.Invoke
import DiscouNT.Ke.SyncSafety
import DiscouNT.Ke.ThreadRuns
import DiscouNT.Kernel32.CodePage
import DiscouNT.Kernel32.CreateFile
import DiscouNT.Kernel32.Printf
import DiscouNT.Kernel32.ReadCursor
import DiscouNT.Kernel32.StringOrder
import DiscouNT.Lib.Line
import DiscouNT.Lib.Picture
import DiscouNT.Loader.BaseReloc
import DiscouNT.Loader.DllNesting
import DiscouNT.Loader.DllOnce
import DiscouNT.Loader.ExportSearch
import DiscouNT.Loader.RelaApplied
import DiscouNT.Loader.SymbolSearch
import DiscouNT.Mm.Alignment
import DiscouNT.Mm.BootMap
import DiscouNT.Mm.Guarantee
import DiscouNT.Mm.MmioRuns
import DiscouNT.Mm.PmmSearch
import DiscouNT.Net.Checksum
import DiscouNT.Net.DhcpRuns
import DiscouNT.Net.IpText
import DiscouNT.Net.ResolveQuery
import DiscouNT.Net.Response
import DiscouNT.Net.Rtl
import DiscouNT.Rtl.CountedString
import DiscouNT.Rtl.Meaning
import DiscouNT.Rtl.PathOutput
import DiscouNT.User32.Delivery
import DiscouNT.User32.EditSound
import DiscouNT.User32.TreeRows
import DiscouNT.User32.WindowRuns
import DiscouNT.Util.Divide
import DiscouNT.Util.Move
import DiscouNT.Wdf.Queues
import DiscouNT.Wdf.WdmRuns
import DiscouNT.Win32k.Classes
import DiscouNT.Win32k.Destruction
import DiscouNT.Win32k.ShowState
