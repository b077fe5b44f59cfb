import JustKV.Cli.BenchData
import JustKV.Cli.BuildRefinement
import JustKV.Cli.Healthcheck
import JustKV.Cli.PackOptions
import JustKV.Cli.PackRuns
import JustKV.Cli.Printed
import JustKV.Cli.ProbeReply
import JustKV.Cli.Serve
import JustKV.Cli.ServeDuringBuilds
import JustKV.Store.CsvText
import JustKV.Store.LineNumbers
import JustKV.Store.LoopInvariant
import JustKV.Store.RowOrder
import JustKV.Store.UnclosedQuote
import JustKV.Server.Accept
import JustKV.Server.ExpositionText
import JustKV.Server.Forms
import JustKV.Server.Scrapes
import JustKV.Server.Traffic
import JustKV.Store.CompiledPrefix
