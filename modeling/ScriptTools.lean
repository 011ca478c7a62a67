import ScriptTools.CommandLine.Command
import ScriptTools.Guest.Script
import ScriptTools.Main
import ScriptTools.Rpc.Server
import ScriptTools.Proofs.Executor.Returned
import ScriptTools.Proofs.Source.Statements
import ScriptTools.Proofs.Web.Redirects
import ScriptTools.Proofs.Files.Governed
import ScriptTools.Proofs.Rpc.Serving
import ScriptTools.Proofs.Store.Refinement
import ScriptTools.Proofs.Tool.RoundTrip
import ScriptTools.Proofs.Rpc.Silence
import ScriptTools.Proofs.Rpc.Identifiers
import ScriptTools.Proofs.Tool.Advertised
import ScriptTools.Proofs.Guest.Bridge.Enumeration
import ScriptTools.Proofs.Guest.Deadline.Outlived
import ScriptTools.Proofs.CommandLine.Editing
import ScriptTools.Proofs.Executor.Refused
import ScriptTools.Proofs.Executor.Omitted
import ScriptTools.Proofs.Policy.Paths
import ScriptTools.Proofs.Policy.Hosts
import ScriptTools.Proofs.Tool.Integers
import ScriptTools.Proofs.Files.NormalForm
import ScriptTools.Proofs.Files.Traces
import ScriptTools.Proofs.Files.Writing
import ScriptTools.Proofs.Guest.Bridge.Heap
import ScriptTools.Proofs.Executor.Extracted
import ScriptTools.Proofs.CommandLine.Pairs
import ScriptTools.Proofs.Config.Limits
import ScriptTools.Proofs.Guest.Bridge.Lists
import ScriptTools.Proofs.Policy.Patterns
import ScriptTools.Proofs.Guest.NumberText
import ScriptTools.Proofs.Source.Tokens
