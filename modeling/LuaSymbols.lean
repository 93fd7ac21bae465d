import LuaSymbols.Frontend
import LuaSymbols.Index.Definition
import LuaSymbols.Json.Printer
import LuaSymbols.Lock
import LuaSymbols.Service
import LuaSymbols.Proofs.Disk.Location
import LuaSymbols.Proofs.Index.Fill
import LuaSymbols.Proofs.Index.Imports
import LuaSymbols.Proofs.Text.Utf8
import LuaSymbols.Proofs.Uri.Canonical
import LuaSymbols.Proofs.Index.Closure
import LuaSymbols.Proofs.Index.Moves
import LuaSymbols.Proofs.Walk.Keywords
import LuaSymbols.Proofs.Service.Run
import LuaSymbols.Proofs.Service.OpenDocuments
import LuaSymbols.Proofs.Service.Save
import LuaSymbols.Proofs.Service.Snapshot
import LuaSymbols.Proofs.Index.Order
import LuaSymbols.Proofs.Walk.Ownership
import LuaSymbols.Proofs.Service.Store
import LuaSymbols.Proofs.Service.Chronicle
import LuaSymbols.Proofs.Tree.Shape
import LuaSymbols.Proofs.Walk.Steps
import LuaSymbols.Proofs.Walk.Coverage
import LuaSymbols.Proofs.Walk.Cursor
import LuaSymbols.Proofs.Uri.Spelling
import LuaSymbols.Proofs.Service.PathKeys
import LuaSymbols.Proofs.Service.Failure
import LuaSymbols.Proofs.Index.Frame
import LuaSymbols.Proofs.Service.AppendOnly
import LuaSymbols.Proofs.Lock.Books
import LuaSymbols.Proofs.Service.Refusal
import LuaSymbols.Proofs.Service.Reindex
import LuaSymbols.Proofs.Walk.Members
import LuaSymbols.Proofs.Walk.Chains
import LuaSymbols.Proofs.Tree.Layout
import LuaSymbols.Proofs.Tree.Sites
import LuaSymbols.Proofs.Walk.Outline
import LuaSymbols.Proofs.Tree.Rejection
import LuaSymbols.Proofs.Index.ModuleSearch
import LuaSymbols.Proofs.Walk.Declarations
import LuaSymbols.Proofs.Service.Answers
import LuaSymbols.Proofs.Index.Confinement
import LuaSymbols.Proofs.Uri.RoundTrip
import LuaSymbols.Proofs.Index.GlobalScan
import LuaSymbols.Proofs.Config.NormalForm
import LuaSymbols.Proofs.Text.Counting
