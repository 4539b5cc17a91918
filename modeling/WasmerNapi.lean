import WasmerNapi.Lib.Word
import WasmerNapi.Lib.Vec
import WasmerNapi.Lib.Run
import WasmerNapi.Lib.Tally
import WasmerNapi.Budget.Basic
import WasmerNapi.Budget.Atomic
import WasmerNapi.Budget.Isolate
import WasmerNapi.Lib.Table
import WasmerNapi.Env.Basic
import WasmerNapi.Env.Isolates
import WasmerNapi.Env.Registry
import WasmerNapi.Env.Stop
import WasmerNapi.Budget.Memory
import WasmerNapi.Budget.External
import WasmerNapi.Budget.Handles
import WasmerNapi.Lib.Span
import WasmerNapi.GuestHeap.Basic
import WasmerNapi.GuestHeap.Invariant
import WasmerNapi.GuestHeap.Runs
import WasmerNapi.Lib.Bins
import WasmerNapi.GuestHeap.Refill
import WasmerNapi.GuestHeap.Charge
import WasmerNapi.Bridge.Basic
import WasmerNapi.Bridge.Ids
import WasmerNapi.Bridge.Leases
import WasmerNapi.Bridge.Message
import WasmerNapi.Bridge.Contexts
import WasmerNapi.Agent.Values
import WasmerNapi.Agent.Scopes
import WasmerNapi.Agent.Stale
import WasmerNapi.Agent.Calls
import WasmerNapi.Agent.Entries
import WasmerNapi.Lib.Ring
import WasmerNapi.Lib.Bytes
import WasmerNapi.Lib.Objects
import WasmerNapi.Lib.Text
import WasmerNapi.Lib.Utf8
import WasmerNapi.Guest.Strings
import WasmerNapi.Lib.Fallible
import WasmerNapi.Lib.Scoped
import WasmerNapi.Guest.Compat
import WasmerNapi.Guest.Realms
import WasmerNapi.Guest.FirstExit
import WasmerNapi.Allocator.Basic
import WasmerNapi.Allocator.Slabs
import WasmerNapi.Allocator.Refine
import WasmerNapi.Allocator.World
import WasmerNapi.Allocator.Reentrant
import WasmerNapi.Allocator.Emptied
import WasmerNapi.Bridge.Teardown
import WasmerNapi.Bridge.Terminate
import WasmerNapi.Bridge.Interrupts
import WasmerNapi.Bridge.External
import WasmerNapi.Bridge.Bigint
import WasmerNapi.Bridge.Callbacks
import WasmerNapi.Quickjs.Hints
import WasmerNapi.Quickjs.Owners
import WasmerNapi.Quickjs.Lifecycle
import WasmerNapi.Quickjs.Properties
import WasmerNapi.Quickjs.AddFinalizer
import WasmerNapi.Quickjs.Serdes
import WasmerNapi.Quickjs.NodeUtf8
import WasmerNapi.Quickjs.BigintWords
import WasmerNapi.Quickjs.ModuleLink
import WasmerNapi.Quickjs.Functions
import WasmerNapi.Quickjs.CallbackScopes
import WasmerNapi.Quickjs.References
import WasmerNapi.Quickjs.PropertyNames
import WasmerNapi.Quickjs.TypeTags
import WasmerNapi.Quickjs.Interrupts
import WasmerNapi.Quickjs.Wraps
import WasmerNapi.Quickjs.PromiseFrames
import WasmerNapi.Quickjs.AgentValues
import WasmerNapi.Quickjs.Bytecode
import WasmerNapi.Quickjs.Contextify
import WasmerNapi.Quickjs.ModuleRecords
import WasmerNapi.Quickjs.ModuleCells
import WasmerNapi.Quickjs.ModuleLifetime
import WasmerNapi.V8.Isolates
import WasmerNapi.V8.TaskRunner
import WasmerNapi.HostJs.Handles
import WasmerNapi.HostJs.Scopes
import WasmerNapi.HostJs.Callbacks
import WasmerNapi.HostJs.FinalizersOnce
import WasmerNapi.HostJs.SerdesAgree
import WasmerNapi.HostJs.Buffers
import WasmerNapi.HostJs.BufferPointers
import WasmerNapi.GuestHeap.HostRange
import WasmerNapi.Guest.Memory
import WasmerNapi.Guest.CStrings
import WasmerNapi.Guest.DataPointers
import WasmerNapi.Bridge.BigintExport
import WasmerNapi.Bridge.Accessors
import WasmerNapi.HostJs.BufferPool
import WasmerNapi.Guest.StringExport
import WasmerNapi.Guest.ViewCache
import WasmerNapi.V8.JobLimit
import WasmerNapi.HostJs.LazyNames
import WasmerNapi.HostJs.LazyProperties
import WasmerNapi.Lib.LinkedList
import WasmerNapi.HostJs.FinalizerQueues
import WasmerNapi.Lib.Splice
import WasmerNapi.HostJs.DynamicImports
import WasmerNapi.HostJs.Modules
import WasmerNapi.HostJs.ModuleRefusals
import WasmerNapi.HostJs.ModuleWaits
import WasmerNapi.HostJs.MessageIds
import WasmerNapi.Guest.CallbackCache
import WasmerNapi.HostJs.Escapes
import WasmerNapi.Lib.Ranked
import WasmerNapi.V8.CleanupHooks
import WasmerNapi.HostJs.References
import WasmerNapi.HostJs.PropertyNames
import WasmerNapi.Lib.Double
import WasmerNapi.HostJs.ArrayIndex
import WasmerNapi.Quickjs.BigintFits
import WasmerNapi.Quickjs.StringExport
import WasmerNapi.Lib.Nesting
import WasmerNapi.HostJs.RealmStack
