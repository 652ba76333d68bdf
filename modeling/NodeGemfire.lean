import NodeGemfire.Lib.TransitionSystem
import NodeGemfire.Lib.Channel
import NodeGemfire.Lib.Double
import NodeGemfire.Lib.Unicode
import NodeGemfire.Values.JsValue
import NodeGemfire.Conversions.Leaves
import NodeGemfire.Conversions.ToGemfire
import NodeGemfire.Conversions.FromGemfire
import NodeGemfire.Lib.PrefixCode
import NodeGemfire.Conversions.ClassName
import NodeGemfire.Lib.Transcoding
import NodeGemfire.Conversions.Strings
import NodeGemfire.Conversions.Dates
import NodeGemfire.Conversions.Integers
import NodeGemfire.Conversions.Serializable
import NodeGemfire.Conversions.RoundTrip
import NodeGemfire.Lib.Descent
import NodeGemfire.Lib.MapM
import NodeGemfire.Conversions.Graphs
import NodeGemfire.Region.Methods
import NodeGemfire.Region.Refinement
import NodeGemfire.Region.Reports
import NodeGemfire.Region.Agreement
import NodeGemfire.Region.Validation
import NodeGemfire.Region.BatchReads
import NodeGemfire.Region.ClearWorkers
import NodeGemfire.Functions.Execute
import NodeGemfire.Functions.Effects
import NodeGemfire.Functions.Synchronous
import NodeGemfire.Functions.ResultStream
import NodeGemfire.Functions.Teardown
import NodeGemfire.Functions.Delivery
import NodeGemfire.Functions.Failure
import NodeGemfire.Lib.Mailbox
import NodeGemfire.Functions.Waiting
import NodeGemfire.Lib.OrderedSet
import NodeGemfire.Events.RegionEventRegistry
import NodeGemfire.Events.Outlook
import NodeGemfire.Events.Dispatch
import NodeGemfire.Events.Registrations
import NodeGemfire.Events.EventStream
import NodeGemfire.Cache.Binding
import NodeGemfire.Cache.CacheFactory
import NodeGemfire.Cache.Builders
import NodeGemfire.Cache.Query
import NodeGemfire.Cache.QueryForms
import NodeGemfire.Lib.Program
import NodeGemfire.Lib.Linearizable
import NodeGemfire.Lib.WorkQueue
import NodeGemfire.Region.Programs
import NodeGemfire.Region.Listings
import NodeGemfire.Region.Threads
import NodeGemfire.Region.Store
import NodeGemfire.Functions.Progress
import NodeGemfire.Events.Publishing
import NodeGemfire.Events.EventLoop
import NodeGemfire.Conversions.Restore
import NodeGemfire.Region.Lifetimes
import NodeGemfire.Cache.Regions
import NodeGemfire.Cache.Lifetimes
import NodeGemfire.Events.Listening
import NodeGemfire.Events.Mirror
import NodeGemfire.Conversions.Sharing
