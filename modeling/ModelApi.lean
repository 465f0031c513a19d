import ModelApi.Lib.Codec
import ModelApi.Lib.Stream
import ModelApi.Lib.Source
import ModelApi.Lib.Unambiguous
import ModelApi.Lib.Transition
import ModelApi.Lib.Locked
import ModelApi.Lib.Fair
import ModelApi.Lib.Updates
import ModelApi.Lib.Decimal
import ModelApi.Lib.Loop
import ModelApi.Lib.Text
import ModelApi.Lib.Pattern
import ModelApi.Lib.Utf8
import ModelApi.Lib.InString
import ModelApi.Proto.Types
import ModelApi.Proto.Bincode
import ModelApi.Proto.Framed
import ModelApi.Proto.ReadFrameAsync
import ModelApi.Proto.Strict
import ModelApi.LiteRt.PrefixKey
import ModelApi.LiteRt.Slot
import ModelApi.LiteRt.Serve
import ModelApi.LiteRt.Mutexes
import ModelApi.LiteRt.Termination
import ModelApi.LiteRt.Eviction
import ModelApi.LiteRt.Cancel
import ModelApi.LiteRt.CacheSoundness
import ModelApi.LiteRt.Selection
import ModelApi.LiteRt.Coverage
import ModelApi.LiteRt.Dialogue
import ModelApi.LiteRt.NamedSession
import ModelApi.Client.ReadFrame
import ModelApi.Client.Readers
import ModelApi.Client.Sync
import ModelApi.Client.Exclusion
import ModelApi.Client.Matching
import ModelApi.Client.Cancel
import ModelApi.Client.Streams
import ModelApi.Gemma.Json
import ModelApi.Gemma.JsonLenient
import ModelApi.Gemma.Scan
import ModelApi.Gemma.ToolFormat
import ModelApi.Gemma.LoneQuote
import ModelApi.Gemma.Rendering
import ModelApi.Gemma.StrictJson
import ModelApi.Gemma.Pass
import ModelApi.Gemma.Drift
import ModelApi.Gemma.Recovery
import ModelApi.Gemma.Normalised
import ModelApi.Gemma.Passthrough
import ModelApi.Gemma.Compact
import ModelApi.Gemma.Unquoted
import ModelApi.Gemma.BareValue
import ModelApi.Gemma.BareMembers
import ModelApi.Gemma.Structural
import ModelApi.Gemma.UnEscape
import ModelApi.Gemma.Idempotence
import ModelApi.Gemma.DataQuotes
import ModelApi.Gemma.OverEscaped
import ModelApi.Gemma.Controls
import ModelApi.Gemma.Keys
import ModelApi.Server.Handler
import ModelApi.Server.Trace
import ModelApi.Server.Streaming
import ModelApi.Server.Gating
import ModelApi.Server.Slots
import ModelApi.Server.Boundaries
import ModelApi.Server.ToolText
import ModelApi.Server.Extraction
import ModelApi.Server.Segments
import ModelApi.Server.WireArguments
import ModelApi.Llama.Session
import ModelApi.Llama.Prefill
import ModelApi.Llama.Slot
import ModelApi.Llama.Isolation
import ModelApi.Llama.Concurrent
import ModelApi.Llama.Budget
import ModelApi.Llama.Serve
import ModelApi.Llama.Prompt
import ModelApi.Llama.PrefixCache
import ModelApi.Llama.Chat
import ModelApi.LiteRt.Stream
import ModelApi.Server.Backends
import ModelApi.Link.Record
import ModelApi.Link.Basic
import ModelApi.Link.Wire
import ModelApi.Link.Session
import ModelApi.Link.Invariant
import ModelApi.Link.Run
import ModelApi.Link.Delivery
import ModelApi.Link.CutOff
import ModelApi.Link.Smooth
import ModelApi.Link.Progress
import ModelApi.Server.Cli
import ModelApi.Node.Request
import ModelApi.Node.Settled
