import TreeStore.Library.ByteFile
import TreeStore.Library.ProgramLogic
import TreeStore.Library.LinkedRecords
import TreeStore.Library.GuardedRuns
import TreeStore.Library.Assignments
import TreeStore.OSFile
import TreeStore.DataFile
import TreeStore.StorageBase
import TreeStore.StorageInner
import TreeStore.SchemaCodec
import TreeStore.Records
import TreeStore.StringRecords
import TreeStore.Layout
import TreeStore.Relocation
import TreeStore.Growth
import TreeStore.IdArray
import TreeStore.Adding
import TreeStore.Updating
import TreeStore.Initial
import TreeStore.Runs
import TreeStore.Removing
import TreeStore.Healthy
import TreeStore.ReadBack
import TreeStore.Keeping
import TreeStore.Chains
import TreeStore.Template
import TreeStore.Removal
import TreeStore.DeadIds
import TreeStore.Capacity
import TreeStore.Library.Undefined
import TreeStore.SchemaRoundTrip
import TreeStore.Creation
import TreeStore.Responses
import TreeStore.StoragePublic
import TreeStore.Inserting
import TreeStore.WellFormed
import TreeStore.UpdateSteps
import TreeStore.FailedUpdates
import TreeStore.Replacing
import TreeStore.ReplacedStrings
import TreeStore.Redirecting
import TreeStore.UpdatedFields
import TreeStore.Freeing
import TreeStore.Tuples
import TreeStore.WordUpdates
import TreeStore.StoredStrings
import TreeStore.Searching
import TreeStore.Library.Agendas
import TreeStore.RecursiveRemoval
import TreeStore.StorageQueries
import TreeStore.Comparators
import TreeStore.UnknownFields
import TreeStore.IdQueries
import TreeStore.Commands
import TreeStore.Numerals
import TreeStore.FindCommand
import TreeStore.Library.Pieces
import TreeStore.InsertCommand
import TreeStore.FrontEnds
import TreeStore.Client
import TreeStore.Messages
import TreeStore.Grammar
import TreeStore.Spelling
import TreeStore.Rejections
import TreeStore.Sessions
import TreeStore.NumberFields
import TreeStore.Literals
import TreeStore.FilterScans
import TreeStore.Library.Clauses
import TreeStore.Constraints
import TreeStore.Handler
import TreeStore.Buffers
import TreeStore.RecordCodec
import TreeStore.Tokens
import TreeStore.Loading
import TreeStore.Library.Fallible
import TreeStore.Library.Varint
import TreeStore.Wire.Input
import TreeStore.Wire.Output
import TreeStore.Wire.Fields
import TreeStore.Wire.Messages
import TreeStore.Wire.Reading
import TreeStore.Wire.Varints
import TreeStore.Wire.Bodies
import TreeStore.Wire.Writing
import TreeStore.Wire.Kinds
import TreeStore.Wire.MessageBytes
import TreeStore.Wire.RoundTrip
import TreeStore.Wire.Received
import TreeStore.Wire.Connection
import TreeStore.Wire.Delivery
import TreeStore.Wire.ClientSessions
import TreeStore.Wire.Accepted
import TreeStore.Wire.VarintPaths
import TreeStore.Wire.Skipping
import TreeStore.Wire.ResponseStream
import TreeStore.Library.Results
import TreeStore.ResponseTexts
import TreeStore.Wire.Alike
import TreeStore.Wire.Serving
import TreeStore.Library.TracedRuns
import TreeStore.NodeLists
import TreeStore.NodeQueries
import TreeStore.ReceiveCommand
import TreeStore.Conversations
import TreeStore.NumberLists
import TreeStore.Library.Scanning
import TreeStore.Lexer
import TreeStore.Layouts
import TreeStore.Wire.ClientTexts
import TreeStore.Wire.Conversing
