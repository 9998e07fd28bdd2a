import Localize.Batch.Chunk
import Localize.Batch.Marker
import Localize.Batch.Remote
import Localize.Batch.Request
import Localize.Batch.Translation
import Localize.Batch.Usage
import Localize.Calendar
import Localize.Command.Arguments
import Localize.Command.Program
import Localize.Command.Session
import Localize.Command.Stores
import Localize.Command.Style
import Localize.Command.Translation
import Localize.Display.Basic
import Localize.Display.Piece
import Localize.Error
import Localize.Glossary.Basic
import Localize.Glossary.Entry
import Localize.Glossary.Placeholder
import Localize.Glossary.Protection
import Localize.Journal.Basic
import Localize.Journal.Logger
import Localize.Json.Basic
import Localize.Json.Display
import Localize.Json.Number
import Localize.Json.Printer
import Localize.Json.Reader
import Localize.Json.Shape
import Localize.Language
import Localize.Main
import Localize.Markup.Attribute
import Localize.Markup.Comment
import Localize.Markup.Entity
import Localize.Markup.Exclusion
import Localize.Markup.Extraction
import Localize.Markup.Literal
import Localize.Markup.Selector
import Localize.Markup.Tag
import Localize.Memory.Basic
import Localize.Memory.Entry
import Localize.Memory.Operations
import Localize.Memory.Sha256
import Localize.Number.Binary64
import Localize.Number.Reading
import Localize.Number.Shortest
import Localize.Order
import Localize.Pattern.Basic
import Localize.Pattern.Matching
import Localize.Pattern.Reader
import Localize.Project.Extraction
import Localize.Project.Languages
import Localize.Project.Translation
import Localize.Proofs.Batch.Accounting
import Localize.Proofs.Batch.Calls
import Localize.Proofs.Batch.ChunkSize
import Localize.Proofs.Batch.Collection
import Localize.Proofs.Batch.Coverage
import Localize.Proofs.Batch.Ending
import Localize.Proofs.Batch.Fallback
import Localize.Proofs.Batch.Isolation
import Localize.Proofs.Batch.Opening
import Localize.Proofs.Batch.Purity
import Localize.Proofs.Batch.Rejection
import Localize.Proofs.Batch.Replay
import Localize.Proofs.Batch.Reporting
import Localize.Proofs.Batch.Request
import Localize.Proofs.Batch.TokenAccounts
import Localize.Proofs.Display.Label
import Localize.Proofs.Display.LocaleFile
import Localize.Proofs.Display.Screen
import Localize.Proofs.Display.Value
import Localize.Proofs.Glossary.Acceptance
import Localize.Proofs.Glossary.Acts
import Localize.Proofs.Glossary.Atomic
import Localize.Proofs.Glossary.Exchange
import Localize.Proofs.Glossary.Found
import Localize.Proofs.Glossary.Freestanding
import Localize.Proofs.Glossary.Handover
import Localize.Proofs.Glossary.Lasting
import Localize.Proofs.Glossary.Latest
import Localize.Proofs.Glossary.Lossless
import Localize.Proofs.Glossary.Mirroring
import Localize.Proofs.Glossary.Occurrence
import Localize.Proofs.Glossary.Preparation
import Localize.Proofs.Glossary.Reading
import Localize.Proofs.Glossary.Rendering
import Localize.Proofs.Glossary.Selection
import Localize.Proofs.Glossary.Settling
import Localize.Proofs.Glossary.Shielding
import Localize.Proofs.Glossary.Token
import Localize.Proofs.Glossary.Unsaved
import Localize.Proofs.Glossary.WholeWord
import Localize.Proofs.Journal.Logger
import Localize.Proofs.Journal.Mode
import Localize.Proofs.Json.Extent
import Localize.Proofs.Json.Layout
import Localize.Proofs.Json.Numeral
import Localize.Proofs.Json.Roundtrip
import Localize.Proofs.Json.Shape
import Localize.Proofs.Json.Sound
import Localize.Proofs.Markup.Ancestry
import Localize.Proofs.Markup.Attribute
import Localize.Proofs.Markup.Backtick
import Localize.Proofs.Markup.Comment
import Localize.Proofs.Markup.Cut
import Localize.Proofs.Markup.Entity
import Localize.Proofs.Markup.Exactness
import Localize.Proofs.Markup.Expression
import Localize.Proofs.Markup.Forest
import Localize.Proofs.Markup.Identity
import Localize.Proofs.Markup.Insertion
import Localize.Proofs.Markup.NameEnds
import Localize.Proofs.Markup.Nesting
import Localize.Proofs.Markup.OwnAttributes
import Localize.Proofs.Markup.Plain
import Localize.Proofs.Markup.Selector
import Localize.Proofs.Markup.Spelling
import Localize.Proofs.Markup.Template
import Localize.Proofs.Markup.Unclosed
import Localize.Proofs.Markup.Union
import Localize.Proofs.Markup.Wholeness
import Localize.Proofs.Markup.Written
import Localize.Proofs.Memory.Acts
import Localize.Proofs.Memory.Atomic
import Localize.Proofs.Memory.Chronicle
import Localize.Proofs.Memory.Handover
import Localize.Proofs.Memory.History
import Localize.Proofs.Memory.Lasting
import Localize.Proofs.Memory.Loss
import Localize.Proofs.Memory.Recall
import Localize.Proofs.Memory.Reloading
import Localize.Proofs.Memory.Saving
import Localize.Proofs.Memory.Separation
import Localize.Proofs.Memory.Storing
import Localize.Proofs.Number.Rounding
import Localize.Proofs.Number.Shortest
import Localize.Proofs.Outcome
import Localize.Proofs.Project.Completeness
import Localize.Proofs.Project.Damage
import Localize.Proofs.Project.Extraction
import Localize.Proofs.Project.Importing
import Localize.Proofs.Project.Independence
import Localize.Proofs.Project.Loading
import Localize.Proofs.Project.Plan
import Localize.Proofs.Project.Rejection
import Localize.Proofs.Project.Stores
import Localize.Proofs.Provider.Attempts
import Localize.Proofs.Provider.Braces
import Localize.Proofs.Provider.Model
import Localize.Proofs.Provider.Recovery
import Localize.Proofs.Provider.Refusal
import Localize.Proofs.Provider.Reply
import Localize.Proofs.Provider.Retrying
import Localize.Proofs.Provider.Tokens
import Localize.Proofs.Settings.File
import Localize.Proofs.Settings.Overlay
import Localize.Proofs.Source.Folder
import Localize.Proofs.Source.Listing
import Localize.Proofs.Source.Locale
import Localize.Proofs.Table
import Localize.Proofs.Text.Basic
import Localize.Proofs.Text.Blank
import Localize.Proofs.Text.Case
import Localize.Proofs.Text.Erasing
import Localize.Proofs.Text.Order
import Localize.Proofs.Text.Search
import Localize.Proofs.Volume.Atomic
import Localize.Proofs.Volume.Content
import Localize.Proofs.Volume.Tree
import Localize.Proofs.Volume.Writing
import Localize.Provider.Exchange
import Localize.Provider.Prompt
import Localize.Provider.Reply
import Localize.Provider.Retry
import Localize.Provider.Service
import Localize.Settings.Basic
import Localize.Settings.File
import Localize.Settings.Key
import Localize.Skip
import Localize.Source.Folder
import Localize.Source.Locale
import Localize.Source.Page
import Localize.Source.Strings
import Localize.Table
import Localize.Text.Basic
import Localize.Text.Blank
import Localize.Text.Case
import Localize.Text.CaseTable
import Localize.Text.Literal
import Localize.Text.PrintableTable
import Localize.Text.Search
import Localize.Text.Slice
import Localize.Text.Word
import Localize.Text.WordTable
import Localize.Volume.Basic
import Localize.Volume.Document
import Localize.Volume.Listing
import Localize.Volume.Path
import Localize.Volume.Tree
