import Olap.Aggregation
import Olap.Browser
import Olap.Cell
import Olap.Check
import Olap.Coerce
import Olap.Compile
import Olap.Config
import Olap.Cut
import Olap.Datum
import Olap.Decimal.Nearest
import Olap.Decimal.Notation
import Olap.Decimal.Shortest
import Olap.Error
import Olap.Files
import Olap.Formula
import Olap.Ini.Basic
import Olap.Ini.Template
import Olap.Ini.Text
import Olap.Json
import Olap.Metadata.Basic
import Olap.Metadata.Cube
import Olap.Metadata.Described
import Olap.Metadata.Load
import Olap.Metadata.Model
import Olap.Metadata.Navigate
import Olap.Number
import Olap.Options.Basic
import Olap.Options.Described
import Olap.Part
import Olap.Problem
import Olap.Query
import Olap.Query.Record
import Olap.Slice
import Olap.Sql.Fetch
import Olap.Sql.Piece
import Olap.Sql.Store
import Olap.Sql.Text
import Olap.Store.Basic
import Olap.Table
import Olap.Text.Beside
import Olap.Text.Case
import Olap.Text.Class
import Olap.Text.Quoted
import Olap.Text.Similar
import Olap.Workspace
import Olap.Proofs.Session
import Olap.Proofs.Summaries
import Olap.Proofs.Family
import Olap.Proofs.Groups
import Olap.Proofs.Answers
import Olap.Proofs.Accepted
import Olap.Proofs.Compiled
import Olap.Proofs.Statements
import Olap.Proofs.Rows
import Olap.Proofs.Wholes
import Olap.Proofs.Aggregating
import Olap.Proofs.DrillDown
import Olap.Proofs.Remainder
import Olap.Proofs.Selections
import Olap.Proofs.Levels
import Olap.Proofs.Points
import Olap.Proofs.Paths
import Olap.Proofs.Members
import Olap.Proofs.Listings
import Olap.Proofs.Ranking
import Olap.Proofs.Limits
import Olap.Proofs.Confinement
import Olap.Proofs.FactLists
import Olap.Proofs.Drafts
import Olap.Proofs.Fields
import Olap.Proofs.Changes
import Olap.Proofs.Registry
import Olap.Proofs.Written
import Olap.Proofs.Settled
import Olap.Proofs.Rereading
import Olap.Proofs.CubeRecords
import Olap.Proofs.RoundTrip
import Olap.Proofs.Sound
import Olap.Proofs.Questions
import Olap.Proofs.Restrictions
import Olap.Proofs.Renderings
import Olap.Proofs.Names
import Olap.Proofs.Orders
import Olap.Proofs.Tokens
import Olap.Proofs.Layout
import Olap.Proofs.Placeholders
import Olap.Proofs.Literals
import Olap.Proofs.Arrangements
import Olap.Proofs.Pages
import Olap.Proofs.ListedPages
import Olap.Proofs.References
import Olap.Proofs.GroupOrders
import Olap.Proofs.TableRows
import Olap.Proofs.RowPaths
import Olap.Proofs.Cuts
import Olap.Proofs.Failures
import Olap.Proofs.Hierarchies
import Olap.Proofs.Depths
import Olap.Proofs.Resolutions
import Olap.Proofs.Consistency
import Olap.Proofs.Overrides
import Olap.Proofs.Replays
import Olap.Proofs.Refusals
import Olap.Proofs.Requests
import Olap.Proofs.ComputedFields
import Olap.Proofs.Batches
import Olap.Proofs.Escapes
import Olap.Proofs.Details
import Olap.Proofs.Exchanges
import Olap.Proofs.Surfacing
import Olap.Proofs.Creations
import Olap.Proofs.Templates
import Olap.Proofs.Documents
import Olap.Proofs.Configurations
import Olap.Proofs.Handouts
import Olap.Proofs.Doubles
import Olap.Proofs.Decimals
import Olap.Proofs.DecimalTexts
import Olap.Proofs.Settings
import Olap.Proofs.Sections
import Olap.Proofs.ConfigDocuments
import Olap.Proofs.Labels
import Olap.Proofs.RowKeys
import Olap.Proofs.Choices
