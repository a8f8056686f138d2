import CatalogQuery.Access.Policy
import CatalogQuery.Access.RowChecker
import CatalogQuery.Access.RowFilter
import CatalogQuery.Catalog.Aggregate
import CatalogQuery.Catalog.Answer
import CatalogQuery.Catalog.Basic
import CatalogQuery.Catalog.Database
import CatalogQuery.Catalog.Demo
import CatalogQuery.Catalog.Document
import CatalogQuery.Catalog.Evaluate
import CatalogQuery.Catalog.Names
import CatalogQuery.Catalog.Rows
import CatalogQuery.Catalog.Scope
import CatalogQuery.Catalog.Seeder
import CatalogQuery.Catalog.Store
import CatalogQuery.Catalog.Value
import CatalogQuery.Cli.Arguments
import CatalogQuery.Cli.Files
import CatalogQuery.Cli.Report
import CatalogQuery.Cli.Run
import CatalogQuery.Compile.Attribute
import CatalogQuery.Compile.Draft
import CatalogQuery.Compile.Statement
import CatalogQuery.Condition.Basic
import CatalogQuery.Condition.Grammar
import CatalogQuery.Condition.Render
import CatalogQuery.Config.Basic
import CatalogQuery.Config.Document
import CatalogQuery.Config.Format
import CatalogQuery.Data.Basic
import CatalogQuery.Data.Decode
import CatalogQuery.Error
import CatalogQuery.Identifier
import CatalogQuery.Join.Marking
import CatalogQuery.Join.Requirements
import CatalogQuery.Join.Tree
import CatalogQuery.Json.Printer
import CatalogQuery.Json.Reader
import CatalogQuery.Main
import CatalogQuery.Number.Binary
import CatalogQuery.Number.Numeral
import CatalogQuery.Number.Shortest
import CatalogQuery.Number.Word
import CatalogQuery.Page.Basic
import CatalogQuery.Page.Buffer
import CatalogQuery.Proofs.Catalog.Answers
import CatalogQuery.Proofs.Catalog.AttributeAnswers
import CatalogQuery.Proofs.Catalog.GrantChecks
import CatalogQuery.Proofs.Catalog.GrantRoutes
import CatalogQuery.Proofs.Catalog.SeedSteps
import CatalogQuery.Proofs.Catalog.SeededGrants
import CatalogQuery.Proofs.Catalog.SelectedRows
import CatalogQuery.Proofs.Catalog.StoreAccount
import CatalogQuery.Proofs.Cli.Gather
import CatalogQuery.Proofs.Compile.AddedInstances
import CatalogQuery.Proofs.Compile.AppliedOffsets
import CatalogQuery.Proofs.Compile.AttributeSearch
import CatalogQuery.Proofs.Compile.AttributeSelection
import CatalogQuery.Proofs.Compile.AttributeSlots
import CatalogQuery.Proofs.Compile.BindOrder
import CatalogQuery.Proofs.Compile.BuiltConditions
import CatalogQuery.Proofs.Compile.BuiltOrders
import CatalogQuery.Proofs.Compile.Compiles
import CatalogQuery.Proofs.Compile.Decision
import CatalogQuery.Proofs.Compile.InstanceNames
import CatalogQuery.Proofs.Compile.Literals
import CatalogQuery.Proofs.Compile.LookUps
import CatalogQuery.Proofs.Compile.Masking
import CatalogQuery.Proofs.Compile.OffsetStatements
import CatalogQuery.Proofs.Compile.OrderAndGroups
import CatalogQuery.Proofs.Compile.Parts
import CatalogQuery.Proofs.Compile.RequiredTables
import CatalogQuery.Proofs.Compile.RowFilters
import CatalogQuery.Proofs.Compile.StatementTexts
import CatalogQuery.Proofs.Compile.UniqueJoins
import CatalogQuery.Proofs.Compile.Unlimited
import CatalogQuery.Proofs.Compile.WhereTerms
import CatalogQuery.Proofs.Condition.OperatorTexts
import CatalogQuery.Proofs.Condition.QuotedLiterals
import CatalogQuery.Proofs.Condition.SimpleGrammar
import CatalogQuery.Proofs.Condition.WrittenConditions
import CatalogQuery.Proofs.Fallible
import CatalogQuery.Proofs.FirstMentions
import CatalogQuery.Proofs.Join.ConnectingLinks
import CatalogQuery.Proofs.Join.JoinClauses
import CatalogQuery.Proofs.Join.JoinPaths
import CatalogQuery.Proofs.Join.JoinTree
import CatalogQuery.Proofs.Join.LinkTree
import CatalogQuery.Proofs.Join.MarkedSearch
import CatalogQuery.Proofs.Join.MissingTables
import CatalogQuery.Proofs.Join.Reachable
import CatalogQuery.Proofs.Join.SearchReach
import CatalogQuery.Proofs.Page.ReadBack
import CatalogQuery.Proofs.Page.RefusedRows
import CatalogQuery.Proofs.Page.Slots
import CatalogQuery.Proofs.Request.BuilderCalls
import CatalogQuery.Proofs.Schema.Consistency
import CatalogQuery.Proofs.Schema.Conventions
import CatalogQuery.Proofs.Schema.Forest
import CatalogQuery.Proofs.Schema.LinkGraph
import CatalogQuery.Proofs.Schema.Registration
import CatalogQuery.Proofs.Schema.RoundTrip
import CatalogQuery.Proofs.Schema.SimplePaths
import CatalogQuery.Proofs.Schema.StoreCalls
import CatalogQuery.Proofs.Session.Account
import CatalogQuery.Proofs.Session.AskingCursor
import CatalogQuery.Proofs.Session.Delivery
import CatalogQuery.Proofs.Session.OpenStatements
import CatalogQuery.Proofs.Session.Paging
import CatalogQuery.Proofs.Session.PermittedRows
import CatalogQuery.Proofs.Session.Runs
import CatalogQuery.Proofs.Session.SchemaInForce
import CatalogQuery.Proofs.Session.ScriptAccount
import CatalogQuery.Proofs.Session.Step
import CatalogQuery.Proofs.Session.Tokens
import CatalogQuery.Proofs.Session.TotalCount
import CatalogQuery.Proofs.Session.WholeRequest
import CatalogQuery.Proofs.SideBySide
import CatalogQuery.Proofs.Sql.ComparisonQueries
import CatalogQuery.Proofs.Sql.Enclosing
import CatalogQuery.Proofs.Sql.Pieces
import CatalogQuery.Proofs.Sql.Precedence
import CatalogQuery.Proofs.Sql.Sections
import CatalogQuery.Proofs.Sql.Selections
import CatalogQuery.Proofs.Sql.Spelling
import CatalogQuery.Proofs.Sql.Standing
import CatalogQuery.Proofs.Text.Cuts
import CatalogQuery.Request.Basic
import CatalogQuery.Request.Builder
import CatalogQuery.Request.Format
import CatalogQuery.Request.Level
import CatalogQuery.Schema.Basic
import CatalogQuery.Schema.Conventions
import CatalogQuery.Schema.Cycle
import CatalogQuery.Schema.Definition
import CatalogQuery.Schema.Document
import CatalogQuery.Schema.Format
import CatalogQuery.Schema.Registry
import CatalogQuery.Schema.Standard
import CatalogQuery.Schema.Store
import CatalogQuery.Session.Backend
import CatalogQuery.Session.Cursor
import CatalogQuery.Session.Engine
import CatalogQuery.Session.Execute
import CatalogQuery.Session.Script
import CatalogQuery.Session.Service
import CatalogQuery.Sql.Clauses
import CatalogQuery.Sql.Dialect
import CatalogQuery.Sql.Fault
import CatalogQuery.Sql.Fragment
import CatalogQuery.Sql.Query
import CatalogQuery.Sql.Reader
import CatalogQuery.Sql.Token
import CatalogQuery.Text.Blank
import CatalogQuery.Text.Csv
import CatalogQuery.Text.Cut
import CatalogQuery.Toml.Printer
import CatalogQuery.Toml.Reader
import CatalogQuery.Toml.Scalar
import CatalogQuery.Toml.Table
import CatalogQuery.Toml.Token
