import ReadPlan.Text.Quoted
import ReadPlan.Json.Reader
import ReadPlan.Json.Printer
import ReadPlan.Json.Decode
import ReadPlan.Toml.Document
import ReadPlan.Operator
import ReadPlan.Error
import ReadPlan.Catalog.Document
import ReadPlan.Catalog.File
import ReadPlan.Request.Document
import ReadPlan.Filter.Document
import ReadPlan.Join.Register
import ReadPlan.Predicate.OfFilter
import ReadPlan.Predicate.OfHaving
import ReadPlan.Plan.OfRequest
import ReadPlan.Plan.Document
import ReadPlan.Sql.Statement
import ReadPlan.Sql.OfPlan
import ReadPlan.Schema.Tree
import ReadPlan.Schema.FieldPaths
import ReadPlan.Service.Records
import ReadPlan.Settings.Basic
import ReadPlan.CommandLine.Run
import ReadPlan.Main
import ReadPlan.Proofs.FilterTruth
import ReadPlan.Proofs.BooleanReading
import ReadPlan.Proofs.RenderedTokens
import ReadPlan.Proofs.BooleanText
import ReadPlan.Proofs.JoinForest
import ReadPlan.Proofs.PlanJoins
import ReadPlan.Proofs.PathSpellings
import ReadPlan.Proofs.KeyOrderPlans
import ReadPlan.Proofs.FilterOperands
import ReadPlan.Proofs.PredicateLeaves
import ReadPlan.Proofs.LooseParts
import ReadPlan.Proofs.OperatorExpr
import ReadPlan.Proofs.MachineNumbers
import ReadPlan.Proofs.PlanRendering
import ReadPlan.Proofs.Lexer
import ReadPlan.Proofs.LexerRuns
import ReadPlan.Proofs.NumberText
import ReadPlan.Proofs.TokenText
import ReadPlan.Proofs.StatementText
import ReadPlan.Proofs.JoinChains
import ReadPlan.Proofs.RelationAliases
import ReadPlan.Proofs.Mentions
import ReadPlan.Proofs.JoinCalls
import ReadPlan.Proofs.BoundColumns
import ReadPlan.Proofs.StatementScope
import ReadPlan.Proofs.FilterPrinting
import ReadPlan.Proofs.FilterReading
import ReadPlan.Proofs.FilterRoundTrip
import ReadPlan.Proofs.Grouping
import ReadPlan.Proofs.FragmentPolicy
import ReadPlan.Proofs.JoinShape
import ReadPlan.Proofs.ReferencePositions
import ReadPlan.Proofs.PartnerRows
import ReadPlan.Proofs.DottedNames
import ReadPlan.Proofs.CatalogAnswers
import ReadPlan.Proofs.UsableFields
import ReadPlan.Proofs.SchemaTrees
import ReadPlan.Proofs.PageClauses
import ReadPlan.Proofs.OutputNames
import ReadPlan.Proofs.WholeReads
import ReadPlan.Proofs.CorrelatedExists
import ReadPlan.Proofs.LikeConditions
import ReadPlan.Proofs.RequestText
import ReadPlan.Proofs.HavingKeys
import ReadPlan.Proofs.GlobalSearch
import ReadPlan.Proofs.KeptConditions
import ReadPlan.Proofs.ReturnedColumns
import ReadPlan.Proofs.LikePatterns
import ReadPlan.Proofs.AddedConditions
import ReadPlan.Proofs.WrittenValues
import ReadPlan.Proofs.IntegerLiterals
import ReadPlan.Proofs.NullOperands
import ReadPlan.Proofs.VariableExpansion
import ReadPlan.Proofs.CatalogDocuments
import ReadPlan.Proofs.GroupedColumns
import ReadPlan.Proofs.RegexPatterns
import ReadPlan.Proofs.LoweredMatches
import ReadPlan.Proofs.CatalogOrder
import ReadPlan.Proofs.CatalogDefaults
