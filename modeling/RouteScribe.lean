import RouteScribe.Docs.Service
import RouteScribe.Main
import RouteScribe.Numeral.Basic
import RouteScribe.Proofs.Document.KeyText
import RouteScribe.Proofs.Schema.StructuralKey
import RouteScribe.Proofs.Schema.Meaning
import RouteScribe.Proofs.Typing.Runs
import RouteScribe.Proofs.Typing.Graph
import RouteScribe.Proofs.Typing.Inhabitants
import RouteScribe.Proofs.Route.Inquiry
import RouteScribe.Proofs.Route.Termination
import RouteScribe.Proofs.Route.Divergence
import RouteScribe.Proofs.Route.History
import RouteScribe.Proofs.Document.Grouping
import RouteScribe.Proofs.Document.PathParameters
import RouteScribe.Proofs.Source.Numbers
import RouteScribe.Proofs.Source.Legible
import RouteScribe.Proofs.Source.LegibleExpressions
import RouteScribe.Proofs.Source.LegiblePrograms
import RouteScribe.Proofs.Typing.Sound
import RouteScribe.Proofs.Route.Failures
import RouteScribe.Proofs.Typing.Derived
import RouteScribe.Proofs.Schema.Deduplication
import RouteScribe.Proofs.Typing.ReadBack
import RouteScribe.Proofs.Schema.WellFormed
import RouteScribe.Proofs.Typing.NormedSchemas
import RouteScribe.Proofs.Typing.RequiredNames
import RouteScribe.Proofs.Route.UnionSchemas
import RouteScribe.Proofs.Route.ObjectSchemas
import RouteScribe.Proofs.Docs.Visits
import RouteScribe.Proofs.Command.Effects
import RouteScribe.Proofs.Document.QueryParameters
import RouteScribe.Proofs.Route.QueryReads
import RouteScribe.Proofs.ZodGrammar
import RouteScribe.Proofs.Route.FolderPaths
import RouteScribe.Proofs.Document.Merging
import RouteScribe.Proofs.Source.Binders
import RouteScribe.Proofs.Route.MiddlewareScopes
import RouteScribe.Proofs.Files.BraceChoices
import RouteScribe.Proofs.Files.DiscoveredFiles
import RouteScribe.Proofs.Route.NullableUnions
import RouteScribe.Proofs.Numeral.Literals
import RouteScribe.Proofs.Route.Widening
import RouteScribe.Proofs.Route.EnumValues
import RouteScribe.Proofs.Route.StatusCodes
import RouteScribe.Proofs.Route.RouteCalls
import RouteScribe.Proofs.Route.ResolvedStrings
import RouteScribe.Proofs.Route.UnionLaws
