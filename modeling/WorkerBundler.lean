import WorkerBundler.Bundler
import WorkerBundler.Building
import WorkerBundler.Config
import WorkerBundler.Plugin.Rules
import WorkerBundler.Loading
import WorkerBundler.Proofs.Loading.Sequential
import WorkerBundler.Proofs.HookAnswers
import WorkerBundler.Proofs.Loading.Invariants
import WorkerBundler.Proofs.Loading.Provenance
import WorkerBundler.Proofs.Loading.Worklist
import WorkerBundler.Proofs.Chunks
import WorkerBundler.Proofs.EmittedNames
import WorkerBundler.Proofs.Loading.Emissions
import WorkerBundler.Proofs.Bundling
import WorkerBundler.Proofs.EditedSpans
import WorkerBundler.Proofs.ImportSpans
import WorkerBundler.Proofs.Redirect
import WorkerBundler.Proofs.Worker.Requests
import WorkerBundler.Proofs.Worker.WrapperText
import WorkerBundler.Proofs.Builds
import WorkerBundler.Proofs.Worker.Links
import WorkerBundler.Proofs.SourceMap.Characters
import WorkerBundler.Proofs.SourceMap.Carried
import WorkerBundler.Proofs.Worker.Occurrences
import WorkerBundler.Proofs.DiskChanges
import WorkerBundler.Proofs.UniqueNames
import WorkerBundler.Proofs.WrittenAssets
import WorkerBundler.Proofs.ImportLeads
import WorkerBundler.Proofs.ImportPlaces
import WorkerBundler.Proofs.Rescan
import WorkerBundler.Proofs.RedirectedImports
import WorkerBundler.Proofs.FreshReferences
import WorkerBundler.Proofs.EmitterCalls
import WorkerBundler.Proofs.Worker.WrapperIds
import WorkerBundler.Proofs.HookOutcomes
import WorkerBundler.Proofs.Loading.Behaviour
import WorkerBundler.Proofs.Loading.Conformance
import WorkerBundler.Proofs.Loading.Confluence
import WorkerBundler.Proofs.FilePaths
import WorkerBundler.Proofs.Worker.Behaviour
import WorkerBundler.Proofs.Loading.Messages
import WorkerBundler.Proofs.ChunkOrder
import WorkerBundler.Proofs.ChunkNames
import WorkerBundler.Proofs.SourceMap.Contents
import WorkerBundler.Proofs.Loading.Notes
import WorkerBundler.Proofs.Finishing
import WorkerBundler.Proofs.BuildEnds
import WorkerBundler.Proofs.Rebuilds
import WorkerBundler.Proofs.EditCalls
import WorkerBundler.Proofs.SplicedText
import WorkerBundler.Proofs.SourceMap.MappedPlaces
import WorkerBundler.Proofs.SourceMapSettings
import WorkerBundler.Proofs.SettingsInStep
import WorkerBundler.Proofs.OutputRequests
import WorkerBundler.Proofs.SourceMap.Lookups
import WorkerBundler.Proofs.SourceMap.GovernedPlaces
import WorkerBundler.Proofs.Worker.Unmarked
import WorkerBundler.Proofs.LeadEnds
import WorkerBundler.Proofs.ImportStatements
import WorkerBundler.Proofs.OverlappingImports
import WorkerBundler.Proofs.ResolvedPaths
import WorkerBundler.Proofs.Loading.ResolvedModules
import WorkerBundler.Proofs.RelativeRequests
import WorkerBundler.Proofs.CountedLoops
import WorkerBundler.Proofs.ReferenceSearch
import WorkerBundler.Proofs.NameSearch
