import IdiomLint.Bench.Coverage
import IdiomLint.Bench.RepoTime
import IdiomLint.Bench.Round
import IdiomLint.Loading.Attribute
import IdiomLint.Main
import IdiomLint.Proofs.AmendedPaths
import IdiomLint.Proofs.AppendRuns
import IdiomLint.Proofs.ChainRoots
import IdiomLint.Proofs.CheckSignatures
import IdiomLint.Proofs.ClassCalls
import IdiomLint.Proofs.ColoredText
import IdiomLint.Proofs.ComparedPairs
import IdiomLint.Proofs.ComputedColumns
import IdiomLint.Proofs.CountedNames
import IdiomLint.Proofs.DeclarationRuns
import IdiomLint.Proofs.DictUnions
import IdiomLint.Proofs.EmptinessTests
import IdiomLint.Proofs.FilledLists
import IdiomLint.Proofs.FinalReturns
import IdiomLint.Proofs.FingerprintCollisions
import IdiomLint.Proofs.FormattedStrings
import IdiomLint.Proofs.ForwardingLambdas
import IdiomLint.Proofs.HashUpdates
import IdiomLint.Proofs.HoistedExpressions
import IdiomLint.Proofs.MessageOrder
import IdiomLint.Proofs.MovedCopies
import IdiomLint.Proofs.NumberedLines
import IdiomLint.Proofs.PackageFolders
import IdiomLint.Proofs.PrintedLiterals
import IdiomLint.Proofs.ReassignedVariables
import IdiomLint.Proofs.RefusedSettings
import IdiomLint.Proofs.ReportedOnce
import IdiomLint.Proofs.SkippedBranches
import IdiomLint.Proofs.SortedExtremes
import IdiomLint.Proofs.SpreadCalls
import IdiomLint.Proofs.StripChains
import IdiomLint.Proofs.SwapTriples
import IdiomLint.Proofs.TokenLengths
import IdiomLint.Proofs.UnresolvedNames
import IdiomLint.Proofs.UnusedNames
import IdiomLint.Proofs.WholeDecimals
