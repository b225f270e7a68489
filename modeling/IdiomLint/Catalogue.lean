import IdiomLint.Catalogue.Affixes
import IdiomLint.Catalogue.Assignments
import IdiomLint.Catalogue.Classes
import IdiomLint.Catalogue.Comparisons
import IdiomLint.Catalogue.Comprehensions
import IdiomLint.Catalogue.Conditions
import IdiomLint.Catalogue.Containers
import IdiomLint.Catalogue.ControlFlow
import IdiomLint.Catalogue.Dates
import IdiomLint.Catalogue.Defaults
import IdiomLint.Catalogue.Digests
import IdiomLint.Catalogue.Emptiness
import IdiomLint.Catalogue.Functions
import IdiomLint.Catalogue.Interpolation
import IdiomLint.Catalogue.Literals
import IdiomLint.Catalogue.Loops
import IdiomLint.Catalogue.MethodChains
import IdiomLint.Catalogue.Numbers
import IdiomLint.Catalogue.OpenFiles
import IdiomLint.Catalogue.Paths
import IdiomLint.Catalogue.Regex
import IdiomLint.Catalogue.Strings
import IdiomLint.Catalogue.TypeTests

/-! All checks that come with the program, in the order in which they are loaded. -/
namespace IdiomLint.Catalogue

def builtin : List Check :=
  [Containers.extend, Containers.clear, Loops.dictItems, Loops.enumeration, TypeTests.typeIsNone,
    TypeTests.instanceOfNone, Containers.setLoop, Containers.sliceCopy, Containers.sortedExtreme,
    Strings.emptyPrint, Conditions.setDiscard, Comprehensions.collected, Assignments.declarations,
    Numbers.bitCount, Numbers.baseZero, TypeTests.sameValueTests, Conditions.minMax,
    OpenFiles.writeLines, Classes.builtinBase, ControlFlow.droppedException, Dates.isoFormat,
    Dates.universalTime, Numbers.decimalConstructor, ControlFlow.redundantContinue,
    ControlFlow.redundantReturn, Assignments.withAssignment, ControlFlow.elseReturn,
    Defaults.implicitDefault, Functions.unboundedCache, Digests.hashConstructor,
    Digests.hexDigest, OpenFiles.iteratedLines, Comparisons.inBracket, Comparisons.singleItem,
    Comprehensions.flattening, Comprehensions.starmap, Comparisons.chain,
    Comparisons.alternatives, Conditions.orOperator, Numbers.logarithmBase, Numbers.constant,
    Paths.workingDirectory, Paths.existence, Paths.statistics, Paths.fileKind,
    Paths.makeDirectory, Paths.implicitWorkingDirectory, Paths.joining, OpenFiles.openPath,
    OpenFiles.readWhole, Paths.constructor, OpenFiles.touch, Paths.removal, Paths.extension,
    Paths.withSuffix, OpenFiles.writeWhole, Classes.asPattern, MethodChains.fluentInterface,
    Comparisons.dictKeys, Containers.copyBeforeMerge, Conditions.doubleNegation,
    Numbers.conversionConstructor, Comparisons.truthValue, Emptiness.lengthTest,
    Conditions.redundantDefault, Assignments.selfAssignment, Classes.temporaryObject,
    Literals.redundantConversion, Classes.abstractMetaclass, Comprehensions.listLoop,
    Containers.dictUnion, Functions.functionName, Comparisons.isEitherTruth, Literals.emptyCall,
    Functions.operatorFunction, Containers.reverse, Containers.sort, Interpolation.singleField,
    Functions.textMethod, Assignments.tupleSwap, Regex.longFlag, Regex.patternMethod,
    Digests.token, Strings.shellJoin, Strings.charset, Strings.expandTabs,
    Interpolation.slicedNumber, Strings.multilineStrip, Affixes.cutAffix, Strings.doubleStrip,
    Strings.affixTuple, Interpolation.convertedField, Functions.queryParams]

end IdiomLint.Catalogue
