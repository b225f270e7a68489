import IdiomLint.Rules.Conditions
import IdiomLint.Rules.Interpolation

/-! Functions and lambdas that another function can stand for, decorators, and parameters. -/
namespace IdiomLint.Rules.Functions

open Finding

/-- The value that a body returns, if it does nothing else. -/
def returned? : Node → Option Node
  | ⟨_, .block [⟨_, .returnStmt (some value)⟩]⟩ => some value
  | _ => none

def nameOf? : Node → Option String
  | ⟨_, .name ref _⟩ => some ref.name
  | _ => none

/-- Goes everywhere but into calls. -/
def outsideCalls : Walk :=
  ⟨.calleeFirst, fun n => if Interpolation.isCall n then some 0 else none⟩

def containsCall (n : Node) : Except Fault Bool :=
  (n.entries outsideCalls).map fun ns => ns.any Interpolation.isCall

def isZeroComplex (text : String) : Bool := ["0j", "-0j", "(-0+0j)", "(-0-0j)"].contains text

/-- The type whose value without contents a node is. -/
def emptyValueType? : Node → Option String
  | ⟨_, .list []⟩ => some "list"
  | ⟨_, .dict []⟩ => some "dict"
  | ⟨_, .tuple []⟩ => some "tuple"
  | ⟨_, .int k⟩ => if k == 0 then some "int" else none
  | ⟨_, .float text⟩ => if Conditions.isZeroFloat text then some "float" else none
  | ⟨_, .complex text⟩ => if isZeroComplex text then some "complex" else none
  | ⟨_, .str s⟩ => if s == "" then some "str" else none
  | ⟨_, .bytes s⟩ => if s == "" then some "bytes" else none
  | n => if n.isFalseLiteral then some "bool" else none

/-- Whether a call passes on exactly the parameters, in order and by position. -/
def forwards (params : List (Param Node)) (args : List (CallArg Node)) : Bool :=
  params.map (fun p => some p.name) == args.map (fun a => nameOf? a.value)
    && args.all (·.kind == .pos)

/-- The function that a lambda only forwards to. -/
def forwardedTo? (params : List (Param Node)) : Node → Except Fault (Option Node)
  | ⟨_, .call callee args _⟩ =>
    if callee.ref?.isSome && forwards params args then do
      return if ← containsCall callee then none else some callee
    else .ok none
  | _ => .ok none

def functionName (_ : Env) : Node → Except Fault (List Finding)
  | n@⟨_, .lambda params body _⟩ =>
    match returned? body with
    | none => .ok []
    | some value => do
      match ← forwardedTo? params value with
      | some f => return [replace n n.sourceText f.sourceText]
      | none =>
        match params.isEmpty, emptyValueType? value with
        | true, some type => return [replace n n.sourceText type]
        | _, _ => return []
  | _ => .ok []

def binaryOperators : List (String × String) :=
  [("+", "add"), ("in", "contains"), ("/", "truediv"), ("//", "floordiv"), ("&", "and_"),
    ("^", "xor"), ("|", "or_"), ("**", "pow"), ("is", "is_"), ("is not", "is_not"),
    ("<<", "lshift"), ("%", "mod"), ("*", "mul"), ("@", "matmul"), (">>", "rshift"),
    ("-", "sub"), ("<", "lt"), ("<=", "le"), ("==", "eq"), ("!=", "ne"), (">=", "ge"),
    (">", "gt")]

def unaryOperators : List (String × String) :=
  [("~", "invert"), ("-", "neg"), ("not", "not_"), ("+", "pos")]

/-- The symbol of an operator and the two names it is applied to. -/
def operation? : Node → Option (String × String × String)
  | ⟨_, .binary op ⟨_, .name a _⟩ ⟨_, .name b _⟩ _ _⟩ => some (op.symbol, a.name, b.name)
  | ⟨_, .comparison [op] [⟨_, .name a _⟩, ⟨_, .name b _⟩]⟩ => some (op.symbol, a.name, b.name)
  | _ => none

/-- The operator function that a function of two parameters is. -/
def binaryFunction? (first second : Option String) (value : Node) : Option String :=
  match operation? value with
  | some (op, a, b) =>
    match binaryOperators.lookup op with
    | some f =>
      -- the function for containment takes the container first
      let (left, right) := if f == "contains" then (b, a) else (a, b)
      if first == some left && second == some right then some ("operator." ++ f) else none
    | none => none
  | none => none

def indexText : Node → String
  | ⟨_, .slice start stop step⟩ => Node.sliceCall start stop step
  | n => n.sourceText

/-- The key of an index into the parameter. -/
def indexInto? (param : Option String) : Node → Option (Node × Node)
  | ⟨_, .index base key _ _⟩ =>
    if (nameOf? base).isSome && nameOf? base == param then some (base, key) else none
  | _ => none

def itemGetter (keys : List Node) : String :=
  "operator.itemgetter(" ++ ", ".intercalate (keys.map indexText) ++ ")"

/-- The function that a function of one parameter is. -/
def unaryFunction? (env : Env) (param : Option String) (value : Node) : Option String :=
  match value with
  | ⟨_, .unary op ⟨_, .name ref _⟩ _⟩ =>
    if param == some ref.name then (unaryOperators.lookup op.symbol).map ("operator." ++ ·)
    else none
  | ⟨_, .tuple items⟩ =>
    if items.length > 1 then
      (items.mapM fun i => (indexInto? param i).map (·.2)).map itemGetter
    else none
  | _ =>
    match indexInto? param value with
    | some (base, ⟨_, .slice none none none⟩) =>
      if env.isList base then some "list.copy"
      else some ("operator.itemgetter(" ++ Node.sliceCall none none none ++ ")")
    | some (_, key) => some (itemGetter [key])
    | none => none

/-- How a function is named in a message. -/
def functionLabel : Node → String
  | n@⟨_, .lambda _ _ _⟩ =>
    match n.sourceText? with
    | some text => "`" ++ text ++ "`"
    | none => "lambda"
  | _ => "function"

def paramsAndBody? : Node → Option (List (Param Node) × Node)
  | ⟨_, .function _ params body _⟩ => some (params, body)
  | ⟨_, .lambda params body _⟩ => some (params, body)
  | _ => none

def operatorFunction (env : Env) (n : Node) : List Finding :=
  match paramsAndBody? n with
  | none => []
  | some (params, body) =>
    match returned? body with
    | none => []
    | some value =>
      let new? := if !params.all (·.kind == .pos) then none
        else match params with
          | [p, q] => binaryFunction? p.callName q.callName value
          | [p] => unaryFunction? env p.callName value
          | _ => none
      match new? with
      | some new => [ofNode n ("Replace " ++ functionLabel n ++ " with `" ++ new ++ "`")]
      | none => []

def textMethods : List String :=
  ["capitalize", "casefold", "isalnum", "isalpha", "isascii", "isdecimal", "isdigit",
    "isidentifier", "islower", "isnumeric", "isprintable", "isspace", "istitle", "isupper",
    "lower", "lstrip", "rsplit", "rstrip", "split", "splitlines", "strip", "swapcase", "title",
    "upper"]

def textMethod (env : Env) : Node → List Finding
  | n@⟨_, .lambda [p] body _⟩ =>
    match returned? body with
    | some ⟨_, .call ⟨_, .member base@⟨_, .name ref _⟩ method⟩ [] _⟩ =>
      if p.kind == .pos && p.callName == some ref.name && textMethods.contains method.name
          && env.hasType base [.builtin "str", .nothing, .anything] then
        [replace n n.sourceText ("str." ++ method.name)]
      else []
    | _ => []
  | _ => []

def unboundedCache (env : Env) : Node → List Finding
  | n@⟨_, .decorated _ [⟨_, .call callee [⟨arg, .named, some "maxsize"⟩] _⟩] _⟩ =>
    if env.version.atLeast 3 9 && callee.refersTo "functools.lru_cache" && arg.isNoneLiteral then
      let scope := if callee.isMember then "functools." else ""
      [replace n ("@" ++ scope ++ "lru_cache(maxsize=None)") ("@" ++ scope ++ "cache")]
    else []
  | _ => []

def isEllipsis : Node → Bool
  | ⟨_, .ellipsis⟩ => true
  | _ => false

/-- How a query is written, and whether it only says that a value is required. -/
def query? : List (CallArg Node) → Option (String × Bool)
  | [] => some ("Query()", false)
  | [⟨value, _, name⟩] =>
    let required := isEllipsis value
    let shown := if required then "..." else "x"
    match name with
    | none => some ("Query(" ++ shown ++ ")", required)
    | some "default" => some ("Query(default=" ++ shown ++ ")", required)
    | some _ => none
  | _ => none

def queryParam (p : Param Node) : List Finding :=
  match p.initial with
  | some ⟨_, .call callee args _⟩ =>
    match query? args with
    | some (query, required) =>
      if callee.isNameOf "fastapi.param_functions.Query" then
        let declared := p.fullname ++ (if p.annotated then ": T" else "")
        [ofSpan p.info.span (replacement (declared ++ " = " ++ query)
          (if required then declared else declared ++ " = x"))]
      else []
    | none => []
  | _ => []

def queryParams (_ : Env) : Node → List Finding
  | ⟨_, .function _ params _ _⟩ => params.flatMap queryParam
  | _ => []

end IdiomLint.Rules.Functions
