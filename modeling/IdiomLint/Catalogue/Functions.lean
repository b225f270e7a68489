import IdiomLint.Rules.Functions

/-! The checks on functions. -/
namespace IdiomLint.Catalogue.Functions

def unboundedCache : Check where
  code := ⟨Code.homeSeries, 134⟩
  name := some "use-cache"
  categories := ["functools", "python39", "readability"]
  classes := [.decorated]
  judge := .plain Rules.Functions.unboundedCache
  location := "refurb/checks/functools/use_cache.py"
  explanation := some [
    "Python 3.9 introduces the `@cache` decorator which can be used as a",
    "short-hand for `@lru_cache(maxsize=None)`.",
    "",
    "Bad:",
    "",
    "```",
    "from functools import lru_cache",
    "",
    "@lru_cache(maxsize=None)",
    "def f(x: int) -> int:",
    "    return x + 1",
    "```",
    "",
    "Good:",
    "",
    "```",
    "from functools import cache",
    "",
    "@cache",
    "def f(x: int) -> int:",
    "    return x + 1",
    "```"]

def functionName : Check where
  code := ⟨Code.homeSeries, 111⟩
  name := some "use-func-name"
  categories := ["performance", "readability"]
  classes := [.lambda]
  judge := .fallible Rules.Functions.functionName
  location := "refurb/checks/readability/use_func_name.py"
  explanation := some [
    "Don't use a lambda if its only forwarding its arguments to a function.",
    "",
    "Bad:",
    "",
    "```",
    "predicate = lambda x: bool(x)",
    "",
    "some_func(lambda x, y: print(x, y))",
    "```",
    "",
    "Good:",
    "",
    "```",
    "predicate = bool",
    "",
    "some_func(print)",
    "```",
    "",
    "In addition, don't use lambdas when you want a default value for a literal",
    "type:",
    "",
    "Bad:",
    "",
    "```",
    "counter = defaultdict(lambda: 0)",
    "multimap = defaultdict(lambda: [])",
    "```",
    "",
    "Good:",
    "",
    "```",
    "counter = defaultdict(int)",
    "multimap = defaultdict(list)",
    "```"]

def operatorFunction : Check where
  code := ⟨Code.homeSeries, 118⟩
  name := some "use-operator"
  categories := ["operator"]
  classes := [.functionItem]
  judge := .plain Rules.Functions.operatorFunction
  location := "refurb/checks/readability/use_operators.py"
  explanation := some [
    "Don't write lambdas/functions to wrap builtin operators, use the `operator`",
    "module instead:",
    "",
    "Bad:",
    "",
    "```",
    "from functools import reduce",
    "",
    "nums = [1, 2, 3]",
    "",
    "print(reduce(lambda x, y: x + y, nums))  # 6",
    "```",
    "",
    "Good:",
    "",
    "```",
    "from functools import reduce",
    "from operator import add",
    "",
    "nums = [1, 2, 3]",
    "",
    "print(reduce(add, nums))  # 6",
    "```",
    "",
    "In addition, the `operator.itemgetter()` function can be used to get one or",
    "more items from an object, removing the need to create a lambda just to",
    "extract values from an object:",
    "",
    "Bad:",
    "",
    "```",
    "row = (1, \"Some text\", True)",
    "",
    "transform = lambda x: (x[2], x[0])",
    "```",
    "",
    "Good:",
    "",
    "```",
    "from operator import itemgetter",
    "",
    "row = (1, \"Some text\", True)",
    "",
    "transform = itemgetter(2, 0)",
    "```"]

def textMethod : Check where
  code := ⟨Code.homeSeries, 190⟩
  name := some "use-str-method"
  categories := ["performance", "readability"]
  classes := [.lambda]
  judge := .plain Rules.Functions.textMethod
  location := "refurb/checks/readability/use_str_method.py"
  explanation := some [
    "Don't use a lambda function to call a no-arg method on a string, use the",
    "name of the string method directly. It is faster, and often times improves",
    "readability.",
    "",
    "Bad:",
    "",
    "```",
    "def normalize_phone_number(phone_number: str) -> int:",
    "    digits = filter(lambda x: x.isdigit(), phone_number)",
    "",
    "    return int(\"\".join(digits))",
    "```",
    "",
    "Good:",
    "",
    "```",
    "def normalize_phone_number(phone_number: str) -> int:",
    "    digits = filter(str.isdigit, phone_number)",
    "",
    "    return int(\"\".join(digits))",
    "```"]

def queryParams : Check where
  code := ⟨Code.homeSeries, 175⟩
  name := some "simplify-fastapi-query"
  categories := ["fastapi", "readability"]
  classes := [.function]
  judge := .plain Rules.Functions.queryParams
  location := "refurb/checks/third_party/fastapi/simplify_query.py"
  explanation := some [
    "FastAPI will automatically pass along query parameters to your function, so",
    "you only need to use `Query()` when you use params other than `default`.",
    "",
    "Bad:",
    "",
    "```",
    "@app.get(\"/\")",
    "def index(name: str = Query()) -> str:",
    "    return f\"Your name is \x7bname\x7d\"",
    "```",
    "",
    "Good:",
    "",
    "```",
    "@app.get(\"/\")",
    "def index(name: str) -> str:",
    "    return f\"Your name is \x7bname\x7d\"",
    "```"]

end IdiomLint.Catalogue.Functions
