import IdiomLint.Check.Env
import IdiomLint.Check.Finding
import IdiomLint.Syntax.SourceText

/-! Hashes and random tokens. -/
namespace IdiomLint.Rules.Digests

open Finding

def algorithms : List String :=
  ["hashlib.md5", "hashlib.sha1", "hashlib.sha224", "hashlib.sha256", "hashlib.sha384",
    "hashlib.sha512", "hashlib.blake2b", "hashlib.blake2s", "hashlib.sha3_224",
    "hashlib.sha3_256", "hashlib.sha3_384", "hashlib.sha3_512", "hashlib.shake_128",
    "hashlib.shake_256", "hashlib._Hash", "hashlib._BlakeHash", "hashlib._VarLenHash"]

def hexDigest (env : Env) : Node → List Finding
  | n@⟨_, .call ⟨_, .member ⟨_, .call ⟨_, .member base digest⟩ args _⟩ hex⟩ [] _⟩ =>
    if hex.name == "hex" && digest.name == "digest" && args.length ≤ 1
        && env.hasType base (algorithms.map .named) then
      let root := base.sourceText
      let arg := (args.head?.map fun a => a.value.sourceText).getD ""
      [replace n (root ++ ".digest(" ++ arg ++ ").hex()") (root ++ ".hexdigest(" ++ arg ++ ")")]
    else []
  | _ => []

/-- The last hash that was made without data, with its variable and what made it. -/
structure FreshHash where
  stmt : Node
  target : String
  maker : Node

/-- An assignment of a new hash to a variable. -/
def freshHash? : Node → Option FreshHash
  | stmt@⟨_, .assignment [⟨_, .name target _⟩] ⟨_, .call callee [] _⟩⟩ =>
    match callee.ref? with
    | some ref =>
      if algorithms.contains ref.fullname then some ⟨stmt, target.fullname, callee⟩ else none
    | none => none
  | _ => none

/-- An update of a variable: the variable and the data. -/
def update? : Node → Option (Ref × Node)
  | ⟨_, .expression ⟨_, .call ⟨_, .member base method⟩ [⟨data, _, _⟩] _⟩⟩ =>
    if method.name == "update" then base.ref?.map fun ref => (ref, data) else none
  | _ => none

/-- Statements after which a fresh hash is still fresh: its updates. -/
def hashUpdates : Option FreshHash → List Node → List Finding
  | _, [] => []
  | fresh, stmt :: rest =>
    match freshHash? stmt with
    | some h => hashUpdates (some h) rest
    | none =>
      match fresh, update? stmt with
      | some h, some (ref, data) =>
        if h.target == ref.fullname then
          let f := h.maker.sourceText
          let x := ref.name
          let shown := data.sourceText
          replace h.stmt (x ++ " = " ++ f ++ "(); " ++ x ++ ".update(" ++ shown ++ ")")
            (x ++ " = " ++ f ++ "(" ++ shown ++ ")") :: hashUpdates fresh rest
        else hashUpdates none rest
      | _, _ => hashUpdates none rest

def hashConstructor (_ : Env) (n : Node) : List Finding :=
  hashUpdates none (n.statementList?.getD [])

/-- The size argument of a token function: a number, `None` or nothing. -/
def tokenSize? : List (CallArg Node) → Option String
  | [] => some ""
  | [⟨⟨_, .int n⟩, _, _⟩] => some (toString n)
  | [⟨arg, _, _⟩] => if arg.isNoneLiteral then some "None" else none
  | _ => none

def hexToken : Node → List Finding
  | n@⟨_, .call ⟨_, .member ⟨_, .call callee args _⟩ ref⟩ [] _⟩ =>
    if ref.name == "hex" && callee.refersTo "secrets.token_bytes" then
      match tokenSize? args with
      | some size =>
        let scope := if callee.isMember then "secrets." else ""
        [replace n (scope ++ "token_bytes(" ++ size ++ ").hex()")
          (scope ++ "token_hex(" ++ (if size == "None" then "" else size) ++ ")")]
      | none => []
    else []
  | _ => []

/-- Two digits make a byte. -/
def bytesFor (function : String) (size : Int) : Option Int :=
  if function == "token_hex" then if size.fmod 2 == 1 then none else some (size.fdiv 2)
  else some size

def slicedToken : Node → List Finding
  | n@⟨_, .index ⟨_, .call callee args _⟩ ⟨_, .slice none (some ⟨_, .int size⟩) none⟩ _ _⟩ =>
    match callee.ref? with
    | none => []
    | some ref =>
      let argument? := match args with
        | [] => some ""
        | [⟨arg, _, _⟩] => if arg.isNoneLiteral then some "None" else none
        | _ => none
      match argument?, bytesFor ref.name size with
      | some argument, some bytes =>
        if ref.fullname == "secrets.token_hex" || ref.fullname == "secrets.token_bytes" then
          let f := callee.sourceText
          [replace n (f ++ "(" ++ argument ++ ")[:" ++ toString size ++ "]")
            (f ++ "(" ++ toString bytes ++ ")")]
        else []
      | _, _ => []
  | _ => []

def token (_ : Env) (n : Node) : List Finding := hexToken n ++ slicedToken n

end IdiomLint.Rules.Digests
