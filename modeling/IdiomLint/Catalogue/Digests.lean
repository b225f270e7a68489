import IdiomLint.Check.Basic
import IdiomLint.Rules.Digests

/-! The checks on hashes and tokens. -/
namespace IdiomLint.Catalogue.Digests

def hashConstructor : Check where
  code := ⟨Code.homeSeries, 182⟩
  name := some "simplify-hashlib-ctor"
  categories := ["hashlib", "readability"]
  classes := [.block, .file]
  judge := .plain Rules.Digests.hashConstructor
  location := "refurb/checks/hashlib/simplify_ctor.py"
  explanation := some [
    "You can pass data into `hashlib` constructors, so instead of creating a",
    "hash object and immediately updating it, pass the data directly.",
    "",
    "Bad:",
    "",
    "```",
    "from hashlib import sha512",
    "",
    "h = sha512()",
    "h.update(b\"data\")",
    "```",
    "",
    "Good:",
    "",
    "```",
    "from hashlib import sha512",
    "",
    "h = sha512(b\"data\")",
    "```"]

def hexDigest : Check where
  code := ⟨Code.homeSeries, 181⟩
  name := some "use-hexdigest-hashlib"
  categories := ["hashlib", "readability"]
  classes := [.call]
  judge := .plain Rules.Digests.hexDigest
  location := "refurb/checks/hashlib/use_hexdigest.py"
  explanation := some [
    "Use `.hexdigest()` to get a hex digest from a hash.",
    "",
    "Bad:",
    "",
    "```",
    "from hashlib import sha512",
    "",
    "hashed = sha512(b\"some data\").digest().hex()",
    "```",
    "",
    "Good:",
    "",
    "```",
    "from hashlib import sha512",
    "",
    "hashed = sha512(b\"some data\").hexdigest()",
    "```"]

def token : Check where
  code := ⟨Code.homeSeries, 174⟩
  name := some "simplify-token-function"
  categories := ["readability", "secrets"]
  classes := [.call, .index]
  judge := .plain Rules.Digests.token
  location := "refurb/checks/secrets/simplify_token_function.py"
  explanation := some [
    "Depending on how you are using the `secrets` module, there might be more",
    "expressive ways of writing what it is you're trying to write.",
    "",
    "Bad:",
    "",
    "```",
    "random_hex = token_bytes().hex()",
    "random_url = token_urlsafe()[:16]",
    "```",
    "",
    "Good:",
    "",
    "```",
    "random_hex = token_hex()",
    "random_url = token_urlsafe(16)",
    "```"]

end IdiomLint.Catalogue.Digests
