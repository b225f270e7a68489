import IdiomLint.Check.Basic
import IdiomLint.Rules.Dates

/-! The checks on dates. -/
namespace IdiomLint.Catalogue.Dates

def isoFormat : Check where
  code := ⟨Code.homeSeries, 162⟩
  name := some "simplify-fromisoformat"
  categories := ["datetime", "python311", "readability"]
  classes := [.call]
  judge := .plain Rules.Dates.isoFormat
  location := "refurb/checks/datetime/simplify_fromisoformat.py"
  explanation := some [
    "Python 3.11 adds support for parsing UTC timestamps that end with `Z`, thus",
    "removing the need to strip and append the `+00:00` timezone.",
    "",
    "Bad:",
    "",
    "```",
    "date = \"2023-02-21T02:23:15Z\"",
    "",
    "start_date = datetime.fromisoformat(date.replace(\"Z\", \"+00:00\"))",
    "```",
    "",
    "Good:",
    "",
    "```",
    "date = \"2023-02-21T02:23:15Z\"",
    "",
    "start_date = datetime.fromisoformat(date)",
    "```"]

def universalTime : Check where
  code := ⟨Code.homeSeries, 176⟩
  name := some "unreliable-utc-usage"
  categories := ["datetime"]
  classes := [.call]
  judge := .plain Rules.Dates.universalTime
  location := "refurb/checks/datetime/unreliable_utc_usage.py"
  explanation := some [
    "Because naive `datetime` objects are treated by many `datetime` methods",
    "as local times, it is preferred to use aware datetimes to represent times",
    "in UTC.",
    "",
    "This check affects `datetime.utcnow` and `datetime.utcfromtimestamp`.",
    "",
    "Bad:",
    "",
    "```",
    "from datetime import datetime",
    "",
    "now = datetime.utcnow()",
    "past_date = datetime.utcfromtimestamp(some_timestamp)",
    "```",
    "",
    "Good:",
    "",
    "```",
    "from datetime import datetime, timezone",
    "",
    "datetime.now(timezone.utc)",
    "datetime.fromtimestamp(some_timestamp, tz=timezone.utc)",
    "```"]

end IdiomLint.Catalogue.Dates
