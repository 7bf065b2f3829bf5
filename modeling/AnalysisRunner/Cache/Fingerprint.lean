import AnalysisRunner.Json.Basic
import AnalysisRunner.Text.Sha256

/-!
# Fingerprints

Two texts, or two configurations, are taken for the same when their fingerprints
agree.  A configuration is fingerprinted through its canonical text, so the order
of its members does not count.
-/

namespace AnalysisRunner
namespace Fingerprint

/-- The fingerprint of a text. -/
def ofText (text : String) : String :=
  Sha256.hex (Bytes.ofText text)

/-- The text whose fingerprint a configuration has. -/
def canonicalText (config : Json) : String :=
  config.canonical.compact

/-- The fingerprint of a configuration. -/
def ofConfig (config : Json) : String :=
  ofText (canonicalText config)

end Fingerprint
end AnalysisRunner
