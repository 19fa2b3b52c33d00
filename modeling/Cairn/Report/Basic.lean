import Cairn.Failure
import Cairn.Report.Snippet

/-!
# Cairn — reports

Failures that have a place in the source are shown as snippets, all others as
one line.
-/

namespace Cairn

/-- The snippet of a text that does not parse. -/
def ParseError.snippet (e : ParseError) : Snippet where
  span := e.loc.span
  code := e.fault.code
  title := "Syntax error"
  message := e.fault.message
  help := e.fault.help

/-- The snippet of a diagnostic. -/
def Diagnostic.snippet (d : Diagnostic) : Snippet where
  span := d.loc.span
  code := d.fault.code
  title := d.fault.message
  message := d.fault.message
  help := d.fault.help

namespace Failure

/-- The rows of the report of a failure in a file with the given text. -/
def rows (file source : String) (f : Failure) : List Row :=
  match f with
  | .parse error => error.snippet.rows file source
  | .compile diagnostics =>
    diagnostics.flatMap (fun d => d.snippet.rows file source) ++ [[.bare f.message]]
  | .decode _ => [[.bare f.message]]
  | .runtime _ => [[.bare f.message]]

/-- The report of a failure. -/
def report (colour : Bool) (file source : String) (f : Failure) : String :=
  writeRows colour (f.rows file source)

end Failure

end Cairn
