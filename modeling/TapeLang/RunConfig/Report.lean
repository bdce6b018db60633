import TapeLang.RunConfig.Basic
import TapeLang.Text.Abridged

/-!
# Reports on configurations

The issues of a configuration as a text: a headline with their number, then two lines for each,
the name of the field and what is wrong with the value offered. Long values are shortened in
their middle.
-/

namespace TapeLang

/-- The two lines on one issue. -/
def Issue.report (issue : Issue) : String :=
  let value := String.ofList (Text.abridge issue.input.shown)
  let message := issue.kind.message
  let code := issue.kind.code
  let kind := issue.input.kindWord
  issue.field ++ s!"\n  {message} [type={code}, input_value={value}, input_type={kind}]"

/-- The report on a configuration that was refused. -/
def RunConfig.report (issues : List Issue) : String :=
  let count := issues.length
  let noun := if count = 1 then "error" else "errors"
  String.intercalate "\n" (s!"{count} validation {noun} for RunConfig" :: issues.map Issue.report)

end TapeLang
