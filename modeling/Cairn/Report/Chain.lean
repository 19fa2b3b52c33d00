import Cairn.Text.Wrap

/-!
# Cairn — chains of causes

What could not be done is reported with what caused it, and with what caused
that in turn.
-/

namespace Cairn

namespace Chain

/-- How wide the lines of a report are. -/
def limit : Nat := 78

/-- The lines of the causes, the direct one first. -/
def causeLines : List String → List String
  | [] => []
  | [last] => wrap limit "  ╰─▶ " "      " last
  | cause :: causes => wrap limit "  ├─▶ " "  │   " cause ++ causeLines causes

end Chain

/-- The report of what could not be done, and of its causes. -/
def chainReport (context : String) (causes : List String) : String :=
  let lines := wrap Chain.limit "  × " "  │ " context ++ Chain.causeLines causes
  "Error: " ++ String.join (lines.map (· ++ "\n")) ++ "\n"

end Cairn
