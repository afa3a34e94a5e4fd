/-
  The questions asked before anything is deleted.
-/
import ConsoleSweep.Path

namespace ConsoleSweep.Prompt

/-- The question before all recorded files are cleaned. -/
def cleanAll (total files : String) : String :=
  "This will remove " ++ total ++ " console log(s) from " ++ files ++
    " file(s). This action cannot be undone. Continue?"

/-- The question before one file is cleaned. -/
def cleanFile (path count : String) : String :=
  "Remove " ++ count ++ " console log(s) from " ++ Path.baseName path ++ "? This cannot be undone."

end ConsoleSweep.Prompt
