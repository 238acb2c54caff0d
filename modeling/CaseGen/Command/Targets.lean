import CaseGen.Text.Order

/-! # Targets named on a command line

    A target may be named by its name, by the name of its data file, or by
    a path to that file.

    * `normalizeName`    — the target name that a text stands for
    * `resolveTargets`   — the targets that a command line selects
    * `summaryLine`      — what is shown once they are generated -/

namespace CaseGen.Command

/-- The end of the name of a data file. -/
def dataSuffix : List Char := ['.', 'd', 'a', 't', 'a']

/-- A text without one `.data` at its end. -/
def withoutDataSuffix (cs : List Char) : List Char :=
  if dataSuffix <:+ cs then cs.take (cs.length - dataSuffix.length) else cs

/-- What follows the last slash of a text, or all of a text without one. -/
def afterLastSlash (cs : List Char) : List Char := (cs.reverse.takeWhile (· ≠ '/')).reverse

/-- The target name that a text stands for: one final `.data` is dropped, then
    everything up to the last slash. -/
def normalizeName (s : String) : String :=
  String.ofList (afterLastSlash (withoutDataSuffix s.toList))

/-- The targets selected by a list of texts.  No text at all selects every available
    target in sorted order, and the text `-` selects nothing by itself. -/
def resolveTargets (requested available : List String) : List String :=
  if requested.isEmpty then Text.sort available
  else (requested.filter (· ≠ "-")).map normalizeName

/-- What is shown once data files are generated. -/
def summaryLine (count : Int) : String :=
  if count = 1 then "Generated 1 data file"
  else "Generated " ++ toString count ++ " data files"

theorem summaryLine_ofNat (n : Nat) : summaryLine n =
    if n = 1 then "Generated 1 data file" else "Generated " ++ toString n ++ " data files" := by
  unfold summaryLine
  by_cases one : n = 1
  · rw [if_pos one, if_pos (by omega)]
  · rw [if_neg one, if_neg (by omega)]
    rfl

end CaseGen.Command
