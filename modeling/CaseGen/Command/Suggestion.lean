import CaseGen.Command.Program
import CaseGen.Text.Edits
import CaseGen.Text.Order

/-! # Suggestions for unknown options

    An unknown long option may be a misspelt one.  An option is suggested
    if at most three edits lead to it and more than two fifths of the
    longer name stay; of several, the nearest are suggested.

    * `similarNames`    — the options suggested for a word
    * `suggestionText`  — the suggestion for an argument, or nothing -/

namespace CaseGen.Command

/-- The most edits between a word and an option suggested for it. -/
def maxEdits : Nat := 3

/-- The number of edits between a word and a name, if the two are similar. -/
def similarity? (word name : String) : Option Nat :=
  let a := Text.codeUnits word
  let b := Text.codeUnits name
  let longer := max a.length b.length
  (Text.editDistance? maxEdits a b).filter fun d => 5 * (longer - d) > 2 * longer

/-- The names nearest to a word among those similar to it, sorted. -/
def similarNames (names : List String) (word : String) : List String :=
  let found := names.filterMap fun name => (similarity? word name).map (·, name)
  let nearest := found.filter fun e => found.all fun f => e.1 ≤ f.1
  Text.sort (nearest.map Prod.snd)

/-- The suggestion for an unknown argument, on a line of its own; nothing unless the
    argument starts with two dashes. -/
def suggestionText (arg : String) : String :=
  match arg.toList with
  | '-' :: '-' :: word =>
    match (similarNames longNames (String.ofList word)).map ("--" ++ ·) with
    | [] => ""
    | [name] => "\n(Did you mean " ++ name ++ "?)"
    | names => "\n(Did you mean one of " ++ ", ".intercalate names ++ "?)"
  | _ => ""

end CaseGen.Command
