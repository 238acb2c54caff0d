import CaseGen.Proofs.TestCase.Blocks
import CaseGen.Proofs.TestCase.Positions
import Mathlib.Data.List.Induction

/-! # Drafts that are built call by call

    A draft is built by calls that set a field or add comments, with checks
    and attempts to write it anywhere in between.  What has been built is
    the last text or list set for each field and all comments in the order
    of the calls; checks and attempts have no part in it, so a draft that
    was refused can be set right and tried again.

    * `Draft.Call`, `Draft.after`   — a call on a draft, and calls in order
    * `Draft.lastOf`                — the last value that edits set for a field
    * `Draft.after_eq`              — what calls have built
    * `Draft.lines_eq_ok_iff_good`  — the lines of a draft without bad positions
    * `written_unless_bad`          — the lines or the issues of what calls have built -/

namespace CaseGen

open Text

namespace Draft

/-! ## Section 1: Calls in order -/

/-- A call on a draft. -/
inductive Call where
  | edit (e : Edit)
  /-- Asks for the record. -/
  | check
  /-- Asks for the lines. -/
  | write
  deriving DecidableEq, Repr

/-- What a call answers. -/
inductive Reply where
  | done
  | checked (r : Except Failure Record)
  | written (r : Except Failure (List String))

/-- The answer to a call, and the draft after it. -/
def call (d : Draft) : Call → Reply × Draft
  | .edit e => (.done, d.edit e)
  | .check => (.checked d.check, d)
  | .write => (.written d.lines, d)

/-- The draft after calls in order. -/
def after (d : Draft) (calls : List Call) : Draft := calls.foldl (fun d k => (d.call k).2) d

/-- The edit that a call asks for. -/
def Call.edit? : Call → Option Edit
  | .edit e => some e
  | .check | .write => none

namespace Edit

/-- The description that an edit sets. -/
def description? : Edit → Option String
  | setDescription s => some s
  | _ => none

/-- The function that an edit sets. -/
def function? : Edit → Option String
  | setFunction s => some s
  | _ => none

/-- The arguments that an edit sets. -/
def arguments? : Edit → Option (List String)
  | setArguments l => some l
  | _ => none

/-- The dependencies that an edit sets. -/
def dependencies? : Edit → Option (List String)
  | setDependencies l => some l
  | _ => none

/-- The comments that an edit adds. -/
def comments : Edit → List String
  | addComments l => l
  | _ => []

end Edit

/-- The last value that edits set for a field. -/
def lastOf {α : Type} (field? : Edit → Option α) (edits : List Edit) : Option α :=
  (edits.filterMap field?).getLast?

variable {d : Draft} {r : Record} {l : List String}

theorem lastOf_concat {α : Type} (field? : Edit → Option α) (edits : List Edit) (e : Edit) :
    lastOf field? (edits ++ [e]) = (field? e).or (lastOf field? edits) := by
  unfold lastOf
  cases set : field? e <;> simp [List.filterMap_append, set]

/-- Only edits change a draft. -/
theorem after_eq_foldl (d : Draft) (calls : List Call) :
    d.after calls = (calls.filterMap Call.edit?).foldl edit d := by
  induction calls generalizing d with
  | nil => rfl
  | cons k rest ih =>
    cases k with
    | edit e => exact ih (d.edit e)
    | check | write => exact ih d

/-- Each field of a draft is the last one set, and the comments are all that were added. -/
theorem after_eq (d : Draft) (calls : List Call) :
    d.after calls = {
      description := (lastOf Edit.description? (calls.filterMap Call.edit?)).or d.description
      function := (lastOf Edit.function? (calls.filterMap Call.edit?)).or d.function
      arguments := (lastOf Edit.arguments? (calls.filterMap Call.edit?)).getD d.arguments
      dependencies := (lastOf Edit.dependencies? (calls.filterMap Call.edit?)).getD d.dependencies
      comments := d.comments ++ (calls.filterMap Call.edit?).flatMap Edit.comments } := by
  rw [after_eq_foldl]
  induction calls.filterMap Call.edit? using List.reverseRecOn with
  | nil => simp [lastOf]
  | append_singleton edits e ih =>
    rw [List.foldl_append, List.foldl_cons, List.foldl_nil, ih]
    simp only [lastOf_concat, List.flatMap_append, List.flatMap_singleton]
    cases e <;>
      simp [edit, Edit.description?, Edit.function?, Edit.arguments?, Edit.dependencies?,
        Edit.comments]

/-! ## Section 2: Lines or issues -/

theorem check_eq_error_iff {f : Failure} : d.check = .error f ↔
    ∃ first rest, d.issues = first :: rest ∧ f = .badRecord d.description first rest := by
  unfold check
  cases issues : d.issues with
  | nil => simp
  | cons first rest => simp [eq_comm]

/-- A draft can be written exactly if none of its positions is bad. -/
theorem exists_record_iff : (∃ r, d.check = .ok r) ↔ ∀ p, ¬ d.Bad p := by
  rw [← not_exists, ← issues_ne_nil_iff, not_not, issues_eq_nil_iff]
  simp only [check_eq_ok_iff]

theorem lines_fail_iff : (∃ f, d.lines = .error f) ↔ ∃ p, d.Bad p := by
  simp only [lines_eq_error_iff, check_eq_error_iff, ← issues_ne_nil_iff, List.ne_nil_iff_exists_cons]
  constructor
  · intro h
    obtain ⟨f, first, rest, issues, -⟩ := h
    exact ⟨first, rest, issues⟩
  · intro h
    obtain ⟨first, rest, issues⟩ := h
    exact ⟨_, first, rest, issues, rfl⟩

/-- The lines of a draft without bad positions, piece by piece. -/
theorem lines_eq_ok_iff_good : d.lines = .ok l ↔ (∀ p, ¬ d.Bad p) ∧
    ∃ text name, d.description = some text ∧ d.function = some name ∧
      l = (if d.comments = [] then [] else "" :: d.comments.map ("# " ++ ·)) ++ ["", text] ++
        (if d.dependencies = [] then [] else ["depends_on:" ++ ":".intercalate d.dependencies]) ++
        [name ++ ":" ++ ":".intercalate d.arguments] := by
  -- the pieces of a record are those of the draft that it comes from
  have pieces (r : Record) : r.lines =
      (if r.comments = [] then [] else "" :: r.comments.map ("# " ++ ·)) ++ ["", r.description] ++
        (if r.dependencies = [] then [] else ["depends_on:" ++ ":".intercalate r.dependencies]) ++
        [r.function ++ ":" ++ ":".intercalate r.arguments] := by
    simp [Record.lines, Record.commentLines, Record.bodyLines, Record.dependencyLines,
      Record.callLine]
  rw [lines_eq_ok_iff, ← exists_record_iff]
  constructor
  · intro h
    obtain ⟨r, checked, rfl⟩ := h
    obtain ⟨rfl, -⟩ := check_eq_ok_iff.mp checked
    exact ⟨⟨r, checked⟩, r.description, r.function, rfl, rfl, pieces r⟩
  · intro h
    obtain ⟨⟨r, checked⟩, text, name, hasText, hasName, rfl⟩ := h
    obtain ⟨rfl, -⟩ := check_eq_ok_iff.mp checked
    cases hasText
    cases hasName
    exact ⟨r, checked, (pieces r).symm⟩

theorem singleLine_of_lines (h : d.lines = .ok l) : ∀ line ∈ l, SingleLine line := by
  obtain ⟨r, checked, rfl⟩ := lines_eq_ok_iff.mp h
  obtain ⟨-, complete⟩ := check_eq_ok_iff.mp checked
  exact complete.singleLine_lines

/-- The calls that set all four fields. -/
def setAll (r : Record) : List Call :=
  [.edit (.setDescription r.description), .edit (.setFunction r.function),
    .edit (.setArguments r.arguments), .edit (.setDependencies r.dependencies)]

/-- Only a comment can keep a draft from being written once its fields are set to fit. -/
theorem isOk_setAll_iff (fits : Record.Complete { r with comments := [] }) :
    (d.after (setAll r)).lines.isOk ↔ ∀ s ∈ d.comments, SingleLine s := by
  have built : d.after (setAll r) = ({ r with comments := d.comments } : Record).toDraft := rfl
  rw [isOk_lines_iff, built]
  constructor
  · intro h
    obtain ⟨r', checked⟩ := h
    obtain ⟨same, complete⟩ := check_eq_ok_iff.mp checked
    have comments : r'.comments = d.comments := (congrArg Draft.comments same).symm
    exact comments ▸ complete.comment_line
  · intro line
    exact ⟨_, check_toDraft { fits with comment_line := line }⟩

/-- A draft that is built by any calls holds the last value set for each field and all comments.  It
    is refused exactly if a position is bad, with one issue for each bad position, in the order of
    fields and items, and with the message of the first one; the report lists the issues, each with
    the path of its position.  A refusal changes nothing, so the fields can be set right.  Otherwise
    it is written, each piece in its place and each line unbroken. -/
theorem written_unless_bad (description : Option String) (calls : List Call) :
    let d := ({ description } : Draft).after calls
    let edits := calls.filterMap Call.edit?
    -- what is built
    d.description = (lastOf Edit.description? edits).or description ∧
    d.function = lastOf Edit.function? edits ∧
    d.arguments = (lastOf Edit.arguments? edits).getD [] ∧
    d.dependencies = (lastOf Edit.dependencies? edits).getD [] ∧
    d.comments = edits.flatMap Edit.comments ∧
    -- a refusal
    ((∃ f, d.lines = .error f) ↔ ∃ p, d.Bad p) ∧
    (∀ f, d.lines = .error f → ∃ first rest, f = .badRecord d.description first rest ∧
      f.report? = some ⟨.validation, first.message,
        some ((d.description.map fun s => ("description", Value.str s)).toList ++
          [("issues", .arr ((first :: rest).map Issue.toValue))])⟩ ∧
      (first :: rest).map Issue.path = (d.positions.filter d.Bad).map Position.path ∧
      (first :: rest).map (fun i => i.toValue.field? "path") =
        (d.positions.filter d.Bad).map (fun p => some p.pathValue) ∧
      (∀ i ∈ first :: rest, i.toValue.field? "message" = some (.str i.message)) ∧
      ((first :: rest).map Issue.path).Nodup) ∧
    -- what it leaves
    (∀ k, k.edit? = none → (d.call k).2 = d) ∧
    (∀ r : Record, Record.Complete { r with comments := [] } →
      ((d.after (setAll r)).lines.isOk ↔ ∀ s ∈ d.comments, SingleLine s)) ∧
    -- the lines
    (∀ l, d.lines = .ok l ↔ (∀ p, ¬ d.Bad p) ∧
      ∃ text name, d.description = some text ∧ d.function = some name ∧
        l = (if d.comments = [] then [] else "" :: d.comments.map ("# " ++ ·)) ++ ["", text] ++
          (if d.dependencies = [] then [] else ["depends_on:" ++ ":".intercalate d.dependencies]) ++
          [name ++ ":" ++ ":".intercalate d.arguments]) ∧
    ∀ l, d.lines = .ok l → ∀ line ∈ l, SingleLine line := by
  intro d edits
  have built : d = _ := after_eq { description } calls
  refine ⟨congrArg Draft.description built, (congrArg Draft.function built).trans (Option.or_none),
    congrArg Draft.arguments built, congrArg Draft.dependencies built,
    congrArg Draft.comments built, lines_fail_iff, ?_, ?_, fun r => isOk_setAll_iff,
    fun l => lines_eq_ok_iff_good, fun l => singleLine_of_lines⟩
  · intro f refused
    obtain ⟨first, rest, issues, rfl⟩ := check_eq_error_iff.mp (lines_eq_error_iff.mp refused)
    refine ⟨first, rest, rfl, rfl, ?_⟩
    rw [← issues]
    exact ⟨paths_issues d, reported_paths d, fun i _ => i.field_message, nodup_paths d⟩
  · intro k same
    cases k with
    | edit e => cases same
    | check | write => rfl

/-- A draft that breaks most rules is refused, set right field by field and then written. -/
theorem written_unless_bad_set_right :
    let bad : List Call := [.edit (.setArguments ["1\n", "2", "\r"]), .check,
      .edit (.addComments ["once"]), .edit (.setDependencies ["", "A", "A:B"])]
    let later : List Call := [.edit (.setDescription "sum"), .edit (.setFunction "add"), .write,
      .edit (.setArguments ["1", ""]), .edit (.setDependencies ["A", "B"])]
    (∃ first rest, (({} : Draft).after bad).lines = .error (.badRecord none first rest) ∧
      (Failure.badRecord none first rest).report? = some ⟨.validation, first.message,
        some [("issues", .arr ((first :: rest).map Issue.toValue))]⟩ ∧
      (first :: rest).map (fun i => i.toValue.field? "path") = [
        some (.arr [.str "description"]), some (.arr [.str "function"]),
        some (.arr [.str "arguments", .num 0 0]), some (.arr [.str "arguments", .num 2 0]),
        some (.arr [.str "dependencies", .num 0 0]), some (.arr [.str "dependencies", .num 2 0])]) ∧
      (({} : Draft).after (bad ++ later)).lines =
        .ok ["", "# once", "", "sum", "depends_on:A:B", "add:1:"] := by
  intro bad later
  obtain ⟨-, -, -, -, -, fails, refused, -⟩ := written_unless_bad none bad
  obtain ⟨-, -, -, -, -, -, -, -, -, written, -⟩ := written_unless_bad none (bad ++ later)
  constructor
  · obtain ⟨f, refusal⟩ := fails.mpr ⟨.dependency 2, by decide +kernel⟩
    obtain ⟨first, rest, rfl, report, -, paths, -⟩ := refused f refusal
    have positions : (({} : Draft).after bad).positions.filter (({} : Draft).after bad).Bad =
        [.description, .function, .argument 0, .argument 2, .dependency 0, .dependency 2] := by
      decide +kernel
    rw [positions] at paths
    exact ⟨first, rest, refusal, report, paths⟩
  · refine (written _).mpr ⟨?_, "sum", "add", by decide +kernel, by decide +kernel, by decide +kernel⟩
    intro p there
    have none : ∀ q ∈ (({} : Draft).after (bad ++ later)).positions,
        ¬ (({} : Draft).after (bad ++ later)).Bad q := by decide +kernel
    exact none p there.1 there

end Draft

end CaseGen
