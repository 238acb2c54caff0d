import CaseGen.Options
import Mathlib.Data.Option.Basic

/-! # What options are accepted

    Options are given as a value of any shape.  What comes of them depends
    on two fields: each is absent, holds a text that is used, or is wrong in
    one way.  Absent options and null are an object without fields, but a
    field that holds null is wrong.

    * `Options.Accepts`     — the values that are options, with what they say
    * `Options.FieldIssues` — what is found wrong with one field
    * `Options.Faulty`      — the values that are no options, with their issues
    * `resolve_eq_ok_iff`, `resolve_eq_error_iff` — the two outcomes
    * `resolve_reads_directory_and_caller` — the outcomes, the report of a failure, and
      that nothing else of the value is read -/

namespace CaseGen.Options

variable {v : Option Value} {field : Option Value} {fields : List (String × Value)} {name : String}
  {is : List Issue} {o : Options} {f : Failure} {rule : TextRule}

/-! ## Section 1: Values that are options -/

/-- The value gives the options: it is absent, null, or an object whose directory is absent or a
    text and whose caller is absent or a text that is not empty. -/
inductive Accepts : Option Value → Options → Prop
  | absent : Accepts none ⟨"tests/suites", none⟩
  | null : Accepts (some .null) ⟨"tests/suites", none⟩
  | object {fields : List (String × Value)} {directory caller : Option String}
      (path : fields.lookup "directory" = directory.map .str)
      (header : fields.lookup "caller" = caller.map .str) (named : caller ≠ some "") :
      Accepts (some (.obj fields)) ⟨directory.getD "tests/suites", caller⟩

/-- What is found wrong with a field: nothing if it is absent or holds a text, other than an empty
    caller; else one thing. -/
inductive FieldIssues : String → Option Value → List Issue → Prop
  | absent {name : String} : FieldIssues name none []
  | text {name s : String} (named : ¬ (name = "caller" ∧ s = "")) :
      FieldIssues name (some (.str s)) []
  | empty : FieldIssues "caller" (some (.str ""))
      [⟨[.field "caller"], .tooShort 1, "String must contain at least 1 character(s)"⟩]
  | shape {name : String} {v : Value} (other : v.shape ≠ .string) :
      FieldIssues name (some v)
        [⟨[.field name], .wrongShape .string v.shape, "Expected string, received " ++ v.shape.name⟩]

/-- The value gives no options, for these reasons: it is no object, which is one issue, or
    something is wrong with its directory or with its caller. -/
inductive Faulty : Option Value → List Issue → Prop
  | root {v : Value} (given : v.shape ≠ .null) (other : v.shape ≠ .object) :
      Faulty (some v)
        [⟨[], .wrongShape .object v.shape, "Expected object, received " ++ v.shape.name⟩]
  | object {fields : List (String × Value)} {directory caller : List Issue}
      (path : FieldIssues "directory" (fields.lookup "directory") directory)
      (header : FieldIssues "caller" (fields.lookup "caller") caller)
      (wrong : directory ++ caller ≠ []) :
      Faulty (some (.obj fields)) (directory ++ caller)

/-! ## Section 2: Fields -/

/-- A rule finds what is wrong with a field if it does so for texts. -/
theorem optionalIssues_eq_iff (texts : ∀ s, rule.textIssues [.field name] s =
      if name = "caller" ∧ s = "" then
        [⟨[.field "caller"], .tooShort 1, "String must contain at least 1 character(s)"⟩] else []) :
    rule.optionalIssues [.field name] field = is ↔ FieldIssues name field is := by
  constructor
  · intro found
    subst found
    cases field with
    | none => exact .absent
    | some v =>
      cases v with
      | str s =>
        show FieldIssues name (some (.str s)) (rule.textIssues [.field name] s)
        rw [texts]
        split
        next unnamed =>
          obtain ⟨rfl, rfl⟩ := unnamed
          exact .empty
        next named => exact .text named
      | null | bool _ | num _ _ | arr _ | obj _ => exact .shape nofun
  · intro found
    cases found with
    | absent => rfl
    | text named => exact (texts _).trans (if_neg named)
    | empty => exact (texts _).trans (if_pos ⟨rfl, rfl⟩)
    | @shape _ v other =>
      cases v with
      | str s => exact absurd rfl other
      | null | bool _ | num _ _ | arr _ | obj _ => rfl

theorem directoryIssues_eq_iff :
    directoryRule.optionalIssues [.field "directory"] field = is ↔
      FieldIssues "directory" field is := by
  apply optionalIssues_eq_iff
  intro s
  rw [if_neg fun h => absurd h.1 (by decide)]
  rfl

theorem callerIssues_eq_iff :
    callerRule.optionalIssues [.field "caller"] field = is ↔ FieldIssues "caller" field is := by
  apply optionalIssues_eq_iff
  intro s
  by_cases empty : s = ""
  · subst empty
    rfl
  · simp [TextRule.textIssues, callerRule, empty]

/-- Nothing is wrong with a field that is absent or holds a text, other than an empty caller. -/
theorem fieldIssues_nil_iff : FieldIssues name field [] ↔
    ∃ text : Option String, field = text.map .str ∧ ¬ (name = "caller" ∧ text = some "") := by
  constructor
  · intro found
    cases found with
    | absent => exact ⟨none, rfl, by simp⟩
    | @text _ s named => exact ⟨some s, rfl, by simpa using named⟩
  · intro h
    obtain ⟨text, rfl, named⟩ := h
    cases text with
    | none => exact .absent
    | some s => exact .text (by simpa using named)

/-! ## Section 3: Objects -/

theorem issues_obj_eq_iff : issues (.obj fields) = is ↔
    ∃ directory caller, FieldIssues "directory" (fields.lookup "directory") directory ∧
      FieldIssues "caller" (fields.lookup "caller") caller ∧ directory ++ caller = is := by
  constructor
  · intro found
    exact ⟨_, _, directoryIssues_eq_iff.mp rfl, callerIssues_eq_iff.mp rfl, found⟩
  · intro h
    obtain ⟨directory, caller, path, header, rfl⟩ := h
    show _ ++ _ = _
    rw [← directoryIssues_eq_iff.mpr path, ← callerIssues_eq_iff.mpr header]
    rfl

/-- A value that is no object has one issue. -/
theorem issues_of_shape_ne_object {v : Value} (other : v.shape ≠ .object) : issues v =
    [⟨[], .wrongShape .object v.shape, "Expected object, received " ++ v.shape.name⟩] := by
  cases v with
  | obj fields => exact absurd rfl other
  | null | bool _ | num _ _ | str _ | arr _ => rfl

theorem textField?_eq {text : Option String} (holds : fields.lookup name = text.map .str) :
    textField? (.obj fields) name = text := by
  rw [textField?, Value.field?, holds]
  cases text <;> rfl

/-! ## Section 4: The two outcomes -/

theorem resolve_eq_ok_iff_issues :
    resolve v = .ok o ↔ issues (orEmpty v) = [] ∧ ofValue (orEmpty v) = o := by
  cases found : issues (orEmpty v) <;> simp [resolve, found]

theorem resolve_eq_error_iff_issues : resolve v = .error f ↔
    ∃ first rest, f = .badOptions first rest ∧ issues (orEmpty v) = first :: rest := by
  cases found : issues (orEmpty v) with
  | nil => simp [resolve, found]
  | cons first rest =>
    simp only [resolve, found, Except.error.injEq]
    constructor
    · intro failed
      exact ⟨first, rest, failed.symm, rfl⟩
    · intro h
      obtain ⟨_, _, rfl, same⟩ := h
      cases same
      rfl

theorem resolve_eq_ok_iff : resolve v = .ok o ↔ Accepts v o := by
  rw [resolve_eq_ok_iff_issues]
  constructor
  · intro h
    obtain ⟨none, rfl⟩ := h
    cases v with
    | none => exact .absent
    | some v =>
      cases v with
      | null => exact .null
      | obj fields =>
        -- neither field has an issue, so both hold what the options say
        obtain ⟨_, _, path, header, nothing⟩ := issues_obj_eq_iff.mp none
        obtain ⟨rfl, rfl⟩ := List.append_eq_nil_iff.mp nothing
        obtain ⟨directory, path, -⟩ := fieldIssues_nil_iff.mp path
        obtain ⟨caller, header, named⟩ := fieldIssues_nil_iff.mp header
        have options := Accepts.object path header fun empty => named ⟨rfl, empty⟩
        rwa [← textField?_eq path, ← textField?_eq header] at options
      | bool _ | num _ _ | str _ | arr _ => cases none
  · intro accepted
    cases accepted with
    | absent => exact ⟨rfl, rfl⟩
    | null => exact ⟨rfl, rfl⟩
    | @object fields directory caller path header named =>
      constructor
      · refine issues_obj_eq_iff.mpr ⟨[], [], ?_, ?_, rfl⟩
        · exact fieldIssues_nil_iff.mpr ⟨directory, path, by simp⟩
        · exact fieldIssues_nil_iff.mpr ⟨caller, header, fun empty => named empty.2⟩
      · show Options.mk ((textField? (.obj fields) "directory").getD _)
          (textField? (.obj fields) "caller") = _
        rw [textField?_eq path, textField?_eq header]
        rfl

theorem faulty_iff_issues : Faulty v is ↔ is ≠ [] ∧ issues (orEmpty v) = is := by
  constructor
  · intro faulty
    cases faulty with
    | @root v given other =>
      refine ⟨List.cons_ne_nil _ _, ?_⟩
      cases v with
      | null => exact absurd rfl given
      | bool _ | num _ _ | str _ | arr _ | obj _ => exact issues_of_shape_ne_object other
    | object path header wrong => exact ⟨wrong, issues_obj_eq_iff.mpr ⟨_, _, path, header, rfl⟩⟩
  · intro h
    obtain ⟨wrong, rfl⟩ := h
    cases v with
    | none => exact absurd rfl wrong
    | some v =>
      cases v with
      | null => exact absurd rfl wrong
      | obj fields =>
        exact .object (directoryIssues_eq_iff.mp rfl) (callerIssues_eq_iff.mp rfl) wrong
      | bool _ | num _ _ | str _ | arr _ => exact .root nofun nofun

theorem resolve_eq_error_iff : resolve v = .error f ↔
    ∃ first rest, f = .badOptions first rest ∧ Faulty v (first :: rest) := by
  simp only [resolve_eq_error_iff_issues, faulty_iff_issues, ne_eq, reduceCtorEq,
    not_false_eq_true, true_and]

/-- Objects with the same directory and the same caller have the same outcome. -/
theorem resolve_obj_congr {fields' : List (String × Value)}
    (directory : fields.lookup "directory" = fields'.lookup "directory")
    (caller : fields.lookup "caller" = fields'.lookup "caller") :
    resolve (some (.obj fields)) = resolve (some (.obj fields')) := by
  have same : issues (.obj fields) = issues (.obj fields') := by
    simp only [issues, Value.field?, directory, caller]
  have given : ofValue (.obj fields) = ofValue (.obj fields') := by
    simp only [ofValue, textField?, Value.field?, directory, caller]
  simp only [resolve, orEmpty, same, given]

/-- The options of a value are what its directory and its caller say, if nothing is wrong with it;
    else all that is wrong is reported, the first of it in the message; and objects that agree on
    these two fields have the same outcome. -/
theorem resolve_reads_directory_and_caller :
    (∀ v o, resolve v = .ok o ↔ Accepts v o) ∧
    (∀ v f, resolve v = .error f ↔ ∃ first rest, f = .badOptions first rest ∧
      Faulty v (first :: rest) ∧ f.report? = some
        { kind := .configuration
          message := "Invalid generator options: " ++
            ": ".intercalate (first.path.map Place.text ++ [first.message])
          context := some [("issues", .arr ((first :: rest).map Issue.toValue))] }) ∧
    ∀ fields fields' : List (String × Value),
      fields.lookup "directory" = fields'.lookup "directory" →
      fields.lookup "caller" = fields'.lookup "caller" →
        resolve (some (.obj fields)) = resolve (some (.obj fields')) := by
  refine ⟨fun v o => resolve_eq_ok_iff, ?_, fun _ _ => resolve_obj_congr⟩
  intro v f
  rw [resolve_eq_error_iff]
  constructor
  · intro h
    obtain ⟨first, rest, rfl, faulty⟩ := h
    exact ⟨first, rest, rfl, faulty, rfl⟩
  · intro h
    obtain ⟨first, rest, cause, faulty, -⟩ := h
    exact ⟨first, rest, cause, faulty⟩

/-- Both fields are wrong, the caller stands first, and there is a field of another name. -/
theorem resolve_reads_directory_first :
    Faulty (some (.obj [("caller", .str ""), ("list", .null), ("directory", .num 42 0)]))
      [⟨[.field "directory"], .wrongShape .string .number, "Expected string, received number"⟩,
        ⟨[.field "caller"], .tooShort 1, "String must contain at least 1 character(s)"⟩] ∧
    resolve (some (.obj [("caller", .str ""), ("list", .null), ("directory", .num 42 0)])) =
      resolve (some (.obj [("directory", .num 42 0), ("caller", .str "")])) :=
  ⟨@Faulty.object _ [_] [_] (@FieldIssues.shape _ (.num 42 0) nofun) .empty nofun,
    resolve_reads_directory_and_caller.2.2 _ _ rfl rfl⟩

end CaseGen.Options
