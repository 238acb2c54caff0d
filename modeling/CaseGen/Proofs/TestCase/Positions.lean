import CaseGen.Proofs.TestCase.Complete
import Mathlib.Data.List.Nodup

/-! # The positions of a draft

    Each text of a draft has a position of its own.  A position is bad if
    its text is missing or is not fit to stand there.  Two checks are made
    of some texts, but no text fails both, so that a check of the draft
    gives one issue for each bad position and none for a good one.

    * `TextRule.Exclusive`    — a rule of which no text fails two checks
    * `Draft.Position`        — where a text of a draft stands
    * `Draft.positions`       — the positions of a draft, by field and by index
    * `Draft.Bad`             — the text of the position is missing or unfit
    * `Draft.issues_eq`       — the issues of a draft, position by position
    * `Draft.paths_issues`    — they are those of the bad positions, once each -/

namespace CaseGen

open Text

/-! ## Section 1: Rules with exclusive checks -/

namespace TextRule

variable {rule : TextRule} {s : String}

/-- The text passes all checks of the rule. -/
def Passes (rule : TextRule) (s : String) : Prop := ∀ c ∈ rule.checks, c.holds s = true

/-- No text fails two checks of the rule. -/
def Exclusive (rule : TextRule) : Prop :=
  rule.checks.Pairwise fun c c' => ∀ s, c.holds s = true ∨ c'.holds s = true

/-- A text that passes gives no issue, and any other text gives one. -/
theorem Exclusive.paths (h : rule.Exclusive) (path : List Place) (s : String) :
    (rule.Passes s → rule.textIssues path s = []) ∧
      (¬ rule.Passes s → (rule.textIssues path s).map Issue.path = [path]) := by
  unfold Exclusive at h
  unfold Passes textIssues
  generalize rule.checks = checks at h ⊢
  induction checks with
  | nil => simp
  | cons c rest ih =>
    obtain ⟨others, later⟩ := List.pairwise_cons.mp h
    by_cases holds : c.holds s = true
    · simpa [holds] using ih later
    · -- the check that fails is the only one
      have pass : ∀ c' ∈ rest, c'.holds s = true := by
        intro c' mem
        exact (others c' mem s).resolve_left holds
      have none := (ih later).1 pass
      simp [holds, none]

end TextRule

/-! ## Section 2: Positions -/

namespace Draft

/-- Where a text of a draft stands. -/
inductive Position where
  | description
  | function
  | argument (i : Nat)
  | dependency (i : Nat)
  | comment (i : Nat)
  deriving DecidableEq, Repr

namespace Position

/-- The path that issues give for the position. -/
def path : Position → List Place
  | description => [.field "description"]
  | function => [.field "function"]
  | argument i => [.field "arguments", .index i]
  | dependency i => [.field "dependencies", .index i]
  | comment i => [.field "comments", .index i]

/-- The path as a report shows it. -/
def pathValue : Position → Value
  | description => .arr [.str "description"]
  | function => .arr [.str "function"]
  | argument i => .arr [.str "arguments", .ofNat i]
  | dependency i => .arr [.str "dependencies", .ofNat i]
  | comment i => .arr [.str "comments", .ofNat i]

theorem pathValue_eq (p : Position) : p.pathValue = .arr (p.path.map Place.toValue) := by
  cases p <;> rfl

/-- The text is fit to stand at the position. -/
def Fits : Position → String → Prop
  | description, s => s ≠ "" ∧ SingleLine s
  | function, s => Identifier s
  | argument _, s => SingleLine s
  | dependency _, s => s ≠ "" ∧ SingleItem s
  | comment _, s => SingleLine s

instance (p : Position) (s : String) : Decidable (p.Fits s) := by
  cases p <;> unfold Fits <;> infer_instance

/-- The rule of the field that the position belongs to. -/
def rule : Position → TextRule
  | description => CaseRule.description
  | function => CaseRule.function
  | argument _ => CaseRule.argument
  | dependency _ => CaseRule.dependency
  | comment _ => CaseRule.comment

theorem path_injective {p q : Position} (h : p.path = q.path) : p = q := by
  cases p <;> cases q <;> simp [path] at h ⊢
  all_goals exact h

theorem passes_iff (p : Position) (s : String) : p.rule.Passes s ↔ p.Fits s := by
  cases p <;>
    simp [rule, Fits, TextRule.Passes, CaseRule.description, CaseRule.function, CaseRule.argument,
      CaseRule.dependency, CaseRule.comment]

/-- An empty text has no line break and no colon, so where two checks are made only one of them can
    fail. -/
theorem exclusive (p : Position) : p.rule.Exclusive := by
  have line : SingleLine "" := by decide
  have item : SingleItem "" := by decide
  unfold TextRule.Exclusive
  cases p with
  | description =>
    refine List.pairwise_pair.mpr fun s => ?_
    by_cases empty : s = "" <;> simp [empty, line]
  | dependency i =>
    refine List.pairwise_pair.mpr fun s => ?_
    by_cases empty : s = "" <;> simp [empty, item]
  | function | argument | comment => exact List.pairwise_singleton _ _

end Position

/-- The text at a position, if there is one. -/
def text? (d : Draft) : Position → Option String
  | .description => d.description
  | .function => d.function
  | .argument i => d.arguments[i]?
  | .dependency i => d.dependencies[i]?
  | .comment i => d.comments[i]?

/-- The positions of a draft, in the order of its fields and of the items in a field. -/
def positions (d : Draft) : List Position :=
  [.description, .function] ++ (List.range d.arguments.length).map .argument ++
    (List.range d.dependencies.length).map .dependency ++
    (List.range d.comments.length).map .comment

/-- A position of the draft is bad if its text is missing or is not fit to stand there. -/
def Bad (d : Draft) (p : Position) : Prop := p ∈ d.positions ∧ ∀ s, d.text? p = some s → ¬ p.Fits s

variable {d : Draft} {p : Position}

instance (d : Draft) (p : Position) : Decidable (d.Bad p) :=
  match h : d.text? p with
  | none => decidable_of_iff (p ∈ d.positions) (by simp [Bad, h])
  | some s => decidable_of_iff (p ∈ d.positions ∧ ¬ p.Fits s) (by simp [Bad, h])

theorem nodup_positions (d : Draft) : d.positions.Nodup := by
  have items (n : Nat) {f : Nat → Position} (injective : Function.Injective f) :
      ((List.range n).map f).Nodup := List.Nodup.map injective List.nodup_range
  have arguments := items d.arguments.length (f := .argument) fun _ _ => Position.argument.inj
  have dependencies := items d.dependencies.length (f := .dependency) fun _ _ =>
    Position.dependency.inj
  have comments := items d.comments.length (f := .comment) fun _ _ => Position.comment.inj
  -- what is left is that positions of different fields differ
  simp only [positions, List.nodup_append, List.mem_append, List.mem_map]
  refine ⟨⟨⟨by decide, arguments, ?_⟩, dependencies, ?_⟩, comments, ?_⟩
  all_goals grind

/-! ## Section 3: Issues by position -/

/-- The issues of a list of texts are those of its items. -/
theorem listIssues_ofStrings (rule : TextRule) (path : List Place) (l : List String) :
    rule.listIssues path (some (.ofStrings l)) =
      (List.range l.length).flatMap fun i => rule.issues (path ++ [.index i]) (l[i]?.map .str) := by
  have items : (l.map Value.str).zipIdx.map
      (fun item => rule.issues (path ++ [.index item.2]) (some item.1)) =
      (List.range l.length).map fun i => rule.issues (path ++ [.index i]) (l[i]?.map .str) := by
    apply List.ext_getElem
    · simp
    · intro i h h'
      have lt : i < l.length := by simpa using h'
      simp [lt]
  rw [List.flatMap_def, ← items, ← List.flatMap_def]
  rfl

/-- The issues of a draft are those of its positions, one position after the other. -/
theorem issues_eq (d : Draft) :
    d.issues = d.positions.flatMap fun p => p.rule.issues p.path ((d.text? p).map .str) := by
  simp only [issues, CaseFields.issues, CaseFields.ofDraft, listIssues_ofStrings, positions,
    List.flatMap_append, List.flatMap_map, List.flatMap_cons, List.flatMap_nil, List.append_nil]
  rfl

/-- A bad position gives one issue and any other one none. -/
theorem paths_of_mem (mem : p ∈ d.positions) :
    (p.rule.issues p.path ((d.text? p).map .str)).map Issue.path =
      if d.Bad p then [p.path] else [] := by
  cases text : d.text? p with
  | none =>
    have bad : d.Bad p := ⟨mem, by simp [text]⟩
    rw [if_pos bad]
    rfl
  | some s =>
    obtain ⟨good, bad⟩ := p.exclusive.paths p.path s
    rw [p.passes_iff] at good bad
    have iff : d.Bad p ↔ ¬ p.Fits s := by simp [Bad, mem, text]
    by_cases fits : p.Fits s
    · rw [if_neg (by simpa [iff] using fits)]
      exact congrArg _ (good fits)
    · rw [if_pos (iff.mpr fits)]
      exact bad fits

/-- Each bad position has one issue, in the order of the positions. -/
theorem paths_issues (d : Draft) :
    d.issues.map Issue.path = (d.positions.filter d.Bad).map Position.path := by
  have paths (l : List Position) (sub : ∀ p ∈ l, p ∈ d.positions) :
      (l.flatMap fun p => p.rule.issues p.path ((d.text? p).map .str)).map Issue.path =
        (l.filter d.Bad).map Position.path := by
    induction l with
    | nil => rfl
    | cons p l ih =>
      have rest := ih fun q mem => sub q (List.mem_cons_of_mem p mem)
      rw [List.flatMap_cons, List.map_append, paths_of_mem (sub p List.mem_cons_self), rest]
      by_cases bad : d.Bad p <;> simp [bad]
  rw [issues_eq]
  exact paths d.positions fun p mem => mem

/-- In a report each bad position has one issue, which names it. -/
theorem reported_paths (d : Draft) : d.issues.map (fun i => i.toValue.field? "path") =
    (d.positions.filter d.Bad).map fun p => some p.pathValue := by
  simp only [Issue.field_path, Position.pathValue_eq]
  -- what is shown of a path goes by the path alone
  show d.issues.map ((fun path => some (Value.arr (path.map Place.toValue))) ∘ Issue.path) = _
  rw [← List.map_map, paths_issues, List.map_map]
  rfl

theorem nodup_paths (d : Draft) : (d.issues.map Issue.path).Nodup := by
  rw [paths_issues]
  exact List.Nodup.map (fun p q => Position.path_injective) (d.nodup_positions.filter _)

/-- Something is wrong with a draft exactly if one of its positions is bad. -/
theorem issues_ne_nil_iff : d.issues ≠ [] ↔ ∃ p, d.Bad p := by
  have none : d.issues = [] ↔ d.positions.filter d.Bad = [] := by
    rw [← List.map_eq_nil_iff (f := Issue.path), paths_issues, List.map_eq_nil_iff]
  rw [ne_eq, none, List.filter_eq_nil_iff]
  simp only [decide_eq_true_eq, not_forall, not_not]
  constructor
  · intro h
    obtain ⟨p, -, bad⟩ := h
    exact ⟨p, bad⟩
  · intro h
    obtain ⟨p, bad⟩ := h
    exact ⟨p, bad.1, bad⟩

end Draft

end CaseGen
