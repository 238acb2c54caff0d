import CaseGen.Proofs.Command.Listing
import CaseGen.Proofs.Suite.Counts
import CaseGen.Proofs.Suite.Selections

/-! # Targets that are selected again

    Instances are counted as long as a process lives, so a target that is
    generated again goes on where it stopped.  In the constant-time suite
    each class belongs to one target.  The file of a target therefore goes
    by how often a run selects this target, and by nothing else that the
    run does.

    * `ConstantTime.separate`  — targets that make instances of their own classes
    * `FirstRun`               — a run from counts of zero that succeeds
    * `FirstRun.reselect`      — a run that selects some of the same targets succeeds as well
    * `FirstRun.same_file`     — two runs that select a target equally often
    * `numbered_by_own_turns`  — all runs of the constant-time suite -/

namespace CaseGen

open Files

/-! ## Section 1: The constant-time suite -/

namespace ConstantTime

variable {k : String} {sizes : List WordSize} {producer : List WordSize → Production}

/-- The events all make instances of classes that the target is the data file of. -/
def MakesFor (k : String) (events : List Event) : Prop :=
  ∀ e ∈ events, ∃ c spec, e = .make c spec ∧ dataFileOf c = k

theorem makesFor_map {c : TargetClass} (own : dataFileOf c = k) (specs : List CaseSpec) :
    MakesFor k (specs.map (.make c)) := by
  intro e mem
  obtain ⟨spec, -, rfl⟩ := List.mem_map.mp mem
  exact ⟨c, spec, rfl, own⟩

theorem makesFor_family : MakesFor familyTarget (registry.events family) := by
  have events : registry.events family =
      comparisonCases.map (.make comparisons) ++ selectionCases.map (.make selections) := by
    decide +kernel
  rw [events]
  intro e mem
  rcases List.mem_append.mp mem with mem | mem
  · exact makesFor_map (by decide +kernel) _ e mem
  · exact makesFor_map (by decide +kernel) _ e mem

theorem makesFor_sizeMasks (sizes : List WordSize) :
    MakesFor sizeMaskTarget (sizeMaskEvents sizes) := makesFor_map (by decide +kernel) _

/-- All steps of a target make instances of classes that it is the data file of. -/
theorem construct_of_mem {st : Step} (has : table.lookup k = some producer)
    (mem : st ∈ (producer sizes).steps) : ∃ c spec, st = .construct c spec ∧ dataFileOf c = k := by
  have produced : ∃ events, producer sizes = .ofEvents events ∧ MakesFor k events := by
    simp only [table, List.lookup_cons, List.lookup_nil] at has
    split at has
    · next here =>
      cases has
      exact ⟨_, rfl, eq_of_beq here ▸ makesFor_family⟩
    · split at has
      · next here =>
        cases has
        exact ⟨_, rfl, eq_of_beq here ▸ makesFor_sizeMasks sizes⟩
      · cases has
  obtain ⟨events, steps, makes⟩ := produced
  rw [steps] at mem
  obtain ⟨e, made, rfl⟩ := List.mem_map.mp mem
  obtain ⟨c, spec, rfl, own⟩ := makes e made
  exact ⟨c, spec, rfl, own⟩

theorem dataFileOf_of_mem {c : TargetClass} (mem : c ∈ table.classes sizes k) :
    dataFileOf c = k := by
  unfold TargetTable.classes at mem
  cases has : table.lookup k with
  | none => simp [has] at mem
  | some producer =>
    simp only [has] at mem
    obtain ⟨st, made, target⟩ := List.mem_filterMap.mp mem
    obtain ⟨d, spec, rfl, own⟩ := construct_of_mem has made
    cases target
    exact own

/-- Each target of the suite makes instances of its own classes only. -/
theorem separate {suite : Suite (List WordSize)} (suited : suite.table = table)
    (sizes : List WordSize) : suite.Separate sizes where
  flat k has := by
    obtain ⟨producer, has⟩ := has
    have flat : ∀ e ∈ suite.table.map Prod.fst, '/' ∉ e.toList := by
      rw [suited]
      decide
    exact flat k (List.mem_map_of_mem (Suite.mem_table_of_lookup has))
  constructs k producer has st mem := by
    rw [suited] at has
    obtain ⟨c, spec, rfl, -⟩ := construct_of_mem has mem
    trivial
  apart c k k' mem mem' := by
    rw [suited] at mem mem'
    rw [← dataFileOf_of_mem mem, ← dataFileOf_of_mem mem']

end ConstantTime

namespace Command.Job

variable {α : Type} {j : Job α} {suite suite₁ : Suite α} {args args₁ : List String}
  {l l₁ : CommandLine} {s s' s₁ s₁' : Session} {k : String}

/-! ## Section 2: Runs that succeed -/

/-- A run that generates targets while nothing has been counted yet, and succeeds. -/
structure FirstRun (j : Job α) (args : List String) (l : CommandLine) (s s' : Session) : Prop where
  reads : j.read args = .ok l
  generates : l.settings.list = false
  uncounted : ∀ c, s.workspace.registry.count c = 0
  succeeds : j.run args s = (.ok 0, s')

/-- A run that succeeds has a suite. -/
theorem FirstRun.exists_suite (run : j.FirstRun args l s s') :
    ∃ suite, j.suite l.settings = .ok suite := by
  have succeeds := run.succeeds
  cases built : j.suite l.settings with
  | ok suite => exact ⟨suite, rfl⟩
  | error f =>
    simp only [Job.run, carryOut, run.reads, built] at succeeds
    cases message : f.message? with
    | none => simp [message] at succeeds
    | some m => simp [message] at succeeds

/-- The header of the data files names the program. -/
theorem suite_caller (built : j.suite l.settings = .ok suite) : suite.caller = j.program.name := by
  unfold Job.suite Suite.ofOptions Options.resolve at built
  have same : Options.orEmpty (some (l.settings.options j.program)) =
    l.settings.options j.program := rfl
  simp only [same] at built
  cases issues : Options.issues (l.settings.options j.program) with
  | cons first rest =>
    rw [issues] at built
    cases built
  | nil =>
    have caller : (Options.ofValue (l.settings.options j.program)).caller =
        some j.program.name := by
      simp only [Options.ofValue, Options.textField?, field_caller]
    rw [issues] at built
    cases built
    show (Options.ofValue (l.settings.options j.program)).caller.getD _ = _
    rw [caller]
    rfl

/-- From the same session a run also succeeds if it selects some of the same targets. -/
theorem FirstRun.reselect (run : j.FirstRun args l s s') (built : j.suite l.settings = .ok suite)
    (separate : suite.Separate j.context) (reads : j.read args₁ = .ok l₁)
    (generates : l₁.settings.list = false)
    (directory : l₁.settings.directory = l.settings.directory)
    (among : selected suite l₁ ⊆ selected suite l) : ∃ s₁', j.FirstRun args₁ l₁ s s₁' := by
  obtain ⟨counts, passes⟩ := passes_of_run run.reads built run.generates run.succeeds
  obtain ⟨counts', v, passes'⟩ := passes.reselect separate.quiet
    (fun k mem => separate.flat k (passes.has mem)) among
  rw [← suite_congr directory] at built
  exact ⟨_, reads, generates, run.uncounted,
    run_of_ok (carryOut_of_passes reads built generates passes')⟩

/-! ## Section 3: Files and turns -/

/-- The file of a target holds what its producer yields after the other turns of this target. -/
theorem FirstRun.file (run : j.FirstRun args l s s') (built : j.suite l.settings = .ok suite)
    (separate : suite.Separate j.context) (mem : k ∈ selected suite l) :
    ∃ producer r records, j.table.lookup k = some producer ∧
      (∀ c ∈ classesOf (producer j.context).steps, r.count c =
        ((selected suite l).count k - 1) * (classesOf (producer j.context).steps).count c) ∧
      List.Forall₂ (fun d x => d.check = .ok x) (yielded r (producer j.context).steps) records ∧
      s'.workspace.tree.lookup (s.workspace.tree.place (suite.fileName k)) =
        some (.file (bytesOf (dataFileText j.program.name records))) := by
  obtain ⟨counts, passes⟩ := passes_of_run run.reads built run.generates run.succeeds
  obtain ⟨producer, r, records, has, numbers, complete, file⟩ := passes.numbers separate mem
  rw [(suite_table built).1] at has
  rw [suite_caller built] at file
  refine ⟨producer, r, records, has, fun c own => ?_, complete, file⟩
  rw [numbers c own, run.uncounted c, Nat.zero_add]

/-- Two runs that select a target equally often leave the same content in its file. -/
theorem FirstRun.same_file (run : j.FirstRun args l s s') (built : j.suite l.settings = .ok suite)
    (separate : suite.Separate j.context) (run₁ : j.FirstRun args₁ l₁ s₁ s₁')
    (built₁ : j.suite l₁.settings = .ok suite₁) (separate₁ : suite₁.Separate j.context)
    (mem : k ∈ selected suite l)
    (often : (selected suite₁ l₁).count k = (selected suite l).count k) :
    s₁'.workspace.tree.lookup (s₁.workspace.tree.place (suite₁.fileName k)) =
      s'.workspace.tree.lookup (s.workspace.tree.place (suite.fileName k)) := by
  have mem₁ : k ∈ selected suite₁ l₁ := by
    rw [← List.count_pos_iff, often]
    exact List.count_pos_iff.mpr mem
  obtain ⟨producer, r, records, has, numbers, complete, file⟩ := run.file built separate mem
  obtain ⟨producer₁, r₁, records₁, has₁, numbers₁, complete₁, file₁⟩ :=
    run₁.file built₁ separate₁ mem₁
  obtain rfl : producer = producer₁ := Option.some.inj (has.symm.trans has₁)
  -- both files begin with the same counts
  have drafts : yielded r₁ (producer j.context).steps = yielded r (producer j.context).steps :=
    yielded_of_counts fun c own => by rw [numbers₁ c own, numbers c own, often]
  rw [drafts] at complete₁
  rw [file₁, file, Draft.records_unique complete complete₁]

/-- In the constant-time suite the file of a target goes by how often the run has selected this
    target.  Each class of its cases is numbered on from where the other turns of the target have
    stopped: from one if there are none.  Every run that selects the target as often leaves the
    same content, and one that selects nothing else succeeds as well. -/
theorem numbered_by_own_turns {j : Job (List ConstantTime.WordSize)}
    (suited : j.table = ConstantTime.table) (run : j.FirstRun args l s s') :
    ∃ suite, j.suite l.settings = .ok suite ∧ ∀ k ∈ selected suite l,
      ∃ producer instances records, j.table.lookup k = some producer ∧
        -- the cases
        List.Forall₂ Step.Makes (producer j.context).steps instances ∧
        List.Forall₂ (fun i x => i.draft.check = .ok x) instances records ∧
        s'.workspace.tree.lookup (s.workspace.tree.place (suite.fileName k)) =
          some (.file (bytesOf (dataFileText j.program.name records))) ∧
        -- their numbers
        (∀ c, ∃ m, (instances.filter (·.target = c)).map Instance.number =
          List.range' (((selected suite l).count k - 1) * m + 1) m) ∧
        -- runs that select the target as often
        (∀ args₁ l₁ s₁ s₁' suite₁, j.FirstRun args₁ l₁ s₁ s₁' →
          j.suite l₁.settings = .ok suite₁ →
          (selected suite₁ l₁).count k = (selected suite l).count k →
          s₁'.workspace.tree.lookup (s₁.workspace.tree.place (suite₁.fileName k)) =
            s'.workspace.tree.lookup (s.workspace.tree.place (suite.fileName k))) ∧
        -- a run that selects nothing else
        ∀ args₁ l₁, j.read args₁ = .ok l₁ → l₁.settings.list = false →
          l₁.settings.directory = l.settings.directory →
          selected suite l₁ = List.replicate ((selected suite l).count k) k →
          ∃ s₁', j.run args₁ s = (.ok 0, s₁') ∧
            s₁'.workspace.tree.lookup (s.workspace.tree.place (suite.fileName k)) =
              s'.workspace.tree.lookup (s.workspace.tree.place (suite.fileName k)) := by
  obtain ⟨suite, built⟩ := run.exists_suite
  refine ⟨suite, built, fun k mem => ?_⟩
  have separate {l : CommandLine} {suite : Suite (List ConstantTime.WordSize)}
      (built : j.suite l.settings = .ok suite) : suite.Separate j.context :=
    ConstantTime.separate ((suite_table built).1.trans suited) j.context
  obtain ⟨producer, r, records, has, numbers, complete, file⟩ :=
    run.file built (separate built) mem
  obtain ⟨instances, makes, drafts, numbered⟩ := exists_instances
    ((separate built).constructs k producer ((suite_table built).1 ▸ has)) r
  refine ⟨producer, instances, records, has, makes, ?_, file, ?_, ?_, ?_⟩
  · rwa [drafts, List.forall₂_map_left_iff] at complete
  · intro c
    refine ⟨(classesOf (producer j.context).steps).count c, ?_⟩
    rw [numbered c]
    by_cases own : c ∈ classesOf (producer j.context).steps
    · rw [numbers c own]
    · rw [List.count_eq_zero_of_not_mem own]
      rfl
  · intro args₁ l₁ s₁ s₁' suite₁ run₁ built₁ often
    exact run.same_file built (separate built) run₁ built₁ (separate built₁) mem often
  · intro args₁ l₁ reads generates directory alone
    have among : selected suite l₁ ⊆ selected suite l := by
      intro k' mem'
      rw [alone] at mem'
      rw [List.eq_of_mem_replicate mem']
      exact mem
    have often : (selected suite l₁).count k = (selected suite l).count k := by
      rw [alone, List.count_replicate_self]
    obtain ⟨s₁', run₁⟩ := run.reselect built (separate built) reads generates directory among
    have built₁ := (suite_congr directory).trans built
    exact ⟨s₁', run₁.succeeds,
      run.same_file built (separate built) run₁ built₁ (separate built) mem often⟩

/-- The size masks of one word size, selected twice and with the other target in between. -/
theorem numbered_by_own_turns_in_between :
    let j : Job (List ConstantTime.WordSize) := {
      program := .constantTime, table := ConstantTime.table, context := [⟨32, "HAVE_INT32"⟩] }
    let k := ConstantTime.sizeMaskTarget
    let args := [k, "x/" ++ ConstantTime.familyTarget ++ ".data", k ++ ".data"]
    let s' := (j.run args {}).2
    let file := ({} : Tree).place ("tests/suites/" ++ k ++ ".data")
    j.FirstRun args { operands := args } {} s' ∧
      (∃ records, s'.workspace.tree.lookup file =
        some (.file (bytesOf (dataFileText j.program.name records)))) ∧
      ∃ s₁', j.run [k, k] {} = (.ok 0, s₁') ∧
        s₁'.workspace.tree.lookup file = s'.workspace.tree.lookup file := by
  intro j k args s' file
  have run : j.FirstRun args { operands := args } {} s' :=
    ⟨by decide +kernel, rfl, fun _ => rfl, eq_of_toOption (by decide +kernel)⟩
  obtain ⟨suite, built, files⟩ := numbered_by_own_turns rfl run
  obtain rfl : ⟨"tests/suites", "generate-constant-time-tests", ConstantTime.table⟩ = suite :=
    Except.ok.inj built
  obtain ⟨producer, instances, records, -, -, -, content, -, -, alone⟩ :=
    files k (by decide +kernel)
  exact ⟨run, ⟨records, content⟩,
    alone [k, k] { operands := [k, k] } (by decide +kernel) rfl rfl (by decide +kernel)⟩

/-- A target that is selected twice goes on with its numbers, so its file is not the one that it
    has if it is selected once. -/
theorem selected_twice_numbered_on :
    let k := ConstantTime.sizeMaskTarget
    let file := ({} : Tree).place ("tests/suites/" ++ k ++ ".data")
    let once := constantTimeJob.run [k] {}
    let twice := constantTimeJob.run [k, k] {}
    once.1.toOption = some 0 ∧ twice.1.toOption = some 0 ∧
      twice.2.workspace.tree.lookup file ≠ once.2.workspace.tree.lookup file := by
  decide +kernel

end Command.Job

end CaseGen
