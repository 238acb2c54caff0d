import CaseGen.Proofs.Command.FirstFailure
import CaseGen.Proofs.Command.Naming
import CaseGen.Proofs.Options
import CaseGen.Proofs.Suite.Written

/-! # The data files that a program lists

    A program that lists its data files names each target once, and does
    nothing else.  What it lists are the files that it writes when it is
    handed no targets, and when it is handed the listed ones.

    * `suite_eq`             — the suite of a program with a name
    * `carryOut_of_list`, `run_of_list` — a command line that lists
    * `passes_of_run`        — a run that succeeds has generated its targets in turn
    * `lists_what_it_writes` — listing, naming and writing agree -/

namespace CaseGen

open Files

/-! ## Section 1: Listing -/

namespace Console

theorem foldl_printLine (c : Console) (lines : List String) :
    lines.foldl printLine c = { c with out := c.out ++ String.join (lines.map (· ++ "\n")) } := by
  induction lines generalizing c with
  | nil => simp
  | cons line rest ih =>
    rw [List.foldl_cons, ih, List.map_cons, String.join_cons, ← String.append_assoc]
    rfl

end Console

namespace Command.Job

variable {α : Type} {j : Job α} {suite : Suite α} {args : List String} {l : CommandLine}
  {s s' : Session}

theorem field_directory (st : Settings) (p : Program) :
    (st.options p).field? "directory" = st.directory.map Value.str := by
  cases directory : st.directory <;>
    simp [Settings.options, directory, Value.field?, List.lookup_cons]

theorem field_caller (st : Settings) (p : Program) :
    (st.options p).field? "caller" = some (.str p.name) := by
  cases directory : st.directory <;>
    simp [Settings.options, directory, Value.field?, List.lookup_cons]

/-- The suite goes by the directory alone. -/
theorem suite_congr {st st' : Settings} (directory : st'.directory = st.directory) :
    j.suite st' = j.suite st := by
  simp only [Job.suite, Settings.options, directory]

/-- A program with a name has a suite for all options. -/
theorem suite_eq (named : j.program.name ≠ "") (st : Settings) :
    j.suite st = .ok ⟨st.directory.getD Options.defaultDirectory, j.program.name, j.table⟩ := by
  have accepted : Options.Accepts (some (st.options j.program))
      ⟨st.directory.getD Options.defaultDirectory, some j.program.name⟩ := by
    apply Options.Accepts.object (field_directory st j.program)
    · exact field_caller st j.program
    · intro empty
      exact named (Option.some.inj empty)
  rw [Job.suite, Suite.ofOptions, Options.resolve_eq_ok_iff.mpr accepted]
  rfl

/-- A command line that lists prints the path text of each data file and does nothing else. -/
theorem carryOut_of_list (reads : j.read args = .ok l)
    (built : j.suite l.settings = .ok suite) (lists : l.settings.list = true) (s : Session) :
    j.carryOut args s = (.ok (), ⟨s.workspace, { s.console.configure (some l.settings.level) with
      out := s.console.out ++ String.join (suite.fileNames.map (· ++ "\n")) }⟩) := by
  simp only [carryOut, reads, built, lists, if_true, list, Console.foldl_printLine]
  rfl

/-- A run that lists has a line for each target. -/
theorem run_of_list (reads : j.read args = .ok l)
    (built : j.suite l.settings = .ok suite) (lists : l.settings.list = true) (s : Session) :
    j.run args s = (.ok 0, ⟨s.workspace, { s.console.configure (some l.settings.level) with
      out := s.console.out ++
        String.join (suite.targetNames.map fun k => suite.fileName k ++ "\n") }⟩) := by
  have lines := run_of_ok (carryOut_of_list reads built lists s)
  rwa [Suite.fileNames, List.map_map] at lines

/-! ## Section 2: Writing -/

/-- A run that succeeds has generated its targets in turn. -/
theorem passes_of_run (reads : j.read args = .ok l)
    (built : j.suite l.settings = .ok suite) (generates : l.settings.list = false)
    (succeeds : j.run args s = (.ok 0, s')) :
    ∃ counts, suite.Passes j.context s.workspace (selected suite l) counts s'.workspace := by
  rcases suite.passes_or_fails j.context s.workspace (selected suite l) with
    ⟨counts, w', passes⟩ | ⟨before, k, after, counts, v, f, w', targets, passes, fails⟩
  · rw [run_of_ok (carryOut_of_passes reads built generates passes)] at succeeds
    cases succeeds
    exact ⟨counts, passes⟩
  · have stops := carryOut_of_fails reads built generates targets passes fails
    cases message : f.message? with
    | none => simp [run, stops, message] at succeeds
    | some m => simp [run_of_failure stops message] at succeeds

/-- The selection decides what is carried out, whatever operands lead to it. -/
theorem carryOut_of_selected {args' : List String} {l' : CommandLine}
    (reads : j.read args = .ok l) (reads' : j.read args' = .ok l')
    (built : j.suite l.settings = .ok suite) (settings : l'.settings = l.settings)
    (same : selected suite l' = selected suite l) (s : Session) :
    j.carryOut args' s = j.carryOut args s := by
  have generated (s : Session) :
      j.generate suite l'.operands s = j.generate suite l.operands s := by
    unfold generate
    rw [show resolveTargets l'.operands suite.targetNames =
      resolveTargets l.operands suite.targetNames from same]
  simp only [carryOut, reads, reads', settings, built, generated]

/-! ## Section 3: Both agree -/

/-- A program lists the path text of the data file of each target, once and in the order of the
    targets, and does nothing else.  These path texts name all targets, just as no text does, and
    a run on all targets leaves files at these path texts and nowhere else. -/
theorem lists_what_it_writes (reads : j.read args = .ok l)
    (named : j.program.name ≠ "") (flat : ∀ k ∈ j.table.map Prod.fst, '/' ∉ k.toList)
    (s : Session) :
    ∃ suite : Suite α, j.suite l.settings = .ok suite ∧ suite.table = j.table ∧
      suite.directory = l.settings.directory.getD Options.defaultDirectory ∧
      -- the targets
      suite.targetNames.Perm (j.table.map Prod.fst) ∧ Text.Sorted id suite.targetNames ∧
      (∀ k ∈ suite.targetNames, ∀ k' ∈ suite.targetNames,
        suite.fileName k = suite.fileName k' → k = k') ∧
      -- listing
      (l.settings.list = true →
        j.run args s = (.ok 0, ⟨s.workspace, { s.console.configure (some l.settings.level) with
          out := s.console.out ++
            String.join (suite.targetNames.map fun k => suite.fileName k ++ "\n") }⟩) ∧
        ∀ table context, table.map Prod.fst = j.table.map Prod.fst →
          ({ j with table, context } : Job α).run args s = j.run args s) ∧
      -- naming
      resolveTargets suite.fileNames suite.targetNames = suite.targetNames ∧
      resolveTargets [] suite.targetNames = suite.targetNames ∧
      (∀ args₁ args₂, j.read args₁ = .ok { l with operands := [] } →
        j.read args₂ = .ok { l with operands := suite.fileNames } →
        j.carryOut args₂ s = j.carryOut args₁ s ∧ j.run args₂ s = j.run args₁ s) ∧
      (j.read = CommandLine.read → (∀ arg ∈ args, (readArgument arg).2 ≠ .noMoreOptions) →
        l.operands = [] → j.read (args ++ "--" :: suite.fileNames) =
          .ok { l with operands := suite.fileNames }) ∧
      -- writing
      (l.settings.list = false → l.operands = [] ∨ l.operands = suite.fileNames →
        ∀ s', j.run args s = (.ok 0, s') →
        (∀ k ∈ suite.targetNames, ∃ content, s'.workspace.tree.lookup
          (s.workspace.tree.place (suite.fileName k)) = some (.file content)) ∧
        (∀ before k after, suite.targetNames = before ++ k :: after → k ∉ after →
          suite.LeavesAlone j.context s.workspace.tree
            (s.workspace.tree.place (suite.fileName k)) →
          suite.LeavesAlone j.context s.workspace.tree
            (s.workspace.tree.place (temporaryName (suite.fileName k))) →
          ∃ earlier v producer records,
            suite.Passes j.context s.workspace before earlier v ∧
            suite.table.lookup k = some producer ∧
            List.Forall₂ (fun d r => d.check = .ok r)
              (yielded v.registry (producer j.context).steps) records ∧
            s'.workspace.tree.lookup (s.workspace.tree.place (suite.fileName k)) =
              some (.file (bytesOf (dataFileText j.program.name records)))) ∧
        (∀ q content, suite.LeavesAlone j.context s.workspace.tree q →
          s'.workspace.tree.lookup q = some (.file content) →
          s.workspace.tree.lookup q = some (.file content) ∨
            ∃ k ∈ suite.targetNames, q = s.workspace.tree.place (suite.fileName k))) := by
  let suite : Suite α :=
    ⟨l.settings.directory.getD Options.defaultDirectory, j.program.name, j.table⟩
  have built : j.suite l.settings = .ok suite := suite_eq named l.settings
  have perm : suite.targetNames.Perm (j.table.map Prod.fst) := Text.sortBy_perm id _
  have flat' : ∀ k ∈ suite.targetNames, '/' ∉ k.toList := fun k mem =>
    flat k (perm.mem_iff.mp mem)
  have byFiles := suite.resolveTargets_fileNames flat'
  have byNone := suite.resolveTargets_none
  refine ⟨suite, built, rfl, rfl, perm, Text.Sorted.sortBy id _, ?_, ?_, byFiles, byNone,
    ?_, ?_, ?_⟩
  · intro k hk k' hk' same
    rw [← suite.normalizeName_fileName (flat' k hk), same,
      suite.normalizeName_fileName (flat' k' hk')]
  · intro lists
    have own := run_of_list reads built lists s
    refine ⟨own, ?_⟩
    intro table context keys
    let other : Job α := { j with table, context }
    have built' := suite_eq (j := other) named l.settings
    have listed := run_of_list (j := other) reads built' lists s
    rw [Suite.targetNames, keys] at listed
    exact listed.trans own.symm
  · intro args₁ args₂ reads₁ reads₂
    have same := carryOut_of_selected reads₁ reads₂ built rfl (byFiles.trans byNone.symm) s
    refine ⟨same, ?_⟩
    rw [run, run, same]
  · intro reader goesOn none
    rw [reader] at reads ⊢
    rw [CommandLine.read_append suite.fileNames goesOn reads, none, List.nil_append]
  · intro generates operands s' succeeds
    have all : selected suite l = suite.targetNames := by
      rcases operands with none | files
      · rw [selected, none, byNone]
      · rw [selected, files, byFiles]
    obtain ⟨counts, passes⟩ := passes_of_run reads built generates succeeds
    rw [all] at passes
    have flat'' : ∀ k, suite.Has k → '/' ∉ k.toList := by
      intro k has
      obtain ⟨producer, found⟩ := has
      exact flat k (List.mem_map_of_mem (Suite.mem_table_of_lookup found))
    refine ⟨fun k mem => passes.file flat'' mem, ?_, ?_⟩
    · intro before k after split last alone alone'
      rw [split] at passes
      exact passes.complete flat'' last alone alone'
    · intro q content alone there
      by_cases listed : ∃ k ∈ suite.targetNames, q = s.workspace.tree.place (suite.fileName k)
      · exact .inr listed
      · exact .inl (passes.other alone (fun k mem same => listed ⟨k, mem, same⟩) there)

/-- Targets named by nothing, by a dash, and by a name that ends like a data file. -/
theorem lists_what_it_writes_odd_names :
    let producer : Unit → Production := fun _ => { steps := [] }
    let table := [("sum.data", producer), ("-", producer), ("", producer)]
    let j : Job Unit := { program := .default, table, context := () }
    let files := ["a/.data", "a/-.data", "a/sum.data.data"]
    j.run ["--list", "-d", "a/", "-"] {} =
        (.ok 0, ⟨{}, { out := "a/.data\na/-.data\na/sum.data.data\n" }⟩) ∧
      j.run (["-d", "a/"] ++ "--" :: files) {} = j.run ["-d", "a/"] {} := by
  intro producer table j files
  have flat : ∀ k ∈ j.table.map Prod.fst, '/' ∉ k.toList := by decide
  have lists : j.read ["--list", "-d", "a/", "-"] =
      .ok { settings := { list := true, directory := some "a/" }, operands := ["-"] } := by
    decide +kernel
  have writes : j.read ["-d", "a/"] =
      .ok { settings := { directory := some "a/" } } := by decide +kernel
  constructor
  · obtain ⟨suite, built, -, -, -, -, -, listing, -⟩ :=
      lists_what_it_writes (j := j) lists (by decide) flat {}
    cases built
    obtain ⟨printed, -⟩ := listing rfl
    have lines : ({ out := "" ++ String.join ((Suite.targetNames ⟨"a/", "testgen", j.table⟩).map
        fun k => Suite.fileName ⟨"a/", "testgen", j.table⟩ k ++ "\n") } : Console) =
          { out := "a/.data\na/-.data\na/sum.data.data\n" } := by decide +kernel
    rw [← lines]
    exact printed
  · obtain ⟨suite, built, -, -, -, -, -, -, -, -, same, again, -⟩ :=
      lists_what_it_writes (j := j) writes (by decide) flat {}
    cases built
    have listed : Suite.fileNames ⟨"a/", "testgen", j.table⟩ = files := by decide +kernel
    have reads := again rfl (by decide +kernel) rfl
    obtain ⟨-, run⟩ := same _ _ writes reads
    rw [← listed]
    exact run

end Command.Job

end CaseGen
