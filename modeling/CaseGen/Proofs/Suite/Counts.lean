import CaseGen.Proofs.Suite.Agreement
import CaseGen.Proofs.Suite.Selections

/-! # The numbers in data files

    Every call for a target counts the instances that its producer makes,
    and nothing else.  So the numbers in a file go by the calls that came
    before it for targets with the same classes.  If no class is shared by
    two targets, these are the calls for the target of the file alone.

    * `classesOf`          — the classes of the instances that steps make
    * `Step.Makes`         — a step makes an instance, whatever its number
    * `exists_instances`   — the instances of steps, with their numbers
    * `registry_of_ok`, `Passes.registry` — what calls add to the counts
    * `Suite.Separate`     — producers that make instances of their own classes only
    * `Passes.numbers`     — the counts that the file of a target begins with -/

namespace CaseGen

open Files

/-! ## Section 1: The instances of steps -/

/-- The classes that the steps make instances of, once for each instance. -/
def classesOf (l : List Step) : List TargetClass := l.filterMap Step.target?

/-- The registry after instances of these classes are made. -/
def Registry.bumpAll (r : Registry) (cs : List TargetClass) : Registry := cs.foldl bump r

/-- The step makes this instance, whatever number it is given. -/
def Step.Makes (st : Step) (i : Instance) : Prop :=
  ∃ spec, st = .construct i.target spec ∧ i.spec = i.target.specOf spec

variable {r r' : Registry} {l : List Step} {c : TargetClass} {w w' : Workspace}

theorem classesOf_cons (s : Step) (rest : List Step) :
    classesOf (s :: rest) = s.target?.toList ++ classesOf rest := by
  cases target : s.target? <;> simp [classesOf, target]

/-- Drafts that are handed over make no instances. -/
theorem classesOf_yield (ds : List Draft) : classesOf (ds.map .yield) = [] := by
  refine List.filterMap_eq_nil_iff.mpr fun st mem => ?_
  obtain ⟨d, -, rfl⟩ := List.mem_map.mp mem
  rfl

theorem Registry.count_bumpAll (r : Registry) (cs : List TargetClass) (c : TargetClass) :
    (r.bumpAll cs).count c = r.count c + cs.count c := by
  induction cs generalizing r with
  | nil => rfl
  | cons d cs ih =>
    rw [bumpAll, List.foldl_cons]
    refine (ih (r.bump d)).trans ?_
    rw [count_bump, List.count_cons]
    by_cases own : d = c
    · simp [own]
      omega
    · simp [own]

theorem Registry.bumpAll_append (r : Registry) (cs ds : List TargetClass) :
    r.bumpAll (cs ++ ds) = (r.bumpAll cs).bumpAll ds := List.foldl_append

/-- The drafts go by the counts of the classes that the steps make instances of. -/
theorem yielded_of_counts (same : ∀ c ∈ classesOf l, r'.count c = r.count c) :
    yielded r' l = yielded r l := by
  induction l generalizing r r' with
  | nil => rfl
  | cons st l ih =>
    cases st with
    | construct c spec =>
      obtain ⟨own, others⟩ := List.forall_mem_cons.mp same
      have first : (r'.construct c spec).1 = (r.construct c spec).1 := by
        rw [Registry.construct, Registry.construct, own]
      have later : yielded (r'.bump c) l = yielded (r.bump c) l := ih fun d mem => by
        rw [Registry.count_bump, Registry.count_bump, others d mem]
      show (r'.construct c spec).1.draft :: yielded (r'.bump c) l = _
      rw [first, later]
      rfl
    | yield d => exact congrArg (d :: ·) (ih same)
    | fail f => rfl
    | touch | peek | note => exact ih same

/-- Steps that make instances yield their drafts, and each class is numbered without gaps. -/
theorem exists_instances (constructs : ∀ st ∈ l, st.Constructs) (r : Registry) :
    ∃ instances : List Instance, List.Forall₂ Step.Makes l instances ∧
      yielded r l = instances.map Instance.draft ∧
      ∀ c, (instances.filter (·.target = c)).map Instance.number =
        List.range' (r.count c + 1) ((classesOf l).count c) := by
  induction l generalizing r with
  | nil => exact ⟨[], .nil, rfl, fun _ => rfl⟩
  | cons st l ih =>
    obtain ⟨first, others⟩ := List.forall_mem_cons.mp constructs
    cases st with
    | construct d spec =>
      obtain ⟨instances, makes, drafts, numbers⟩ := ih others (r.bump d)
      refine ⟨(r.construct d spec).1 :: instances, .cons ⟨spec, rfl, rfl⟩ makes,
        congrArg _ drafts, fun c => ?_⟩
      have later := numbers c
      rw [Registry.count_bump] at later
      have classes : classesOf (.construct d spec :: l) = d :: classesOf l := rfl
      rw [classes]
      by_cases own : d = c
      · subst own
        rw [if_pos rfl] at later
        rw [List.count_cons_self, List.range'_succ, List.filter_cons_of_pos (by simp [Registry.construct]),
          List.map_cons, later]
        rfl
      · rw [if_neg own, Nat.add_zero] at later
        rw [List.count_cons_of_ne own, List.filter_cons_of_neg (by simp [Registry.construct, own]),
          later]
    | yield | fail | touch | peek | note => cases first

/-! ## Section 2: What calls add to the counts -/

namespace Workspace

/-- A step that is taken counts the instance that it makes. -/
theorem perform_registry {s : Step} {d : Option Draft} (taken : w.perform s = (.ok d, w')) :
    w'.registry = w.registry.bumpAll s.target?.toList := by
  cases s with
  | touch path text =>
    rw [← touch_registry w path text, ← perform_touch, taken]
    rfl
  | fail f => cases taken
  | _ =>
    cases taken
    rfl

theorem bumpAll_of_perform {s : Step} {d : Option Draft} (taken : w.perform s = (.ok d, w'))
    (rest : List Step) : w.registry.bumpAll (classesOf (s :: rest)) =
      w'.registry.bumpAll (classesOf rest) := by
  rw [classesOf_cons, Registry.bumpAll_append, perform_registry taken]

theorem performAll_registry {ds : List Draft} (all : w.performAll l = (.ok ds, w')) :
    w'.registry = w.registry.bumpAll (classesOf l) := by
  induction l generalizing w ds with
  | nil =>
    cases all
    rfl
  | cons s rest ih =>
    rw [performAll] at all
    rcases taken : w.perform s with ⟨f | d, v⟩
    · simp [taken] at all
    · simp only [taken] at all
      rcases others : v.performAll rest with ⟨f | es, u⟩
      · simp [others] at all
      · simp only [others] at all
        cases all
        rw [ih others, bumpAll_of_perform taken]

theorem fill_registry {sink sink' : Sink} {count n : Nat}
    (filled : w.fill sink count l = (.ok (sink', n), w')) :
    w'.registry = w.registry.bumpAll (classesOf l) := by
  induction l generalizing w sink count with
  | nil =>
    cases filled
    rfl
  | cons s rest ih =>
    rw [fill] at filled
    rcases taken : w.perform s with ⟨f | d, v⟩
    · simp [taken] at filled
    · rw [bumpAll_of_perform taken]
      simp only [taken] at filled
      cases d with
      | none => exact ih filled
      | some d =>
        cases lines : d.lines with
        | error f => simp [lines] at filled
        | ok ls =>
          simp only [lines] at filled
          exact ih (w := (v.append sink (textOfLines ls)).2) filled

/-- A data file that is written counts the instances that its steps make. -/
theorem writeDataFile_registry {filename caller : String} {n : Nat}
    (written : w.writeDataFile filename caller l = (.ok n, w')) :
    w'.registry = w.registry.bumpAll (classesOf l) := by
  rcases w.writeDataFile_fills filename caller l with
    ⟨e, t, fails, -⟩ | ⟨t, sink, r, v, filled, -, registry, counted, -⟩
  · rw [fails] at written
    cases written
  · rw [written] at registry counted
    obtain ⟨sink', rfl⟩ := counted n rfl
    rw [registry, fill_registry filled]

end Workspace

/-- A producer that is called has counted, or its steps will count, what its own steps make. -/
theorem Production.call_registry {p : Production} (called : p.call w = (.ok l, w')) :
    w'.registry.bumpAll (classesOf l) = w.registry.bumpAll (classesOf p.steps) := by
  unfold call at called
  split at called
  · rcases all : w.performAll p.steps with ⟨f | ds, u⟩
    · simp [all] at called
    · simp only [all] at called
      cases called
      -- the instances of the drafts are counted already
      rw [classesOf_yield, Workspace.performAll_registry all]
      rfl
  · cases called
    rfl

/-- The classes that the producer of a target makes instances of, once for each instance. -/
def TargetTable.classes {α : Type} (table : TargetTable α) (a : α) (k : String) : List TargetClass :=
  match table.lookup k with
  | some producer => classesOf (producer a).steps
  | none => []

namespace Suite

variable {α : Type} {s : Suite α} {a : α} {k : String} {names : List String} {counts : List Nat}
  {n : Nat}

/-- A call that succeeds counts the instances that the producer of its target makes. -/
theorem registry_of_ok (ok : s.generate w k a = (.ok n, w')) :
    w'.registry = w.registry.bumpAll (s.table.classes a k) := by
  obtain ⟨producer, steps, v, has, called, written⟩ := exists_of_generate_ok ok
  have classes : s.table.classes a k = classesOf (producer a).steps := by
    simp only [TargetTable.classes, has]
  rw [classes, Workspace.writeDataFile_registry written, Production.call_registry called]

/-- Targets that pass count the instances that their producers make, and no others. -/
theorem Passes.registry (passes : s.Passes a w names counts w') :
    w'.registry = w.registry.bumpAll (names.flatMap (s.table.classes a)) := by
  induction passes with
  | nil => rfl
  | cons first _ ih =>
    rw [List.flatMap_cons, Registry.bumpAll_append, ih, registry_of_ok first]

/-! ## Section 3: Targets with classes of their own -/

/-- The producers of the suite only make instances, and no class is shared by two targets. -/
structure Separate (s : Suite α) (a : α) : Prop where
  flat : ∀ k, s.Has k → '/' ∉ k.toList
  constructs : ∀ k producer, s.table.lookup k = some producer →
    ∀ st ∈ (producer a).steps, st.Constructs
  apart : ∀ c k k', c ∈ s.table.classes a k → c ∈ s.table.classes a k' → k' = k

theorem Separate.quiet (h : s.Separate a) : s.Quiet a := by
  intro k producer has st mem writes
  have makes := h.constructs k producer has st mem
  cases st with
  | construct => exact writes
  | _ => exact makes

/-- Of targets in turn only the one that the class belongs to makes instances of it. -/
theorem Separate.count_classes (h : s.Separate a) (own : c ∈ s.table.classes a k)
    (names : List String) : (names.flatMap (s.table.classes a)).count c =
      names.count k * (s.table.classes a k).count c := by
  induction names with
  | nil => simp
  | cons l rest ih =>
    rw [List.flatMap_cons, List.count_append, ih]
    by_cases here : l = k
    · rw [here, List.count_cons_self, Nat.succ_mul, Nat.add_comm]
    · have none : c ∉ s.table.classes a l := fun mem => here (h.apart c k l own mem)
      rw [List.count_cons_of_ne here, List.count_eq_zero_of_not_mem none, Nat.zero_add]

theorem exists_last_mem (mem : k ∈ names) :
    ∃ before after, names = before ++ k :: after ∧ k ∉ after := by
  obtain ⟨after, before, split, last⟩ := List.eq_append_cons_of_mem (List.mem_reverse.mpr mem)
  refine ⟨before.reverse, after.reverse, ?_, by simpa using last⟩
  rw [← List.reverse_reverse names, split]
  simp

/-- The file of a target holds what its producer yields from the counts that the other calls for
    this target have left, whatever else is generated. -/
theorem Passes.numbers (passes : s.Passes a w names counts w') (separate : s.Separate a)
    (mem : k ∈ names) :
    ∃ producer r records, s.table.lookup k = some producer ∧
      (∀ c ∈ classesOf (producer a).steps, r.count c = w.registry.count c +
        (names.count k - 1) * (classesOf (producer a).steps).count c) ∧
      List.Forall₂ (fun d r => d.check = .ok r) (yielded r (producer a).steps) records ∧
      w'.tree.lookup (w.tree.place (s.fileName k)) =
        some (.file (bytesOf (dataFileText s.caller records))) := by
  obtain ⟨before, after, rfl, last⟩ := exists_last_mem mem
  obtain ⟨earlier, v, producer, records, first, has, complete, file⟩ :=
    passes.complete separate.flat last (separate.quiet.leavesAlone _ _)
      (separate.quiet.leavesAlone _ _)
  refine ⟨producer, v.registry, records, has, fun c own => ?_, complete, file⟩
  have classes : s.table.classes a k = classesOf (producer a).steps := by
    simp only [TargetTable.classes, has]
  have others : (before ++ k :: after).count k - 1 = before.count k := by
    rw [List.count_append, List.count_cons_self, List.count_eq_zero_of_not_mem last]
    rfl
  rw [first.registry, Registry.count_bumpAll, others, ← classes]
  exact congrArg _ (separate.count_classes (classes ▸ own) before)

end Suite

end CaseGen
