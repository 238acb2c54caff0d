import CaseGen.Proofs.Production
import CaseGen.Suite

/-! # Targets in turn

    Targets are generated one after another as long as the calls for them
    succeed.  Either all of them do, or one is the first to fail, and then
    no producer of a later target has any part in what happens.

    * `Suite.Passes`        — the calls for some targets succeed in turn
    * `passes_or_fails`     — all calls succeed, or one is the first to fail
    * `writeDataFile_fills` — where the trace and the counts change while a file is written
    * `Suite.SameUpTo`      — suites that differ in the producers of other targets
    * `Suite.Announces`     — producers that leave a mark when they are called
    * `Passes.called`       — each is called at most once for each time its target comes -/

namespace CaseGen

namespace Suite

variable {α : Type} {s s' : Suite α} {a : α} {w v w' : Workspace} {k : String}
  {names rest : List String} {counts : List Nat} {n : Nat}

/-! ## Section 1: Calls that succeed in turn -/

/-- A call that succeeds has called the producer of its target and has written the file. -/
theorem exists_of_generate_ok (ok : s.generate w k a = (.ok n, w')) :
    ∃ producer steps v, s.table.lookup k = some producer ∧
      (producer a).call w = (.ok steps, v) ∧ s.write v k steps = (.ok n, w') := by
  unfold generate at ok
  cases has : s.table.lookup k with
  | none => simp [has] at ok
  | some producer =>
    rcases called : (producer a).call w with ⟨f | steps, v⟩
    · simp [has, called] at ok
    · simp only [has, called] at ok
      exact ⟨producer, steps, v, rfl, called, ok⟩

/-- The calls for these targets succeed one after another and write these numbers of test
    cases. -/
inductive Passes (s : Suite α) (a : α) : Workspace → List String → List Nat → Workspace → Prop
  | nil {w : Workspace} : Passes s a w [] [] w
  | cons {w v w' : Workspace} {k : String} {n : Nat} {rest : List String} {counts : List Nat}
    (first : s.generate w k a = (.ok n, v)) (later : Passes s a v rest counts w') :
    Passes s a w (k :: rest) (n :: counts) w'

/-- The calls before one of the targets, for this target, and after it succeed. -/
theorem Passes.split {before after : List String}
    (h : s.Passes a w (before ++ k :: after) counts w') :
    ∃ earlier v n v' later, s.Passes a w before earlier v ∧ s.generate v k a = (.ok n, v') ∧
      s.Passes a v' after later w' := by
  induction before generalizing w counts with
  | nil =>
    cases h with
    | cons first later => exact ⟨[], w, _, _, _, .nil, first, later⟩
  | cons l before ih =>
    cases h with
    | cons first rest =>
      obtain ⟨earlier, v, n, v', later, before, here, after⟩ := ih rest
      exact ⟨_ :: earlier, v, n, v', later, .cons first before, here, after⟩

/-- Either all calls succeed, or one of them is the first to fail. -/
theorem passes_or_fails (s : Suite α) (a : α) (w : Workspace) (names : List String) :
    (∃ counts w', s.Passes a w names counts w') ∨
      ∃ before k after counts v f w', names = before ++ k :: after ∧
        s.Passes a w before counts v ∧ s.generate v k a = (.error f, w') := by
  induction names generalizing w with
  | nil => exact .inl ⟨[], w, .nil⟩
  | cons k rest ih =>
    rcases called : s.generate w k a with ⟨f | n, v⟩
    · exact .inr ⟨[], k, rest, [], w, f, v, rfl, .nil, called⟩
    · rcases ih v with ⟨counts, w', later⟩ | ⟨before, l, after, counts, u, f, w', rfl, later, fails⟩
      · exact .inl ⟨n :: counts, w', .cons called later⟩
      · exact .inr ⟨k :: before, l, after, n :: counts, u, f, w', rfl, .cons called later, fails⟩

/-! ## Section 2: The producers of other targets -/

/-- The suites have the same producers for these targets; those of other targets may differ. -/
structure SameUpTo (names : List String) (s s' : Suite α) : Prop where
  directory : s'.directory = s.directory
  caller : s'.caller = s.caller
  producer : ∀ k ∈ names, s'.table.lookup k = s.table.lookup k

/-- A call has to do with the producer of its own target only. -/
theorem SameUpTo.generate (h : SameUpTo names s s') (mem : k ∈ names) (w : Workspace) (a : α) :
    s'.generate w k a = s.generate w k a := by
  have file : s'.fileName k = s.fileName k := by
    simp only [fileName, h.directory]
  simp only [Suite.generate, h.producer k mem, write, file, h.caller]

theorem SameUpTo.mono {more : List String} (h : SameUpTo more s s') (sub : names ⊆ more) :
    SameUpTo names s s' where
  directory := h.directory
  caller := h.caller
  producer k mem := h.producer k (sub mem)

theorem SameUpTo.passes (h : SameUpTo names s s') (passes : s.Passes a w names counts w') :
    s'.Passes a w names counts w' := by
  induction passes with
  | nil => exact .nil
  | cons first _ ih =>
    rw [← h.generate List.mem_cons_self] at first
    exact .cons first (ih (h.mono (List.subset_cons_self _ _)))

end Suite

/-! ## Section 3: What is left in the trace -/

namespace Workspace

variable {w : Workspace} {p : Note → Bool} {l : List Step}

theorem touch_trace (w : Workspace) (path text : String) :
    (w.touch path text).2.trace = w.trace := by
  unfold touch
  rcases Files.ensureDirectory w.tree (Files.directoryOf path) with ⟨e | created, t⟩
  · rfl
  · dsimp only
    cases Files.writeFile t path text <;> rfl

/-- The steps leave nothing in a trace that is looked for. -/
def Silent (p : Note → Bool) (l : List Step) : Prop :=
  ∀ st ∈ l, ∀ w : Workspace, (w.perform st).2.trace.filter p = w.trace.filter p

theorem silent_yield (p : Note → Bool) (ds : List Draft) : Silent p (ds.map .yield) := by
  intro st mem w
  obtain ⟨d, -, rfl⟩ := List.mem_map.mp mem
  rfl

theorem performAll_silent (silent : Silent p l) (w : Workspace) :
    (w.performAll l).2.trace.filter p = w.trace.filter p :=
  performAll_of_perform (R := fun w w' => w'.trace.filter p = w.trace.filter p) (fun _ => rfl)
    (fun _ _ _ first later => later.trans first) silent w

theorem fill_silent (silent : Silent p l) (w : Workspace) (sink : Sink) (count : Nat) :
    (w.fill sink count l).2.trace.filter p = w.trace.filter p := by
  induction l generalizing w sink count with
  | nil => rfl
  | cons s rest ih =>
    have first := silent s List.mem_cons_self w
    have later := ih fun st mem => silent st (List.mem_cons_of_mem s mem)
    rw [fill]
    rcases taken : w.perform s with ⟨f | d, v⟩
    · rw [taken] at first
      exact first
    · rw [taken] at first
      cases d with
      | none => exact (later v sink count).trans first
      | some d =>
        dsimp only
        cases d.lines with
        | error f => exact first
        | ok lines => exact (later _ _ _).trans first

/-- A call fails before its file is open, or it fills the file.  Nothing else that it does has to do
    with the trace or the counts, and it fails for its producer only while the file is filled. -/
theorem writeDataFile_fills (w : Workspace) (filename caller : String) (steps : List Step) :
    (∃ e t, w.writeDataFile filename caller steps = (.error (.file e), { w with tree := t }) ∧
      ∀ created t₁ r, Files.ensureDirectory w.tree (Files.directoryOf filename) = (.ok created, t₁) →
        Files.openFile t₁ (temporaryName filename) ≠ .ok r) ∨
      ∃ (t : Files.Tree) (sink : Sink) (r : Except Failure (Sink × Nat)) (v : Workspace),
        ({ w with tree := t } : Workspace).fill sink 0 steps = (r, v) ∧
        (w.writeDataFile filename caller steps).2.trace = v.trace ∧
        (w.writeDataFile filename caller steps).2.registry = v.registry ∧
        (∀ n, (w.writeDataFile filename caller steps).1 = .ok n → ∃ sink', r = .ok (sink', n)) ∧
        ∀ f, (w.writeDataFile filename caller steps).1 = .error f →
          r = .error f ∨ ∃ e, f = .file e := by
  have rolledBack (v : Workspace) (created : Option String) :
      (v.rollBack filename created).trace = v.trace ∧
        (v.rollBack filename created).registry = v.registry := by
    cases created <;> exact ⟨rfl, rfl⟩
  unfold writeDataFile
  rcases Files.ensureDirectory w.tree (Files.directoryOf filename) with ⟨e | created, t⟩
  · refine .inl ⟨_, _, rfl, ?_⟩
    intro _ _ _ made
    cases made
  · dsimp only
    rcases opens : Files.openFile t (temporaryName filename) with e | ⟨path, t'⟩
    · refine .inl ⟨_, _, rfl, ?_⟩
      intro _ _ _ made opened
      cases made
      rw [opens] at opened
      cases opened
    · -- the header leaves nothing, and neither does the footer or the end of the call
      let opened := Workspace.append { w with tree := t' } { path } (headerLine caller ++ "\n")
      refine .inr ⟨opened.2.tree, opened.1, (opened.2.fill opened.1 0 steps).1,
        (opened.2.fill opened.1 0 steps).2, rfl, ?_⟩
      dsimp only [writeOpened]
      rcases opened.2.fill opened.1 0 steps with ⟨f | ⟨sink, count⟩, u⟩
      · refine ⟨(rolledBack u created).1, (rolledBack u created).2, nofun, ?_⟩
        rintro f ⟨⟩
        exact .inl rfl
      · dsimp only [commit]
        cases Files.rename (u.append sink footerText).2.tree (temporaryName filename) filename with
        | error e =>
          refine ⟨(rolledBack _ created).1, (rolledBack _ created).2, nofun, ?_⟩
          rintro f ⟨⟩
          exact .inr ⟨e, rfl⟩
        | ok tree =>
          refine ⟨rfl, rfl, ?_, nofun⟩
          rintro n ⟨⟩
          exact ⟨sink, rfl⟩

theorem filter_leave {note : Note} (found : p note) (w : Workspace) :
    (w.leave note).trace.filter p = w.trace.filter p ++ [note] := by
  simp [leave, found]

/-- A note is left, and after it nothing that is looked for. -/
theorem performAll_note {text : String} (found : p (.text text)) (silent : Silent p l)
    (w : Workspace) : (w.performAll (.note text :: l)).2.trace.filter p =
      w.trace.filter p ++ [.text text] := by
  have later := performAll_silent silent (w.leave (.text text))
  rw [filter_leave found] at later
  rw [← later, performAll]
  dsimp only [perform]
  rcases (w.leave (.text text)).performAll l with ⟨f | ds, v⟩ <;> rfl

theorem fill_note {text : String} (found : p (.text text)) (silent : Silent p l) (w : Workspace)
    (sink : Sink) (count : Nat) : (w.fill sink count (.note text :: l)).2.trace.filter p =
      w.trace.filter p ++ [.text text] := by
  rw [← filter_leave found]
  exact fill_silent silent (w.leave (.text text)) sink count

/-- A producer leaves what it leaves when it is called or while its file is filled. -/
theorem writeDataFile_silent (silent : Silent p l) (w : Workspace) (filename caller : String) :
    (w.writeDataFile filename caller l).2.trace.filter p = w.trace.filter p := by
  rcases w.writeDataFile_fills filename caller l with
    ⟨e, t, fails, -⟩ | ⟨t, sink, r, v, filled, trace, -⟩
  · rw [fails]
  · have all := fill_silent silent { w with tree := t } sink 0
    rw [filled] at all
    rw [trace, all]

theorem writeDataFile_note {text : String} (found : p (.text text)) (silent : Silent p l)
    (w : Workspace) (filename caller : String) :
    (w.writeDataFile filename caller (.note text :: l)).2.trace.filter p = w.trace.filter p ∨
      (w.writeDataFile filename caller (.note text :: l)).2.trace.filter p =
        w.trace.filter p ++ [.text text] := by
  rcases w.writeDataFile_fills filename caller (.note text :: l) with
    ⟨e, t, fails, -⟩ | ⟨t, sink, r, v, filled, trace, -⟩
  · rw [fails]
    exact .inl rfl
  · have all := fill_note found silent { w with tree := t } sink 0
    rw [filled] at all
    rw [trace, all]
    exact .inr rfl

end Workspace

/-! ## Section 4: Producers that are called -/

namespace Suite

variable {α : Type} {s : Suite α} {a : α} {w w' : Workspace} {k : String} {names : List String}
  {counts : List Nat} {mark : String → String}

/-- Each producer leaves the mark of its target before anything else, and no mark afterwards. -/
def Announces (s : Suite α) (a : α) (mark : String → String) : Prop :=
  ∀ k producer, s.table.lookup k = some producer →
    ∃ rest, (producer a).steps = .note (mark k) :: rest ∧ ∀ l, .note (mark l) ∉ rest

/-- The note is the mark of a target. -/
def isMark (s : Suite α) (mark : String → String) (n : Note) : Bool :=
  n ∈ s.table.map fun e => Note.text (mark e.1)

theorem mem_table_of_lookup {producer : α → Production} (has : s.table.lookup k = some producer) :
    (k, producer) ∈ s.table := by
  obtain ⟨before, after, table, -⟩ := List.lookup_eq_some_iff.mp has
  simp [table]

theorem isMark_of_lookup {producer : α → Production} (has : s.table.lookup k = some producer) :
    s.isMark mark (.text (mark k)) :=
  decide_eq_true <|
    List.mem_map_of_mem (f := fun e => Note.text (mark e.1)) (mem_table_of_lookup has)

/-- Steps that leave no mark are silent as far as marks go. -/
theorem silent_of_not_mem {l : List Step} (none : ∀ k, .note (mark k) ∉ l) :
    Workspace.Silent (s.isMark mark) l := by
  intro st mem w
  cases st with
  | note text =>
    have other : s.isMark mark (.text text) = false := by
      have ne (k : String) : mark k ≠ text := fun same => none k (same ▸ mem)
      simp [isMark, ne]
    show (w.leave (.text text)).trace.filter _ = _
    simp [Workspace.leave, other]
  | peek =>
    show (w.leave (.listing w.tree.listing)).trace.filter _ = _
    simp [Workspace.leave, isMark]
  | touch path text => rw [Workspace.perform_touch, Workspace.touch_trace]
  | yield | construct | fail => rfl

/-- A call leaves the mark of its target once, or not at all if the producer is not reached. -/
theorem generate_marks (announces : s.Announces a mark) (w : Workspace) (k : String) :
    ∃ called, List.Sublist called [k] ∧ (s.generate w k a).2.trace.filter (s.isMark mark) =
      w.trace.filter (s.isMark mark) ++ called.map fun l => Note.text (mark l) := by
  cases has : s.table.lookup k with
  | none =>
    refine ⟨[], List.nil_sublist _, ?_⟩
    simp only [generate, has, List.map_nil, List.append_nil]
  | some producer =>
    obtain ⟨rest, steps, none⟩ := announces k producer has
    have silent := silent_of_not_mem (s := s) none
    have found : s.isMark mark (.text (mark k)) := isMark_of_lookup has
    cases eager : (producer a).eager with
    | true =>
      -- all steps are taken when the producer is called, and the drafts leave nothing
      refine ⟨[k], .refl _, ?_⟩
      have all := Workspace.performAll_note found silent w
      simp only [generate, has, Production.call, eager, if_true, steps]
      rcases taken : w.performAll (.note (mark k) :: rest) with ⟨f | ds, v⟩
      · rw [taken] at all
        exact all
      · rw [taken] at all
        have drafts := Workspace.silent_yield (s.isMark mark) ds
        dsimp only [write]
        rw [Workspace.writeDataFile_silent drafts]
        exact all
    | false =>
      -- the steps are taken one by one once the file is open
      have lazily : s.generate w k a =
          w.writeDataFile (s.fileName k) s.caller (.note (mark k) :: rest) := by
        simp only [generate, has, Production.call, eager, steps, write, Bool.false_eq_true,
          if_false]
      rw [lazily]
      rcases Workspace.writeDataFile_note found silent w (s.fileName k) s.caller with same | marked
      · rw [same]
        exact ⟨[], List.nil_sublist _, (List.append_nil _).symm⟩
      · rw [marked]
        exact ⟨[k], .refl _, rfl⟩

/-- Each producer is called at most once for each time that its target comes, in this order. -/
theorem Passes.called (passes : s.Passes a w names counts w') (announces : s.Announces a mark) :
    ∃ called, List.Sublist called names ∧ w'.trace.filter (s.isMark mark) =
      w.trace.filter (s.isMark mark) ++ called.map fun l => Note.text (mark l) := by
  induction passes with
  | nil => exact ⟨[], .refl _, by simp⟩
  | @cons w v w' k n rest counts first _ ih =>
    obtain ⟨here, once, trace⟩ := generate_marks announces w k
    obtain ⟨others, sub, later⟩ := ih
    rw [first] at trace
    refine ⟨here ++ others, once.append sub, ?_⟩
    rw [later, trace, List.map_append, List.append_assoc]

end Suite

end CaseGen
