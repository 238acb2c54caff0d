import CaseGen.DataFile
import CaseGen.Proofs.TestCase.Complete

/-! # The stages of writing a data file

    A call that writes a data file does one thing after the other: it makes
    the directory, opens the temporary file, writes the header, takes the
    steps of the producer, writes each record that they yield, writes the
    footer and renames the file.  If something goes wrong once the temporary
    file is open, it removes that file and then the directory it has made.
    Stopping the call anywhere leaves it at one of these stages.

    * `WriteStage`        — how far a call has come
    * `WriteCall.advance` — the next file operation, or the next step of the producer
    * `WriteCall.after`   — the call cut after some number of them
    * `WriteCall.exists_after_done_iff` — a call that runs to its end is `writeDataFile` -/

namespace CaseGen

/-- What a call is given: the name of the file, the caller named in its header, and the steps
    of the producer. -/
structure WriteCall where
  filename : String
  caller : String
  steps : List Step

/-- How far a call has come.  `created` leads to the first directory that it has made. -/
inductive WriteStage where
  | begun
  | prepared (created : Option String)
  /-- The temporary file is open and empty. -/
  | opened (created : Option String) (sink : Sink)
  /-- So many records are written, and these steps are left to take. -/
  | pulling (created : Option String) (sink : Sink) (count : Nat) (rest : List Step)
  /-- The temporary file is complete and closed. -/
  | complete (created : Option String) (count : Nat)
  /-- Something went wrong while the temporary file was there. -/
  | broken (created : Option String) (f : Failure)
  /-- The temporary file is removed after a failure. -/
  | cleared (created : Option String) (f : Failure)
  | done (r : Except Failure Nat)

namespace WriteCall

/-- The next operation of a call.  A call that is done stays as it is. -/
def advance (c : WriteCall) : WriteStage × Workspace → WriteStage × Workspace
  | (.begun, w) =>
    match Files.ensureDirectory w.tree (Files.directoryOf c.filename) with
    | (.error e, tree) => (.done (.error (.file e)), { w with tree })
    | (.ok created, tree) => (.prepared created, { w with tree })
  | (.prepared created, w) =>
    match Files.openFile w.tree (temporaryName c.filename) with
    | .error e => (.done (.error (.file e)), w)
    | .ok (path, tree) => (.opened created { path }, { w with tree })
  | (.opened created sink, w) =>
    let (sink, w) := w.append sink (headerLine c.caller ++ "\n")
    (.pulling created sink 0 c.steps, w)
  | (.pulling created sink count [], w) => (.complete created count, (w.append sink footerText).2)
  | (.pulling created sink count (s :: rest), w) =>
    match w.perform s with
    | (.error f, w) => (.broken created f, w)
    | (.ok none, w) => (.pulling created sink count rest, w)
    | (.ok (some d), w) =>
      match d.lines with
      | .error f => (.broken created f, w)
      | .ok lines =>
        let (sink, w) := w.append sink (textOfLines lines)
        (.pulling created sink (count + 1) rest, w)
  | (.complete created count, w) =>
    match w.commit c.filename with
    | (.error f, w) => (.broken created f, w)
    | (.ok (), w) => (.done (.ok count), w)
  | (.broken created f, w) =>
    (.cleared created f, { w with tree := Files.remove w.tree (temporaryName c.filename) })
  | (.cleared none f, w) => (.done (.error f), w)
  | (.cleared (some directory) f, w) =>
    (.done (.error f), { w with tree := Files.removeAll w.tree directory })
  | (.done r, w) => (.done r, w)

/-- The call cut after some number of operations. -/
def after (c : WriteCall) (w : Workspace) : Nat → WriteStage × Workspace
  | 0 => (.begun, w)
  | n + 1 => c.advance (c.after w n)

/-- The whole call. -/
def run (c : WriteCall) (w : Workspace) : Except Failure Nat × Workspace :=
  w.writeDataFile c.filename c.caller c.steps

variable {c : WriteCall} {w v v' : Workspace} {n : Nat} {created : Option String} {sink : Sink}

/-! ## Section 1: A call that runs to its end -/

theorem after_done_add {r : Except Failure Nat} (h : c.after w n = (.done r, v)) (k : Nat) :
    c.after w (n + k) = (.done r, v) := by
  induction k with
  | zero => exact h
  | succ k ih =>
    rw [← Nat.add_assoc, after, ih]
    rfl

/-- A call comes to one end only. -/
theorem after_done_unique {m : Nat} {r r' : Except Failure Nat} (h : c.after w n = (.done r, v))
    (h' : c.after w m = (.done r', v')) : r = r' ∧ v = v' := by
  -- of two ends one comes later, and a call that is done stays as it is
  have same : c.after w (n + m) = c.after w (m + n) := by rw [Nat.add_comm]
  rw [after_done_add h, after_done_add h'] at same
  cases same
  exact ⟨rfl, rfl⟩

/-- Filling the file takes the remaining steps one by one. -/
theorem after_fill {rest : List Step} {count : Nat}
    (h : c.after w n = (.pulling created sink count rest, v)) :
    match v.fill sink count rest with
    | (.ok (sink', total), v') => ∃ m, c.after w m = (.pulling created sink' total [], v')
    | (.error f, v') => ∃ m, c.after w m = (.broken created f, v') := by
  -- each step of the producer takes the call one stage on, with the steps after it left
  induction rest generalizing n sink count v with
  | nil => exact ⟨n, h⟩
  | cons s rest ih =>
    have next : c.after w (n + 1) = c.advance (.pulling created sink count (s :: rest), v) := by
      rw [after, h]
    simp only [advance] at next
    simp only [Workspace.fill]
    rcases taken : v.perform s with ⟨f | d, v'⟩
    · simp only [taken] at next
      exact ⟨n + 1, next⟩
    · cases d with
      | none =>
        simp only [taken] at next
        exact ih next
      | some d =>
        simp only [taken] at next
        cases checked : d.lines with
        | error f =>
          simp only [checked] at next ⊢
          exact ⟨n + 1, next⟩
        | ok lines =>
          simp only [checked] at next ⊢
          exact ih next

/-- What is done with the open file ends with the rename, or with the failure that breaks it. -/
theorem after_writeOpened (h : c.after w n = (.opened created sink, v)) :
    match v.writeOpened sink c.filename c.caller c.steps with
    | (.ok count, v') => ∃ m, c.after w m = (.done (.ok count), v')
    | (.error f, v') => ∃ m, c.after w m = (.broken created f, v') := by
  have first : c.after w (n + 1) = (.pulling created (v.append sink (headerLine c.caller ++ "\n")).1 0
      c.steps, (v.append sink (headerLine c.caller ++ "\n")).2) := by
    rw [after, h]
    rfl
  have filled := after_fill first
  simp only [Workspace.writeOpened]
  rcases taken : (v.append sink (headerLine c.caller ++ "\n")).2.fill
      (v.append sink (headerLine c.caller ++ "\n")).1 0 c.steps with ⟨f | ⟨sink', total⟩, v'⟩
  · simpa only [taken] using filled
  · simp only [taken] at filled
    obtain ⟨m, filled⟩ := filled
    -- two operations are left: the footer and the rename
    have last : c.after w (m + 2) = c.advance (.complete created total, (v'.append sink' footerText).2) := by
      rw [after, after, filled]
      rfl
    simp only [advance] at last
    dsimp only
    rcases moved : (v'.append sink' footerText).2.commit c.filename with ⟨f | ⟨⟩, u⟩
    · simp only [moved] at last
      exact ⟨m + 2, last⟩
    · simp only [moved] at last
      exact ⟨m + 2, last⟩

/-! ## Section 2: A call and its stages -/

section Opened

variable {tree tree' : Files.Tree} {path : Files.Path}

theorem after_ensureDirectory
    (made : Files.ensureDirectory w.tree (Files.directoryOf c.filename) = (.ok created, tree)) :
    c.after w 1 = (.prepared created, { w with tree }) := by
  simp [after, advance, made]

/-- The temporary file is open after two operations. -/
theorem after_openFile
    (made : Files.ensureDirectory w.tree (Files.directoryOf c.filename) = (.ok created, tree))
    (opened : Files.openFile tree (temporaryName c.filename) = .ok (path, tree')) :
    c.after w 2 = (.opened created { path }, { w with tree := tree' }) := by
  rw [after, after_ensureDirectory made]
  simp [advance, opened]

/-- What is made for a call that fails with the temporary file open is taken back. -/
theorem after_broken {f : Failure} (h : c.after w n = (.broken created f, v)) :
    c.after w (n + 2) = (.done (.error f), v.rollBack c.filename created) := by
  rw [after, after, h]
  cases created <;> rfl

/-- A call runs to the end that `writeDataFile` gives. -/
theorem exists_after_run (c : WriteCall) (w : Workspace) :
    ∃ n, c.after w n = (.done (c.run w).1, (c.run w).2) := by
  unfold run Workspace.writeDataFile
  rcases made : Files.ensureDirectory w.tree (Files.directoryOf c.filename) with ⟨e | created, tree⟩
  · exact ⟨1, by simp [after, advance, made]⟩
  · rcases opened : Files.openFile tree (temporaryName c.filename) with e | ⟨path, tree'⟩
    · exact ⟨2, by simp [after, advance, made, opened]⟩
    · have further := after_writeOpened (after_openFile made opened)
      simp only [opened]
      rcases written : ({ w with tree := tree' } : Workspace).writeOpened { path } c.filename
          c.caller c.steps with ⟨f | count, v⟩
      · simp only [written] at further
        obtain ⟨m, broken⟩ := further
        exact ⟨m + 2, after_broken broken⟩
      · simpa only [written] using further

theorem run_of_after_done {r : Except Failure Nat} (h : c.after w n = (.done r, v)) :
    c.run w = (r, v) := by
  obtain ⟨m, ends⟩ := exists_after_run c w
  obtain ⟨hr, hv⟩ := after_done_unique h ends
  exact Prod.ext hr.symm hv.symm

/-- The end of a call is what `writeDataFile` gives. -/
theorem exists_after_done_iff {r : Except Failure Nat} :
    (∃ n, c.after w n = (.done r, v)) ↔ c.run w = (r, v) := by
  constructor
  · intro h
    obtain ⟨n, h⟩ := h
    exact run_of_after_done h
  · intro h
    obtain ⟨n, ends⟩ := exists_after_run c w
    rw [h] at ends
    exact ⟨n, ends⟩

/-- A call that fails with the temporary file open has been broken before. -/
theorem exists_after_broken {f : Failure}
    (made : Files.ensureDirectory w.tree (Files.directoryOf c.filename) = (.ok created, tree))
    (opened : Files.openFile tree (temporaryName c.filename) = .ok (path, tree'))
    (failed : c.run w = (.error f, v)) :
    ∃ n u, c.after w n = (.broken created f, u) ∧ v = u.rollBack c.filename created := by
  have further := after_writeOpened (after_openFile made opened)
  rcases written : ({ w with tree := tree' } : Workspace).writeOpened { path } c.filename
      c.caller c.steps with ⟨f' | count, u⟩
  · simp only [written] at further
    obtain ⟨n, broken⟩ := further
    have ends := run_of_after_done (after_broken broken)
    rw [failed] at ends
    cases ends
    exact ⟨n, u, broken, rfl⟩
  · simp only [written] at further
    obtain ⟨n, done⟩ := further
    have ends := run_of_after_done done
    rw [failed] at ends
    cases ends

end Opened

/-! ## Section 3: Pulls and failures -/

/-- The call takes this step of its producer in the workspace `v`. -/
def Pulls (c : WriteCall) (w : Workspace) (s : Step) (v : Workspace) : Prop :=
  ∃ n created sink count rest, c.after w n = (.pulling created sink count (s :: rest), v)

/-- Whatever steps the call takes, they leave what stands at a path alone. -/
def Spares (c : WriteCall) (w : Workspace) (q : Files.Path) : Prop :=
  ∀ s v, c.Pulls w s v → (v.perform s).2.tree.lookup q = v.tree.lookup q

/-- The next operation fails while the temporary file is open, and leaves the workspace `u`. -/
inductive Fails (c : WriteCall) : WriteStage × Workspace → Failure → Workspace → Prop
  /-- A step of the producer fails. -/
  | step {created sink count s rest v f u} : v.perform s = (.error f, u) →
      Fails c (.pulling created sink count (s :: rest), v) f u
  /-- A test case is not complete. -/
  | record {created sink count s rest v d f u} : v.perform s = (.ok (some d), u) →
      d.check = .error f → Fails c (.pulling created sink count (s :: rest), v) f u
  /-- The complete file cannot be moved to its own name. -/
  | rename {created count v e} :
      Files.rename v.tree (temporaryName c.filename) c.filename = .error e →
      Fails c (.complete created count, v) (.file e) v

/-- A call is broken by nothing but a failing operation. -/
theorem fails_of_advance {x : WriteStage × Workspace} {f : Failure} {u : Workspace}
    (h : c.advance x = (.broken created f, u)) : c.Fails x f u := by
  rcases x with ⟨stage, v⟩
  -- the first operations end the call when they fail, and the last ones cannot fail
  cases stage with
  | begun =>
    simp only [advance] at h
    split at h <;> cases h
  | prepared =>
    simp only [advance] at h
    split at h <;> cases h
  | opened => cases h
  | pulling created' sink count rest =>
    cases rest with
    | nil => cases h
    | cons s rest =>
      rcases taken : v.perform s with ⟨f' | d, v'⟩
      · simp only [advance, taken] at h
        cases h
        exact .step taken
      · cases d with
        | none => simp [advance, taken] at h
        | some d =>
          simp only [advance, taken] at h
          cases checked : d.lines with
          | error f' =>
            simp only [checked] at h
            cases h
            exact .record taken (Draft.lines_eq_error_iff.mp checked)
          | ok lines => simp [checked] at h
  | complete created' count =>
    simp only [advance, Workspace.commit] at h
    cases moved : Files.rename v.tree (temporaryName c.filename) c.filename with
    | error e =>
      simp only [moved] at h
      cases h
      exact .rename moved
    | ok tree => simp [moved] at h
  | broken => cases h
  | cleared created' => cases created' <;> cases h
  | done => cases h

/-- A failing operation breaks the call. -/
theorem advance_of_fails {x : WriteStage × Workspace} {f : Failure} {u : Workspace}
    (h : c.Fails x f u) : ∃ created, c.advance x = (.broken created f, u) := by
  cases h with
  | @step created sink count s rest v f u taken => exact ⟨created, by simp [advance, taken]⟩
  | @record created sink count s rest v d f u taken checked =>
    have lines := Draft.lines_eq_error_iff.mpr checked
    exact ⟨created, by simp [advance, taken, lines]⟩
  | @rename created count v e moved =>
    exact ⟨created, by simp [advance, Workspace.commit, moved]⟩

/-- A call is broken when an operation has failed, and then only. -/
theorem exists_fails_iff {f : Failure} {u : Workspace} :
    (∃ n, c.Fails (c.after w n) f u) ↔ ∃ n created, c.after w n = (.broken created f, u) := by
  constructor
  · intro h
    obtain ⟨n, fails⟩ := h
    obtain ⟨created, broken⟩ := advance_of_fails fails
    exact ⟨n + 1, created, broken⟩
  · intro h
    obtain ⟨n, created, broken⟩ := h
    cases n with
    | zero => cases broken
    | succ n => exact ⟨n, fails_of_advance broken⟩

end WriteCall

end CaseGen
