import CaseGen.Proofs.DataFile.Rollback

/-! # Directories left behind

    A call makes the directory of its file, with all missing ancestors,
    before it has anything to take back.  If it is refused on the way or
    cannot open the temporary file, whatever it has made stays.  Later it
    takes back the first directory it has made with everything in it, and a
    name that walks upwards may have led it to make others elsewhere.

    * `WriteCall.MadeFor`              — a directory that a call makes on the way to its file
    * `WriteCall.TakenBack`            — it is removed if the call fails
    * `made_directories_after_failure` — exactly these are removed
    * `directories_left_behind`        — it may be none of those that were made -/

namespace CaseGen

open Files

namespace WriteCall

variable {c : WriteCall} {w w' : Workspace} {created : Option String} {t₁ t₂ : Tree} {tmp q : Path}
  {f : Failure}

/-- A directory that the call makes on the way to its file: nothing was there before. -/
def MadeFor (c : WriteCall) (w : Workspace) (q : Path) : Prop :=
  w.tree.lookup q = none ∧
    (ensureDirectory w.tree (directoryOf c.filename)).2.lookup q = some .directory

/-- The temporary file could be opened, and the path is in the first directory made for it. -/
def TakenBack (c : WriteCall) (w : Workspace) (q : Path) : Prop :=
  ∃ created t₁ tmp t₂, c.Opens w created t₁ tmp t₂ ∧ ∃ top ∈ created.map t₁.place, top <+: q

/-- A call that cannot open its temporary file leaves the directories that it has made. -/
theorem tree_of_not_opens (closed : ∀ created t₁ tmp t₂, ¬ c.Opens w created t₁ tmp t₂) :
    (c.run w).2.tree = (ensureDirectory w.tree (directoryOf c.filename)).2 := by
  unfold run Workspace.writeDataFile
  rcases made : ensureDirectory w.tree (directoryOf c.filename) with ⟨e | created, t₁⟩
  · rfl
  · rcases opened : openFile t₁ (temporaryName c.filename) with e | ⟨tmp, t₂⟩
    · simp only [opened]
    · exact absurd ⟨made, opened⟩ (closed created t₁ tmp t₂)

theorem Opens.taken_back_iff (opens : c.Opens w created t₁ tmp t₂) :
    c.TakenBack w q ↔ ∃ top ∈ created.map t₁.place, top <+: q := by
  constructor
  · intro h
    obtain ⟨created', t₁', tmp', t₂', opens', top⟩ := h
    -- a call opens its file in one way only
    have same := opens.made.symm.trans opens'.made
    cases same
    exact top
  · intro top
    exact ⟨created, t₁, tmp, t₂, opens, top⟩

/-- A directory that was made is still there when an operation on the open file fails, unless it is
    taken back. -/
theorem Opens.lookup_of_failed (opens : c.Opens w created t₁ tmp t₂)
    (failed : c.run w = (.error f, w')) (made : t₁.lookup q = some .directory) :
    w'.tree.lookup q =
      if ∃ top ∈ created.map t₁.place, top <+: q then none else some .directory := by
  obtain ⟨n, u, broken, rfl⟩ := exists_after_broken opens.made opens.opened failed
  rw [opens.rollBack_eq broken]
  show ((u.tree.erase tmp).without (created.map t₁.place)).lookup q = _
  -- without the temporary file, which is no directory, it is there
  have there : (u.tree.erase tmp).lookup q = some .directory := by
    have all := (openFile_grows opens.opened).trans (opens.grows broken trivial)
    rw [Tree.lookup_erase (openFile_place opens.opened).2, if_neg, all.directory q made]
    rintro rfl
    obtain ⟨-, -, -, -, -, free, -⟩ := openFile_ok opens.opened
    exact free made
  cases first : created.map t₁.place with
  | none => simpa [Tree.without] using there
  | some top =>
    have absent := opens.first_absent top first
    have ne : top ≠ [] := by
      rintro rfl
      simp at absent
    rw [Tree.without, Tree.lookup_eraseUnder ne, there]
    simp

/-- Without a step upwards, all that was made for an open file is taken back. -/
theorem Opens.taken_back (opens : c.Opens w created t₁ tmp t₂) (down : ".." ∉ segments c.filename)
    (made : c.MadeFor w q) : ∃ top ∈ created.map t₁.place, top <+: q := by
  obtain ⟨absent, there⟩ := made
  rw [opens.made] at there
  rcases first : created.map t₁.place with _ | top
  all_goals
    have topmost := opens.topmost down
    rw [first] at topmost
    cases topmost
  · next same =>
    rw [show t₁ = w.tree from same, absent] at there
    cases there
  · next first_absent _ same =>
    refine ⟨top, rfl, ?_⟩
    by_contra outside
    have ne : top ≠ [] := by
      rintro rfl
      simp at first_absent
    -- outside the first directory both trees are the same
    have := congrArg (Tree.lookup · q) same
    simp only [Tree.lookup_eraseUnder ne, if_neg outside, absent, there] at this
    cases this

/-- When a call fails, of the directories it has made those are gone that are in the first of them,
    if the temporary file could be opened, and all others are left behind.  Nothing is left behind
    if the file could be opened and its name does not walk upwards. -/
theorem made_directories_after_failure
    (failed : w.writeDataFile c.filename c.caller c.steps = (.error f, w')) :
    (∀ q, c.MadeFor w q → (c.TakenBack w q → w'.tree.lookup q = none) ∧
      (¬ c.TakenBack w q → w'.tree.lookup q = some .directory)) ∧
    (".." ∉ segments c.filename → (∃ created t₁ tmp t₂, c.Opens w created t₁ tmp t₂) →
      ∀ q, c.MadeFor w q → c.TakenBack w q) := by
  constructor
  · intro q made
    by_cases opens : ∃ created t₁ tmp t₂, c.Opens w created t₁ tmp t₂
    · obtain ⟨created, t₁, tmp, t₂, opens⟩ := opens
      obtain ⟨-, there⟩ := made
      rw [opens.made] at there
      rw [opens.taken_back_iff, opens.lookup_of_failed failed there]
      exact ⟨fun taken => if_pos taken, fun kept => if_neg kept⟩
    · have closed : ∀ created t₁ tmp t₂, ¬ c.Opens w created t₁ tmp t₂ := by simpa using opens
      have tree := tree_of_not_opens closed
      rw [run, failed] at tree
      refine ⟨?_, ?_⟩
      · intro taken
        obtain ⟨created, t₁, tmp, t₂, opened, -⟩ := taken
        exact absurd opened (closed created t₁ tmp t₂)
      · intro _
        rw [tree]
        exact made.2
  · intro down opens q made
    obtain ⟨created, t₁, tmp, t₂, opens⟩ := opens
    exact opens.taken_back_iff.mpr (opens.taken_back down made)

/-- A name that leaves the first directory made for it: only that one is gone when the producer
    gives up. -/
theorem made_directories_after_failure_upwards :
    let c : WriteCall := ⟨"a/../b/sums", "testgen", [.fail .noText]⟩
    ∃ f w', ({} : Workspace).writeDataFile c.filename c.caller c.steps = (.error f, w') ∧
      w'.tree.lookup ["a"] = none ∧ w'.tree.lookup ["b"] = some .directory := by
  intro c
  have unfinished : (({} : Workspace).writeDataFile c.filename c.caller c.steps).1.toOption = none := by
    decide +kernel
  rcases failed : ({} : Workspace).writeDataFile c.filename c.caller c.steps with ⟨f | count, w'⟩
  · have opens : c.Opens {} (some "a")
        ((({} : Tree).insert ["a"] .directory).insert ["b"] .directory) ["b", "sums.new"]
        (((({} : Tree).insert ["a"] .directory).insert ["b"] .directory).insert ["b", "sums.new"]
          (.file [])) :=
      ⟨by decide +kernel, by decide +kernel⟩
    obtain ⟨left, -⟩ := made_directories_after_failure failed
    refine ⟨f, w', rfl, (left ["a"] ?_).1 ?_, (left ["b"] ?_).2 ?_⟩
    · exact ⟨by decide +kernel, by decide +kernel⟩
    · exact opens.taken_back_iff.mpr (by decide +kernel)
    · exact ⟨by decide +kernel, by decide +kernel⟩
    · exact mt opens.taken_back_iff.mp (by decide +kernel)
  · rw [failed] at unfinished
    cases unfinished

/-- Where a directory is in the place of the temporary file, the directory that was made on the
    way is left behind. -/
theorem directories_left_behind :
    ¬ ∀ (c : WriteCall) (w w' : Workspace) (f : Failure), w.tree.Sound →
      w.writeDataFile c.filename c.caller c.steps = (.error f, w') →
      ∀ q, c.MadeFor w q → w'.tree.lookup q = none := by
  intro claim
  let c : WriteCall := ⟨"suite/../sums", "testgen", []⟩
  let w : Workspace := { tree := { entries := [{ path := ["sums.new"], node := .directory }] } }
  have unfinished : (w.writeDataFile c.filename c.caller c.steps).1.toOption = none := by
    decide +kernel
  have left : (w.writeDataFile c.filename c.caller c.steps).2.tree.lookup ["suite"] =
      some .directory := by
    decide +kernel
  rcases failed : w.writeDataFile c.filename c.caller c.steps with ⟨f | count, w'⟩
  · have gone := claim c w w' f (by decide +kernel) failed ["suite"]
      ⟨by decide +kernel, by decide +kernel⟩
    rw [failed, gone] at left
    cases left
  · rw [failed] at unfinished
    cases unfinished

end WriteCall

end CaseGen
