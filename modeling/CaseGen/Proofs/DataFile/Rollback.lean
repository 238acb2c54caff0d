import CaseGen.Proofs.DataFile.Course

/-! # Calls that fail

    A call that fails once the temporary file is open takes back what it
    has made: the temporary file, and the first directory it has made with
    everything in it.  What others have written elsewhere stays.

    * `Topmost`           — the place of the first directory that a call makes
    * `Opens.rollBack_eq` — what is taken back after a failure
    * `Opens.restored`    — a call whose producer writes no file leaves no trace -/

namespace CaseGen

open Files

/-! ## Section 1: The first directory -/

/-- Whatever directories one tree has more than another one, they are at `top` or below it. -/
inductive Topmost (t t' : Tree) : Option Path → Prop
  /-- Nothing has been made. -/
  | same : t' = t → Topmost t t' none
  /-- The directory at `top` has been made first. -/
  | made {top : Path} : t.lookup top = none → t'.lookup top = some .directory →
      t'.eraseUnder top = t.eraseUnder top → Topmost t t' (some top)

/-- The tree without what is at a path or below it, if there is a path. -/
def Files.Tree.without (t : Tree) : Option Path → Tree
  | none => t
  | some top => t.eraseUnder top

theorem Topmost.without {t t' : Tree} {top : Option Path} (h : Topmost t t' top) (sound : t.Sound) :
    t'.without top = t := by
  cases h with
  | same eq => exact eq
  | made absent _ eq =>
    show t'.eraseUnder _ = t
    rw [eq, Tree.eraseUnder_eq_self fun q below => sound.below_none absent below]

theorem Files.Tree.without_erase (t : Tree) (p : Path) (top : Option Path) :
    (t.erase p).without top = (t.without top).erase p := by
  cases top with
  | none => rfl
  | some top => exact Tree.eraseUnder_erase t p top

namespace WriteCall

variable {c : WriteCall} {w v w' : Workspace} {n : Nat} {created : Option String} {t₁ t₂ : Tree}
  {tmp : Path} {f : Failure}

/-! ## Section 2: Removal -/

/-- The temporary file is found as long as it is there. -/
theorem Opens.remove {stage : WriteStage} (opens : c.Opens w created t₁ tmp t₂)
    (h : c.after w n = (stage, v)) (file : stage.HasFile) :
    Files.remove v.tree (temporaryName c.filename) = v.tree.erase tmp := by
  -- the directories on its way are still there, and so is the file
  have grows := opens.grows h file
  obtain ⟨parent, name, found, short, place, -, -⟩ := openFile_ok opens.opened
  have opened : t₂.lookup tmp = some (.file []) := by
    rw [openFile_lookup opens.opened, if_pos rfl]
  obtain ⟨content, there⟩ := grows.file tmp [] opened
  subst place
  have all := (openFile_grows opens.opened).trans grows
  exact remove_eq (locate_mono all.home all.directory found) short there

/-- The place of the first directory that was made for the file. -/
theorem Opens.first_absent (opens : c.Opens w created t₁ tmp t₂) :
    ∀ top ∈ created.map t₁.place, w.tree.lookup top = none := by
  intro top mem
  obtain ⟨text, rfl, rfl⟩ := Option.map_eq_some_iff.mp mem
  obtain ⟨parent, name, slash, found, absent, -⟩ := ensureDirectory_some opens.made
  rwa [place_of_locate found]

/-- Without a step upwards, all that was made for the file is in the first of the directories. -/
theorem Opens.topmost (opens : c.Opens w created t₁ tmp t₂) (down : ".." ∉ segments c.filename) :
    Topmost w.tree t₁ (created.map t₁.place) := by
  cases created with
  | none => exact .same (ensureDirectory_none opens.made)
  | some text =>
    obtain ⟨parent, name, slash, found, absent, made, below⟩ := ensureDirectory_some opens.made
    rw [Option.map_some, place_of_locate found]
    exact .made absent made (below (up_not_mem_directoryOf down))

/-- The first directory that was made for the file is found again after a failure. -/
theorem Opens.removeAll {text : String} {stage : WriteStage} (opens : c.Opens w (some text) t₁ tmp t₂)
    (h : c.after w n = (stage, v)) (file : stage.HasFile) :
    Files.removeAll (v.tree.erase tmp) text = (v.tree.erase tmp).eraseUnder (t₁.place text) := by
  obtain ⟨parent, name, slash, found, -⟩ := ensureDirectory_some opens.made
  have all := (openFile_grows opens.opened).trans (opens.grows h file)
  obtain ⟨-, ne⟩ := openFile_place opens.opened
  -- the temporary file is none of the directories on the way
  have keep : ∀ p, t₁.lookup p = some .directory → (v.tree.erase tmp).lookup p = some .directory := by
    intro p there
    rw [Tree.lookup_erase ne, if_neg, all.directory p there]
    rintro rfl
    obtain ⟨_, _, _, _, _, free, _⟩ := openFile_ok opens.opened
    exact free there
  have home : (v.tree.erase tmp).home = t₁.home := all.home
  rw [place_of_locate found]
  exact removeAll_eq (locate_mono home keep found)

/-- A call that is broken removes the temporary file, and then the first directory it has made
    with everything in it. -/
theorem Opens.rollBack_eq {created' : Option String} (opens : c.Opens w created t₁ tmp t₂)
    (h : c.after w n = (.broken created' f, v)) :
    v.rollBack c.filename created' =
      { v with tree := (v.tree.erase tmp).without (created.map t₁.place) } := by
  obtain rfl := opens.created_eq h
  have removed := opens.remove h trivial
  cases created' with
  | none =>
    simp only [Workspace.rollBack, removed]
    rfl
  | some text =>
    simp only [Workspace.rollBack, removed, opens.removeAll h trivial]
    rfl

/-! ## Section 3: What a failure leaves -/

/-- A call that fails has failed in one of its operations, and then takes back what it has made. -/
theorem Opens.error_iff (opens : c.Opens w created t₁ tmp t₂) :
    c.run w = (.error f, w') ↔ ∃ n u, c.Fails (c.after w n) f u ∧
      w' = { u with tree := (u.tree.erase tmp).without (created.map t₁.place) } := by
  constructor
  · intro failed
    obtain ⟨n, u, broken, rfl⟩ := exists_after_broken opens.made opens.opened failed
    obtain ⟨m, fails⟩ := exists_fails_iff.mpr ⟨n, created, broken⟩
    exact ⟨m, u, fails, opens.rollBack_eq broken⟩
  · intro h
    obtain ⟨n, u, fails, rfl⟩ := h
    obtain ⟨m, created', broken⟩ := exists_fails_iff.mp ⟨n, fails⟩
    have ends := after_broken broken
    rw [opens.rollBack_eq broken] at ends
    exact run_of_after_done ends

/-- A call whose producer writes no file leaves the tree as it was when it fails. -/
theorem Opens.restored (opens : c.Opens w created t₁ tmp t₂) (down : ".." ∉ segments c.filename)
    (sound : w.tree.Sound) (quiet : ∀ s ∈ c.steps, ¬ s.WritesFile)
    (absent : w.tree.lookup tmp = none) (failed : c.run w = (.error f, w')) : w'.tree = w.tree := by
  obtain ⟨n, u, broken, rfl⟩ := exists_after_broken opens.made opens.opened failed
  rw [opens.rollBack_eq broken]
  show (u.tree.erase tmp).without _ = w.tree
  -- without the temporary file there is only what was made for it, all of it in the first directory
  rw [opens.erase quiet broken trivial, Tree.without_erase, (opens.topmost down).without sound,
    Tree.erase_eq_self absent]

/-- A call with an open temporary file fails exactly if one of its operations fails, with the
    failure of that operation.  It leaves the tree of that moment without the temporary file and
    without everything at or below the first directory it has made, in which all it has made is.
    If the producer writes no file and there was no temporary file before, that is the tree it
    has found. -/
theorem failed_call_undone (opens : c.Opens w created t₁ tmp t₂)
    (down : ".." ∉ segments c.filename) :
    (∀ f w', w.writeDataFile c.filename c.caller c.steps = (.error f, w') ↔
      ∃ n u, c.Fails (c.after w n) f u ∧
        w' = { u with tree := (u.tree.erase tmp).without (created.map t₁.place) }) ∧
    Topmost w.tree t₁ (created.map t₁.place) ∧
    (w.tree.Sound → (∀ s ∈ c.steps, ¬ s.WritesFile) → w.tree.lookup tmp = none →
      ∀ f w', w.writeDataFile c.filename c.caller c.steps = (.error f, w') → w'.tree = w.tree) :=
  ⟨fun _ _ => opens.error_iff, opens.topmost down, fun sound quiet absent _ _ failed =>
    opens.restored down sound quiet absent failed⟩

/-- A producer that gives up after a record, when the directory of the file had to be made. -/
theorem failed_call_undone_giving_up :
    let w : Workspace := { tree := { entries := [{ path := ["notes"], node := .file [1] }] } }
    let steps : List Step :=
      [.yield { description := some "sum", function := some "add" }, .peek, .fail .noText]
    ∃ w', w.writeDataFile "suite/sums" "testgen" steps = (.error .noText, w') ∧ w'.tree = w.tree := by
  intro w steps
  have opens : (WriteCall.mk "suite/sums" "testgen" steps).Opens w (some "suite")
      (w.tree.insert ["suite"] .directory) ["suite", "sums.new"]
      ((w.tree.insert ["suite"] .directory).insert ["suite", "sums.new"] (.file [])) :=
    ⟨by decide +kernel, by decide +kernel⟩
  have undone := failed_call_undone opens (by decide +kernel)
  have failed : w.writeDataFile "suite/sums" "testgen" steps =
      (.error .noText, (w.writeDataFile "suite/sums" "testgen" steps).2) := Prod.ext (by rfl) (by rfl)
  exact ⟨_, failed, undone.2.2 (by decide +kernel) (by decide +kernel) (by decide +kernel) _ _ failed⟩

end WriteCall

end CaseGen
