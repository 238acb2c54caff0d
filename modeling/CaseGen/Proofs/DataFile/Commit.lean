import CaseGen.Proofs.DataFile.Names
import CaseGen.Proofs.DataFile.Rollback

/-! # Calls that commit

    A data file appears under its own name at once and complete, by the
    rename at the end of a call.  Wherever the call is cut before that, its
    own name leads to what it led to before, and the temporary file holds
    the records written so far.

    * `WriteCall.KeptOrMade`   — what may happen to a path besides the file and its temporary one
    * `Opens.closing`          — how a call leaves the temporary file
    * `WriteCall.Cut`          — what is there when a call is cut
    * `commit_protocol`        — it holds at every cut, and a call goes through if it can -/

namespace CaseGen

open Files

namespace WriteCall

variable {c : WriteCall} {w v w' : Workspace} {n : Nat} {created : Option String} {t₁ t₂ : Tree}
  {tmp : Path} {records : List Record}

/-! ## Section 1: After the temporary file -/

/-- The call is over, or at least has the temporary file behind it, and this is how. -/
def Closing (c : WriteCall) (w : Workspace) (created : Option String) (t₁ : Tree) (tmp : Path) :
    WriteStage × Workspace → Prop
  | (.cleared created' f, v) => created' = created ∧
      ∃ m u, c.after w m = (.broken created f, u) ∧ v = { u with tree := u.tree.erase tmp }
  | (.done (.error f), v) => ∃ m u, c.after w m = (.broken created f, u) ∧
      v = { u with tree := (u.tree.erase tmp).without (created.map t₁.place) }
  | (.done (.ok count), v) => ∃ m u tree, c.after w m = (.complete created count, u) ∧
      Files.rename u.tree (temporaryName c.filename) c.filename = .ok tree ∧ v = { u with tree }
  | _ => True

/-- A call comes to an end by the rename, or it removes what it has made. -/
theorem Opens.closing (opens : c.Opens w created t₁ tmp t₂) (n : Nat) :
    c.Closing w created t₁ tmp (c.after w n) := by
  -- only the rename and the two removals have something to show; before them nothing is claimed
  induction n with
  | zero => trivial
  | succ n ih =>
    have known := opens.known n
    rw [after]
    rcases h : c.after w n with ⟨stage, v⟩
    rw [h] at ih known
    cases stage with
    | begun =>
      obtain rfl : v = w := known
      simp only [advance, opens.made]
      trivial
    | prepared =>
      obtain ⟨rfl, rfl⟩ := known
      simp only [advance, opens.opened]
      trivial
    | opened => trivial
    | pulling created' sink count rest =>
      cases rest with
      | nil => trivial
      | cons s rest =>
        rcases taken : v.perform s with ⟨f | d, v'⟩
        · simp only [advance, taken]
          trivial
        · cases d with
          | none =>
            simp only [advance, taken]
            trivial
          | some d =>
            simp only [advance, taken]
            cases d.lines <;> trivial
    | complete created' count =>
      obtain ⟨rfl, -⟩ := known
      simp only [advance, Workspace.commit]
      cases moved : Files.rename v.tree (temporaryName c.filename) c.filename with
      | error e => trivial
      | ok tree => exact ⟨n, v, tree, h, moved, rfl⟩
    | broken created' f =>
      obtain ⟨rfl, -⟩ := known
      refine ⟨rfl, n, v, h, ?_⟩
      rw [opens.remove h trivial]
    | cleared created' f =>
      obtain ⟨rfl, m, u, broken, rfl⟩ := ih
      -- the directory is removed if there is one to remove
      cases created' with
      | none => exact ⟨m, u, broken, rfl⟩
      | some text =>
        refine ⟨m, u, broken, ?_⟩
        rw [opens.removeAll broken trivial]
        rfl
    | done r => exact ih

/-- A call that cannot open its temporary file stops at once. -/
theorem stops_or_opens (c : WriteCall) (w : Workspace) :
    (∃ created t₁ tmp t₂, c.Opens w created t₁ tmp t₂) ∨
      ∀ n, ((c.after w n).2.tree = w.tree ∨
          (c.after w n).2.tree = (ensureDirectory w.tree (directoryOf c.filename)).2) ∧
        ¬ (c.after w n).1.HasFile ∧ ∀ count, (c.after w n).1 ≠ .done (.ok count) := by
  rcases made : ensureDirectory w.tree (directoryOf c.filename) with ⟨e | created, t₁⟩
  · right
    intro n
    have first : c.after w 1 = (.done (.error (.file e)), { w with tree := t₁ }) := by
      simp [after, advance, made]
    rcases n with _ | n
    · exact ⟨.inl rfl, id, by rintro _ ⟨⟩⟩
    · rw [Nat.add_comm, after_done_add first]
      exact ⟨.inr rfl, id, by rintro _ ⟨⟩⟩
  · rcases opened : openFile t₁ (temporaryName c.filename) with e | ⟨tmp, t₂⟩
    · right
      intro n
      have second : c.after w 2 = (.done (.error (.file e)), { w with tree := t₁ }) := by
        rw [after, after_ensureDirectory made]
        simp [advance, opened]
      rcases n with _ | _ | n
      · exact ⟨.inl rfl, id, by rintro _ ⟨⟩⟩
      · rw [after_ensureDirectory made]
        exact ⟨.inr rfl, id, by rintro _ ⟨⟩⟩
      · rw [Nat.add_assoc, Nat.add_comm, after_done_add second]
        exact ⟨.inr rfl, id, by rintro _ ⟨⟩⟩
    · exact .inl ⟨created, t₁, tmp, t₂, made, opened⟩

/-- The home of a tree does not change while the temporary file is there. -/
theorem Opens.home_eq {stage : WriteStage} (opens : c.Opens w created t₁ tmp t₂)
    (h : c.after w n = (stage, v)) (file : stage.HasFile) : v.tree.home = w.tree.home := by
  have opened := opens.made_grows.trans (openFile_grows opens.opened)
  exact (opened.trans (opens.grows h file)).home

/-! ## Section 2: What a call leaves alone -/

/-- A call that comes as far as the temporary file, or to a good end, has opened that file. -/
theorem exists_opens {stage : WriteStage} (h : c.after w n = (stage, v))
    (far : stage.HasFile ∨ ∃ count, stage = .done (.ok count)) :
    ∃ created t₁ tmp t₂, c.Opens w created t₁ tmp t₂ := by
  rcases stops_or_opens c w with opens | stops
  · exact opens
  · obtain ⟨-, noFile, unfinished⟩ := stops n
    rw [h] at noFile unfinished
    rcases far with file | ⟨count, done⟩
    · exact absurd file noFile
    · exact absurd done (unfinished count)

/-- A step is taken from the producer, and the home of the tree is still the same. -/
theorem mem_steps_of_pulls {s : Step} (h : c.Pulls w s v) :
    s ∈ c.steps ∧ v.tree.home = w.tree.home := by
  obtain ⟨n, created', sink, count, rest, pulling⟩ := h
  obtain ⟨created, t₁, tmp, t₂, opens⟩ := exists_opens pulling (.inl trivial)
  exact ⟨opens.mem_of_pulls ⟨n, created', sink, count, rest, pulling⟩,
    opens.home_eq pulling trivial⟩

/-- A path is left alone if it is not on the way of any file that the producer writes. -/
theorem spares_of_touches {q : Path} (off : ∀ path text, Step.touch path text ∈ c.steps →
    q ∉ visited (startOf w.tree path) (segments path)) : c.Spares w q := by
  intro s v pulled
  obtain ⟨mem, home⟩ := mem_steps_of_pulls pulled
  cases s with
  | touch path text =>
    rw [Workspace.perform_touch]
    refine Workspace.touch_lookup ?_
    rw [startOf_congr home Iff.rfl]
    exact off path text mem
  | _ => rfl

/-- A path keeps what it held, or it held nothing and is a directory now that has been made for
    the file. -/
def KeptOrMade (c : WriteCall) (w : Workspace) (t : Tree) (q : Path) : Prop :=
  t.lookup q = w.tree.lookup q ∨ (w.tree.lookup q = none ∧ t.lookup q = some .directory ∧
    q ∈ visited (startOf w.tree c.filename) (segments (directoryOf c.filename)))

theorem keptOrMade_ensureDirectory (c : WriteCall) (w : Workspace) (q : Path) :
    c.KeptOrMade w (ensureDirectory w.tree (directoryOf c.filename)).2 q := by
  have start : startOf w.tree (directoryOf c.filename) = startOf w.tree c.filename :=
    startOf_congr rfl (directoryOf_head? c.filename)
  rw [KeptOrMade, ← start]
  exact ensureDirectory_lookup w.tree _ q

theorem Opens.keptOrMade (opens : c.Opens w created t₁ tmp t₂) (q : Path) : c.KeptOrMade w t₁ q := by
  have := keptOrMade_ensureDirectory c w q
  rwa [opens.made] at this

theorem KeptOrMade.congr {t t' : Tree} {q : Path} (h : c.KeptOrMade w t q)
    (same : t'.lookup q = t.lookup q) : c.KeptOrMade w t' q := by
  rwa [KeptOrMade, same]

/-- What is taken back with the first directory was not there before. -/
theorem Opens.keptOrMade_without {t : Tree} {q : Path} (opens : c.Opens w created t₁ tmp t₂)
    (sound : w.tree.Sound) (h : c.KeptOrMade w t q) :
    c.KeptOrMade w (t.without (created.map t₁.place)) q := by
  have first := opens.first_absent
  cases top : created.map t₁.place with
  | none => exact h
  | some top' =>
    have absent := first top' top
    have ne : top' ≠ [] := by
      rintro rfl
      simp at absent
    -- a path below the first directory is as empty as it was before
    by_cases below : top' <+: q
    · left
      show (t.eraseUnder top').lookup q = _
      rw [Tree.lookup_eraseUnder ne, if_pos below, sound.below_none absent below]
    · refine h.congr ?_
      show (t.eraseUnder top').lookup q = _
      rw [Tree.lookup_eraseUnder ne, if_neg below]

/-- Before the rename and after a failure, a path that the producer leaves alone keeps what it
    held, unless a directory was made there. -/
theorem keptOrMade_of_not_done {q : Path} (sound : w.tree.Sound) (spares : c.Spares w q)
    (ne : q ≠ w.tree.place (temporaryName c.filename)) {stage : WriteStage}
    (h : c.after w n = (stage, v)) (unfinished : ∀ count, stage ≠ .done (.ok count)) :
    c.KeptOrMade w v.tree q := by
  rcases stops_or_opens c w with ⟨created, t₁, tmp, t₂, opens⟩ | stops
  · rw [← opens.tmp_eq] at ne
    have known := opens.known n
    have closing := opens.closing n
    rw [h] at known closing
    -- without the temporary file the tree is that of the moment of failure
    have erased : ∀ m u f, c.after w m = (.broken created f, u) →
        c.KeptOrMade w (u.tree.erase tmp) q := by
      intro m u f broken
      refine (opens.keptOrMade q).congr ?_
      rw [Tree.lookup_erase (openFile_place opens.opened).2, if_neg ne,
        opens.spared spares ne broken trivial]
    cases stage with
    | begun =>
      obtain rfl : v = w := known
      exact .inl rfl
    | prepared =>
      obtain ⟨-, rfl⟩ := known
      exact opens.keptOrMade q
    | opened | pulling | complete | broken =>
      exact (opens.keptOrMade q).congr (opens.spared spares ne h trivial)
    | cleared =>
      obtain ⟨-, m, u, broken, rfl⟩ := closing
      exact erased m u _ broken
    | done r =>
      cases r with
      | error f =>
        obtain ⟨m, u, broken, rfl⟩ := closing
        exact opens.keptOrMade_without sound (erased m u f broken)
      | ok count => exact absurd rfl (unfinished count)
  · obtain ⟨tree | tree, -⟩ := stops n
    · rw [h] at tree
      exact .inl (congrArg (Tree.lookup · q) tree)
    · rw [h] at tree
      exact (keptOrMade_ensureDirectory c w q).congr (congrArg (Tree.lookup · q) tree)

/-! ## Section 3: The rename -/

/-- A call that succeeds has moved the temporary file to the place of the file, where no directory
    was. -/
theorem Opens.renamed {count : Nat} (opens : c.Opens w created t₁ tmp t₂)
    (h : c.after w n = (.done (.ok count), v)) :
    ∃ m u parent name content, c.after w m = (.complete created count, u) ∧
      locate u.tree c.filename = .ok (.entry parent name false) ∧
      w.tree.place c.filename = parent ++ [name] ∧ u.tree.lookup tmp = some (.file content) ∧
      u.tree.lookup (parent ++ [name]) ≠ some .directory ∧
      v = { u with tree := (u.tree.erase tmp).insert (parent ++ [name]) (.file content) } := by
  have closing := opens.closing n
  rw [h] at closing
  obtain ⟨m, u, tree, full, moved, rfl⟩ := closing
  have home := opens.home_eq full trivial
  obtain ⟨oldParent, oldName, slash, parent, name, content, old, new, -, -, there, free, rfl⟩ :=
    rename_eq_ok.mp moved
  have source : oldParent ++ [oldName] = tmp := by
    rw [← place_of_locate old, place_congr home, opens.tmp_eq]
  have target : w.tree.place c.filename = parent ++ [name] := by
    rw [← place_of_locate new, place_congr home]
  rw [source] at there ⊢
  exact ⟨m, u, parent, name, content, full, new, target, there, free, rfl⟩

/-- After the rename the file is complete and the temporary file is gone. -/
theorem Opens.committed {count : Nat} (opens : c.Opens w created t₁ tmp t₂)
    (complete : List.Forall₂ (fun d r => d.check = .ok r) (yielded w.registry c.steps) records)
    (spares : c.Spares w tmp) (h : c.after w n = (.done (.ok count), v)) :
    count = records.length ∧
      v.tree.lookup (w.tree.place c.filename) =
        some (.file (bytesOf (dataFileText c.caller records))) ∧
      v.tree.lookup tmp = none ∧
      ∀ q, q ≠ w.tree.place c.filename → q ≠ tmp → c.Spares w q →
        v.tree.lookup q = t₁.lookup q := by
  obtain ⟨m, u, parent, name, content, full, -, target, there, -, rfl⟩ := opens.renamed h
  obtain ⟨rfl, file⟩ := opens.filled complete spares full
  rw [file] at there
  cases there
  have tmp_ne : tmp ≠ [] := (openFile_place opens.opened).2
  have target_ne : parent ++ [name] ≠ [] := by simp
  have ne : tmp ≠ parent ++ [name] := by
    rw [opens.tmp_eq, ← target]
    exact place_temporaryName_ne w.tree c.filename
  rw [target]
  refine ⟨rfl, ?_, ?_, ?_⟩
  · rw [Tree.lookup_insert target_ne, if_pos rfl]
  · rw [Tree.lookup_insert target_ne, if_neg ne, Tree.lookup_erase tmp_ne, if_pos rfl]
  · intro q hq hq' spares'
    rw [Tree.lookup_insert target_ne, if_neg hq, Tree.lookup_erase tmp_ne, if_neg hq',
      opens.spared spares' hq' full trivial]

/-- No directory was in the place of the file when a call succeeds. -/
theorem Opens.free_of_done {count : Nat} (opens : c.Opens w created t₁ tmp t₂)
    (spares : c.Spares w (w.tree.place c.filename)) (h : c.after w n = (.done (.ok count), v)) :
    t₁.lookup (w.tree.place c.filename) ≠ some .directory := by
  obtain ⟨m, u, parent, name, content, full, -, target, -, free, -⟩ := opens.renamed h
  have ne : w.tree.place c.filename ≠ tmp := by
    rw [opens.tmp_eq]
    exact (place_temporaryName_ne w.tree c.filename).symm
  rwa [← opens.spared spares ne full trivial, target]

/-- A call that succeeds keeps the home of the tree and leaves everything in a directory. -/
theorem Opens.sound_of_done {count : Nat} (opens : c.Opens w created t₁ tmp t₂)
    (sound : w.tree.Sound) (h : c.after w n = (.done (.ok count), v)) :
    v.tree.home = w.tree.home ∧ v.tree.Sound := by
  obtain ⟨m, u, parent, name, content, full, new, -, there, free, rfl⟩ := opens.renamed h
  have sound' := opens.sound sound full trivial
  have tmp_ne : tmp ≠ [] := (openFile_place opens.opened).2
  refine ⟨?_, Tree.sound_insert (Tree.sound_erase sound' there) ?_ (file_like ?_)⟩
  · rw [← opens.home_eq full trivial]
    simp
  · rw [Tree.lookup_erase tmp_ne, if_neg, sound'.locate new]
    rintro rfl
    have inside := sound'.locate new
    rw [there] at inside
    cases inside
  · rw [Tree.lookup_erase tmp_ne]
    split
    · simp
    · exact free

/-- No step of the producer has given up when a call succeeds, and all test cases are complete. -/
theorem Opens.complete_of_ok {count : Nat} (opens : c.Opens w created t₁ tmp t₂)
    (ok : c.run w = (.ok count, v)) : (∀ f, .fail f ∉ c.steps) ∧
      ∃ records, List.Forall₂ (fun d r => d.check = .ok r) (yielded w.registry c.steps) records := by
  obtain ⟨n, h⟩ := exists_after_done_iff.mpr ok
  have closing := opens.closing n
  rw [h] at closing
  obtain ⟨m, u, tree, full, -⟩ := closing
  obtain ⟨going, checked⟩ := opens.taken full
  exact ⟨going, Draft.exists_forall₂_check checked⟩

/-- The rename goes through if the file could as well be written in place. -/
theorem Opens.renames {count : Nat} {p : Path} {t : Tree} {content : Bytes}
    (opens : c.Opens w created t₁ tmp t₂) (spares : c.Spares w (w.tree.place c.filename))
    (writable : openFile t₁ c.filename = .ok (p, t))
    (h : c.after w n = (.complete created count, v)) (file : v.tree.lookup tmp = some (.file content)) :
    ∃ tree, Files.rename v.tree (temporaryName c.filename) c.filename = .ok tree := by
  have all := (openFile_grows opens.opened).trans (opens.grows h trivial)
  obtain ⟨oldParent, oldName, old, oldShort, rfl, -⟩ := openFile_ok opens.opened
  obtain ⟨parent, name, new, short, rfl, free, -⟩ := openFile_ok writable
  have old' := locate_mono all.home all.directory old
  have new' := locate_mono all.home all.directory new
  have target : parent ++ [name] = w.tree.place c.filename := by
    rw [← place_of_locate new', place_congr (opens.home_eq h trivial)]
  have ne : w.tree.place c.filename ≠ oldParent ++ [oldName] := by
    rw [opens.tmp_eq]
    exact (place_temporaryName_ne w.tree c.filename).symm
  have free' : v.tree.lookup (parent ++ [name]) ≠ some .directory := by
    rw [target] at free ⊢
    rwa [opens.spared spares ne h trivial]
  exact ⟨_, rename_eq_ok.mpr ⟨oldParent, oldName, false, parent, name, content, old', new', oldShort,
    short, file, free', rfl⟩⟩

/-- A call goes through if no step of its producer fails and the file could as well be written
    in place. -/
theorem Opens.goes_through {p : Path} {t : Tree} (opens : c.Opens w created t₁ tmp t₂)
    (complete : List.Forall₂ (fun d r => d.check = .ok r) (yielded w.registry c.steps) records)
    (spares : c.Spares w tmp) (spares' : c.Spares w (w.tree.place c.filename))
    (yields : ∀ s v, c.Pulls w s v → ∃ d v', v.perform s = (.ok d, v'))
    (writable : openFile t₁ c.filename = .ok (p, t)) :
    ∃ w', c.run w = (.ok records.length, w') := by
  rcases ends : c.run w with ⟨f | count, w'⟩
  · exfalso
    obtain ⟨m, u, fails, -⟩ := opens.error_iff.mp ends
    rcases h : c.after w m with ⟨stage, v⟩
    rw [h] at fails
    -- none of the three ways to fail is open
    cases fails with
    | @step created' sink count s rest _ _ _ taken =>
      obtain ⟨d, v', ok⟩ := yields s v ⟨m, created', sink, count, rest, h⟩
      rw [ok] at taken
      cases taken
    | @record created' sink count s rest _ d _ _ taken wrong =>
      obtain ⟨-, -, left, -⟩ := opens.filled complete spares h
      rw [Workspace.yielded_perform taken] at left
      obtain ⟨r, _, right, -⟩ := List.forall₂_cons_left_iff.mp left
      rw [right] at wrong
      cases wrong
    | @rename created' count _ e refused =>
      have known := opens.known m
      rw [h] at known
      obtain ⟨rfl, -⟩ := known
      obtain ⟨tree, moved⟩ := opens.renames spares' writable h (opens.filled complete spares h).2
      rw [moved] at refused
      cases refused
  · obtain ⟨m, h⟩ := exists_after_done_iff.mpr ends
    obtain ⟨rfl, -⟩ := opens.committed complete spares h
    exact ⟨w', rfl⟩

/-! ## Section 4: Cuts -/

/-- What is there when a call that writes `records` is cut. -/
structure Cut (c : WriteCall) (w : Workspace) (records : List Record) (x : WriteStage × Workspace) :
    Prop where
  /-- Before the rename, and after a failure, the name of the file leads to what it led to before,
      unless a directory was made there on the way. -/
  before : (∀ count, x.1 ≠ .done (.ok count)) → ∀ q, w.tree.place c.filename <+: q →
    q ≠ w.tree.place (temporaryName c.filename) →
      c.KeptOrMade w x.2.tree q ∧ (IsPlain c.filename → x.2.tree.lookup q = w.tree.lookup q)
  /-- At each pull the temporary file holds the header and the records that were pulled. -/
  pull : ∀ created sink count rest, x.1 = .pulling created sink count rest →
    count ≤ records.length ∧ x.2.tree.lookup (w.tree.place (temporaryName c.filename)) =
      some (.file (bytesOf (writtenText c.caller (records.take count))))
  /-- After the rename the file is complete. -/
  renamed : ∀ count, x.1 = .done (.ok count) → count = records.length ∧
    x.2.tree.lookup (w.tree.place c.filename) =
      some (.file (bytesOf (dataFileText c.caller records))) ∧
    x.2.tree.lookup (w.tree.place (temporaryName c.filename)) = none ∧
    ∀ q, q ≠ w.tree.place c.filename → q ≠ w.tree.place (temporaryName c.filename) →
      c.Spares w q → c.KeptOrMade w x.2.tree q

/-- Where a call writes test cases that are complete, and its producer writes nothing at the file
    or the temporary file or below them, each cut is as it should be and the call ends with one of
    them.  If the file can be opened, nothing fails and the file could as well be written in place,
    it ends with all records written. -/
theorem commit_protocol (sound : w.tree.Sound)
    (complete : List.Forall₂ (fun d r => d.check = .ok r) (yielded w.registry c.steps) records)
    (spares : ∀ q, w.tree.place c.filename <+: q ∨ w.tree.place (temporaryName c.filename) <+: q →
      c.Spares w q) :
    (∀ n, c.Cut w records (c.after w n)) ∧
    (∃ n, c.after w n = (.done (w.writeDataFile c.filename c.caller c.steps).1,
      (w.writeDataFile c.filename c.caller c.steps).2)) ∧
    ∀ created t₁ tmp t₂, c.Opens w created t₁ tmp t₂ →
      (∀ s v, c.Pulls w s v → ∃ d v', v.perform s = (.ok d, v')) →
      (∃ p t, openFile t₁ c.filename = .ok (p, t)) →
      ∃ w', w.writeDataFile c.filename c.caller c.steps = (.ok records.length, w') := by
  have atFile := spares _ (.inl (List.prefix_refl _))
  have atTemporary := spares _ (.inr (List.prefix_refl _))
  refine ⟨?_, exists_after_run c w, ?_⟩
  · intro n
    rcases h : c.after w n with ⟨stage, v⟩
    constructor
    · intro unfinished q below ne
      have kept := keptOrMade_of_not_done sound (spares q (.inl below)) ne h unfinished
      refine ⟨kept, ?_⟩
      intro plain
      rcases kept with same | ⟨-, -, way⟩
      · exact same
      · exact absurd below (not_prefix_of_visited plain way)
    · intro created sink count rest pulling
      subst pulling
      obtain ⟨created, t₁, tmp, t₂, opens⟩ := exists_opens h (.inl trivial)
      rw [← opens.tmp_eq] at atTemporary ⊢
      obtain ⟨-, le, -, file, -⟩ := opens.filled complete atTemporary h
      exact ⟨le, file⟩
    · intro count done
      subst done
      obtain ⟨created, t₁, tmp, t₂, opens⟩ := exists_opens h (.inr ⟨count, rfl⟩)
      rw [← opens.tmp_eq] at atTemporary ⊢
      obtain ⟨total, file, gone, others⟩ := opens.committed complete atTemporary h
      exact ⟨total, file, gone, fun q ne ne' spares' =>
        (opens.keptOrMade q).congr (others q ne ne' spares')⟩
  · intro created t₁ tmp t₂ opens yields h
    obtain ⟨p, t, writable⟩ := h
    rw [← opens.tmp_eq] at atTemporary
    exact opens.goes_through complete atTemporary atFile yields writable

/-- A name that walks through a missing directory and out of it again names that directory, which
    is then made for the file: the name leads to something else before the rename. -/
theorem made_in_the_way :
    ¬ ∀ (c : WriteCall) (w : Workspace) (records : List Record), w.tree.Sound →
      List.Forall₂ (fun d r => d.check = .ok r) (yielded w.registry c.steps) records →
      (∀ q, w.tree.place c.filename <+: q ∨ w.tree.place (temporaryName c.filename) <+: q →
        c.Spares w q) →
      ∀ n, (∀ count, (c.after w n).1 ≠ .done (.ok count)) →
        (c.after w n).2.tree.lookup (w.tree.place c.filename) =
          w.tree.lookup (w.tree.place c.filename) := by
  intro claim
  let c : WriteCall := ⟨"x/../x", "c", [.peek]⟩
  let tree : Tree := { entries := [{ path := ["x"], node := .directory }] }
  have made : ensureDirectory ({} : Tree) (directoryOf c.filename) = (.ok (some "x"), tree) := by
    decide +kernel
  have first : c.after {} 1 = (.prepared (some "x"), { tree }) := after_ensureDirectory made
  have kept := claim c {} [] (by decide +kernel) .nil (fun q _ => spares_of_touches (by simp [c])) 1
  rw [first] at kept
  exact absurd (kept (by simp)) (by decide +kernel)

/-- A call over an old file and a longer left-over temporary file, with a producer that writes a
    file of its own. -/
theorem commit_protocol_over_leftovers :
    let w : Workspace := { tree := { entries := [{ path := ["out"], node := .directory },
      { path := ["out", "x"], node := .file (bytesOf "old") },
      { path := ["out", "x.new"], node := .file (List.replicate 300 0) }] } }
    let sum : Record := ⟨"sum", "add", ["1", "2"], [], ["# small"]⟩
    let steps : List Step := [.yield sum.toDraft, .touch "logs/run" "started", .yield sum.toDraft]
    ∃ w', w.writeDataFile "out/x" "testgen" steps = (.ok 2, w') ∧
      w'.tree.lookup ["out", "x"] = some (.file (bytesOf (dataFileText "testgen" [sum, sum]))) ∧
      w'.tree.lookup ["out", "x.new"] = none := by
  intro w sum steps
  let c : WriteCall := ⟨"out/x", "testgen", steps⟩
  have checked : sum.toDraft.check = .ok sum := Draft.check_toDraft (by decide +kernel)
  have complete : List.Forall₂ (fun d r => d.check = .ok r) (yielded w.registry c.steps) [sum, sum] :=
    .cons checked (.cons checked .nil)
  have spares : ∀ q, w.tree.place c.filename <+: q ∨ w.tree.place (temporaryName c.filename) <+: q →
      c.Spares w q := by
    have off : ∀ q ∈ visited [] (segments "logs/run"), ¬ (w.tree.place c.filename <+: q ∨
        w.tree.place (temporaryName c.filename) <+: q) := by
      decide +kernel
    intro q below
    apply spares_of_touches
    intro path text mem way
    obtain ⟨rfl, -⟩ : path = "logs/run" ∧ text = "started" := by simpa [c, steps] using mem
    exact off q way below
  obtain ⟨cuts, ⟨n, ends⟩, -⟩ := commit_protocol (c := c) (by decide +kernel) complete spares
  have file : w.tree.place c.filename = ["out", "x"] := by decide +kernel
  have temporary : w.tree.place (temporaryName c.filename) = ["out", "x.new"] := by decide +kernel
  have total : (w.writeDataFile "out/x" "testgen" steps).1.toOption = some 2 := by decide +kernel
  rcases run : w.writeDataFile "out/x" "testgen" steps with ⟨r, w'⟩
  rw [run] at total
  obtain ⟨f⟩ | ⟨count⟩ := r
  · cases total
  · cases total
    rw [show w.writeDataFile c.filename c.caller c.steps = _ from run] at ends
    have cut := cuts n
    rw [ends] at cut
    obtain ⟨-, there, gone, -⟩ := cut.renamed 2 rfl
    rw [file] at there
    rw [temporary] at gone
    exact ⟨w', rfl, there, gone⟩

end WriteCall

end CaseGen
