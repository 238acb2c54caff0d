import CaseGen.Proofs.DataFile.Commit
import CaseGen.Proofs.Suite.Places

/-! # Calls for one target

    A call for a target of a suite writes its data file into the directory
    of the suite and changes nothing else, or it fails and leaves the tree
    as it was.

    * `Suite.Plain`            — suites whose files stand in one directory
    * `Suite.Wrote`            — how a call that succeeds changes the tree
    * `generate_spec`          — what a call does
    * `generate_goes_through`  — when it succeeds -/

namespace CaseGen

open Files

namespace Suite

variable {α : Type} {s : Suite α} {w : Workspace} {t : Tree} {k : String} {a : α}

/-! ## Section 1: Suites and calls -/

/-- The suite has a target of this name. -/
def Has (s : Suite α) (k : String) : Prop := ∃ producer, s.table.lookup k = some producer

/-- The files of the suite stand in its directory, and its producers write no files of their
    own. -/
structure Plain (s : Suite α) : Prop where
  name : ∀ k, s.Has k → '/' ∉ k.toList
  down : ".." ∉ segments s.directory
  quiet : ∀ k producer a, s.table.lookup k = some producer →
    ∀ st ∈ (producer a).steps, ¬ st.WritesFile

/-- The directory of a file can be made, and its temporary file be opened in it. -/
def canOpen (t : Tree) (filename : String) : Bool :=
  match ensureDirectory t (directoryOf filename) with
  | (.ok _, t₁) => (openFile t₁ (temporaryName filename)).isOk
  | (.error _, _) => false

theorem exists_of_canOpen {filename : String} (h : canOpen t filename) : ∃ created t₁ tmp t₂,
    ensureDirectory t (directoryOf filename) = (.ok created, t₁) ∧
      openFile t₁ (temporaryName filename) = .ok (tmp, t₂) := by
  unfold canOpen at h
  rcases made : ensureDirectory t (directoryOf filename) with ⟨e | created, t₁⟩
  · simp [made] at h
  · simp only [made] at h
    rcases opened : openFile t₁ (temporaryName filename) with e | ⟨tmp, t₂⟩
    · simp [opened, Except.isOk, Except.toBool] at h
    · exact ⟨created, t₁, tmp, t₂, rfl, opened⟩

/-- Once its producer is called, the call is not refused its directory or its temporary file. -/
def Unrefused (s : Suite α) (w : Workspace) (k : String) (a : α) : Prop :=
  ∀ producer steps v, s.table.lookup k = some producer → (producer a).call w = (.ok steps, v) →
    canOpen v.tree (s.fileName k)

/-- The second tree has the file of a target in a directory that is there, and is like the first
    one apart from that. -/
structure Wrote (s : Suite α) (t : Tree) (k : String) (content : Bytes) (t' : Tree) : Prop where
  home : t'.home = t.home
  sound : t'.Sound
  free : t.lookup (t.place (s.fileName k)) ≠ some .directory
  file : t'.lookup (t.place (s.fileName k)) = some (.file content)
  temporary : t'.lookup (t.place (temporaryName (s.fileName k))) = none
  directory : ∀ q, q <+: t.place s.directory → t'.lookup q = some .directory
  other : ∀ q, q ≠ t.place (s.fileName k) → q ≠ t.place (temporaryName (s.fileName k)) →
    ¬ q <+: t.place s.directory → t'.lookup q = t.lookup q

/-- The call for a target, once its producer is called. -/
def writeCall (s : Suite α) (k : String) (steps : List Step) : WriteCall :=
  ⟨s.fileName k, s.caller, steps⟩

theorem spares_of_quiet {c : WriteCall} (quiet : ∀ st ∈ c.steps, ¬ st.WritesFile) (w : Workspace)
    (q : Path) : c.Spares w q :=
  WriteCall.spares_of_touches fun path text mem => absurd trivial (quiet (.touch path text) mem)

/-! ## Section 2: What a call does -/

/-- Making the directory of a file does not make the file. -/
theorem file_kept {v : Workspace} {steps : List Step} {created : Option String} {t₁ t₂ : Tree}
    {tmp : Path} (slash : '/' ∉ k.toList) (down : ".." ∉ segments s.directory)
    (opens : (s.writeCall k steps).Opens v created t₁ tmp t₂) :
    t₁.lookup (v.tree.place (s.fileName k)) = v.tree.lookup (v.tree.place (s.fileName k)) := by
  rcases opens.keptOrMade (v.tree.place (s.fileName k)) with same | ⟨-, -, made⟩
  · exact same
  · have above := prefix_of_visited slash down made
    exact absurd (place_fileName s slash v.tree) (not_prefix_directory above)

/-- A call that succeeds has put the complete file of its target in its place. -/
theorem wrote_of_ok {v v' : Workspace} {steps : List Step} {n : Nat} {created : Option String}
    {t₁ t₂ : Tree} {tmp : Path} {records : List Record} (slash : '/' ∉ k.toList)
    (down : ".." ∉ segments s.directory) (sound : v.tree.Sound)
    (quiet : ∀ st ∈ steps, ¬ st.WritesFile) (opens : (s.writeCall k steps).Opens v created t₁ tmp t₂)
    (complete : List.Forall₂ (fun d r => d.check = .ok r) (yielded v.registry steps) records)
    (ok : (s.writeCall k steps).run v = (.ok n, v')) :
    n = records.length ∧
      s.Wrote v.tree k (bytesOf (dataFileText s.caller records)) v'.tree := by
  have spares := spares_of_quiet (c := s.writeCall k steps) quiet v
  obtain ⟨m, done⟩ := WriteCall.exists_after_done_iff.mpr ok
  obtain ⟨total, file, gone, others⟩ := opens.committed complete (spares tmp) done
  obtain ⟨home, sound'⟩ := opens.sound_of_done sound done
  have tmp_eq : tmp = v.tree.place (temporaryName (s.fileName k)) := opens.tmp_eq
  have free := opens.free_of_done (spares _) done
  -- the directory is there, and so are those above it
  have above : ∀ q, q <+: v.tree.place s.directory → t₁.lookup q = some .directory := by
    intro q above
    have sound₁ := opens.made_sound sound
    have entered := ensureDirectory_enter opens.made
    have inside := sound₁.enter (sound₁.startOf _) entered
    rw [show v.tree.place (directoryOf (s.writeCall k steps).filename) = v.tree.place s.directory from
      place_directoryOf s slash v.tree] at inside
    by_cases e : q = v.tree.place s.directory
    · rw [e, inside]
    · exact sound₁.above (by simp [inside]) above e
  refine ⟨total, home, sound', file_kept slash down opens ▸ free, file, tmp_eq ▸ gone, ?_, ?_⟩
  · intro q way
    rw [others q ?_ ?_ (spares q), above q way]
    · exact place_fileName s slash v.tree ▸ not_prefix_directory way
    · rw [tmp_eq, place_temporary s slash]
      exact not_prefix_directory way
  · intro q ne ne' off
    rw [others q ne (tmp_eq ▸ ne') (spares q)]
    rcases opens.keptOrMade q with same | ⟨-, -, made⟩
    · exact same
    · exact absurd (prefix_of_visited slash down made) off

/-- What a call does: it leaves the tree as it was and fails, or it writes the file of all the
    test cases that its producer yields. -/
theorem generate_spec (plain : s.Plain) (sound : w.tree.Sound)
    (absent : s.Has k → w.tree.lookup (w.tree.place (temporaryName (s.fileName k))) = none)
    (unrefused : s.Unrefused w k a) :
    ((∃ f, (s.generate w k a).1 = .error f) ∧ (s.generate w k a).2.tree = w.tree) ∨
      ∃ producer records, s.table.lookup k = some producer ∧
        (∀ f, .fail f ∉ (producer a).steps) ∧
        List.Forall₂ (fun d r => d.check = .ok r) (yielded w.registry (producer a).steps) records ∧
        (s.generate w k a).1 = .ok records.length ∧
        s.Wrote w.tree k (bytesOf (dataFileText s.caller records)) (s.generate w k a).2.tree := by
  unfold generate
  cases has : s.table.lookup k with
  | none => exact .inl ⟨⟨_, rfl⟩, rfl⟩
  | some producer =>
    have quiet := plain.quiet k producer a has
    have tree := Production.call_tree quiet w
    dsimp only
    rcases called : (producer a).call w with ⟨f | steps, v⟩
    · rw [called] at tree
      exact .inl ⟨⟨f, rfl⟩, tree⟩
    · rw [called] at tree
      change v.tree = w.tree at tree
      obtain ⟨drafts, quietly, still_going⟩ := Production.call_ok called
      obtain ⟨created, t₁, tmp, t₂, made, opened⟩ :=
        exists_of_canOpen (unrefused producer steps v has called)
      have opens : (s.writeCall k steps).Opens v created t₁ tmp t₂ := ⟨made, opened⟩
      have slash := plain.name k ⟨producer, has⟩
      dsimp only
      rcases ends : s.write v k steps with ⟨f | n, v'⟩
      · -- whatever the call has made is taken back
        left
        refine ⟨⟨f, rfl⟩, ?_⟩
        have back := opens.restored (up_not_mem_fileName slash plain.down) (tree ▸ sound) (quietly quiet)
          (by rw [opens.tmp_eq, tree]; exact absent ⟨producer, has⟩) ends
        exact back.trans tree
      · right
        obtain ⟨going, records, complete⟩ := opens.complete_of_ok ends
        obtain ⟨rfl, wrote⟩ := wrote_of_ok slash plain.down (tree ▸ sound) (quietly quiet) opens complete ends
        rw [tree] at wrote
        refine ⟨producer, records, rfl, still_going going, ?_, rfl, wrote⟩
        rw [← drafts]
        exact complete

/-- A call goes through if its producer does not give up, all test cases are complete and the file
    could as well be written in place. -/
theorem generate_of_writable {producer : α → Production} {created : Option String} {t₁ : Tree}
    (has : s.table.lookup k = some producer) (quiet : ∀ st ∈ (producer a).steps, ¬ st.WritesFile)
    (going : ∀ f, .fail f ∉ (producer a).steps)
    (checked : ∀ d ∈ yielded w.registry (producer a).steps, ∃ r, d.check = .ok r)
    (made : ensureDirectory w.tree (directoryOf (s.fileName k)) = (.ok created, t₁))
    (temporary : ∃ r, openFile t₁ (temporaryName (s.fileName k)) = .ok r)
    (writable : ∃ r, openFile t₁ (s.fileName k) = .ok r) :
    ∃ n, (s.generate w k a).1 = .ok n := by
  obtain ⟨steps, v, called, going'⟩ := Production.call_of_quiet quiet going w
  have tree := Production.call_tree quiet w
  rw [called] at tree
  change v.tree = w.tree at tree
  obtain ⟨drafts, quietly, -⟩ := Production.call_ok called
  obtain ⟨⟨tmp, t₂⟩, opened⟩ := temporary
  obtain ⟨⟨p, t⟩, writable⟩ := writable
  rw [← tree] at made
  have opens : (s.writeCall k steps).Opens v created t₁ tmp t₂ := ⟨made, opened⟩
  have quiet' := quietly quiet
  rw [← drafts] at checked
  obtain ⟨records, complete⟩ := Draft.exists_forall₂_check checked
  have spares := spares_of_quiet (c := s.writeCall k steps) quiet' v
  have yields : ∀ st u, (s.writeCall k steps).Pulls v st u → ∃ d u', u.perform st = (.ok d, u') := by
    intro st u pulled
    have mem := opens.mem_of_pulls pulled
    refine Workspace.perform_of_quiet (quiet' st mem) ?_
    rintro f rfl
    exact going' f mem
  obtain ⟨v', ends⟩ := opens.goes_through complete (spares _) (spares _) yields writable
  refine ⟨records.length, ?_⟩
  simp only [generate, has, called]
  exact congrArg Prod.fst ends

end Suite

end CaseGen
