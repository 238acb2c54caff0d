import CaseGen.Proofs.Files.Missing

/-! # What file operations do

    Each operation is described by the place it acts on: opening empties
    the file there, writing keeps it a file, renaming moves a file from one
    place to another, and removing takes an entry away.

    * `openFile_ok`, `overwrite_cases`, `rename_eq_ok` — what an operation has done
    * `openFile_lookup`, `overwrite_lookup` — what stands where after that
    * `remove_eq`, `removeAll_eq` — what is taken away -/

namespace CaseGen.Files

open Files.Tree

variable {t t' : Tree} {p q : Path} {text : String}

/-! ## Section 1: Opening and writing -/

/-- A file that has been opened is empty and stands at the place of its text. -/
theorem openFile_ok (h : openFile t text = .ok (p, t')) :
    ∃ parent name, locate t text = .ok (.entry parent name false) ∧
      name.utf8ByteSize ≤ maxNameBytes ∧ p = parent ++ [name] ∧
      t.lookup p ≠ some .directory ∧ t' = t.insert p (.file []) := by
  unfold openFile at h
  cases found : locate t text with
  | error e => simp [found] at h
  | ok l =>
    cases l with
    | directory d => simp [found] at h
    | entry parent name slash =>
      cases slash with
      | true => simp [found] at h
      | false =>
        simp only [found, Bool.false_eq_true, if_false] at h
        cases there : child t parent name with
        | error e => simp [there] at h
        | ok n =>
          obtain ⟨short, place⟩ := child_eq_ok.mp there
          rw [there] at h
          -- a new file and an old one end up the same
          match n, h with
          | none, h =>
            obtain ⟨rfl, rfl⟩ := Prod.mk.inj (Except.ok.inj h)
            exact ⟨parent, name, rfl, short, rfl, by simp [place], rfl⟩
          | some (.file c), h =>
            obtain ⟨rfl, rfl⟩ := Prod.mk.inj (Except.ok.inj h)
            exact ⟨parent, name, rfl, short, rfl, by simp [place], rfl⟩

/-- A file that is found is opened unless a directory is in its place. -/
theorem openFile_of_locate {parent : Path} {name : String}
    (found : locate t text = .ok (.entry parent name false))
    (short : name.utf8ByteSize ≤ maxNameBytes)
    (free : t.lookup (parent ++ [name]) ≠ some .directory) :
    openFile t text = .ok (parent ++ [name], t.insert (parent ++ [name]) (.file [])) := by
  have there : child t parent name = .ok (t.lookup (parent ++ [name])) :=
    child_eq_ok.mpr ⟨short, rfl⟩
  cases content : t.lookup (parent ++ [name]) with
  | none =>
    rw [content] at there
    simp [openFile, found, there]
  | some node =>
    rw [content] at there free
    cases node with
    | directory => exact absurd rfl free
    | file bytes => simp [openFile, found, there]

/-- A file may be put where no directory stands. -/
theorem file_like {c : Bytes} (free : t.lookup p ≠ some .directory) :
    ∀ m, t.lookup p = some m → (m = .directory ↔ Node.file c = .directory) := by
  intro m there
  cases m with
  | directory => exact absurd there free
  | file c => simp

theorem openFile_place (h : openFile t text = .ok (p, t')) : p = t.place text ∧ p ≠ [] := by
  obtain ⟨parent, name, found, -, rfl, -⟩ := openFile_ok h
  exact ⟨(place_of_locate found).symm, by simp⟩

theorem openFile_grows (h : openFile t text = .ok (p, t')) : t.Grows t' := by
  obtain ⟨parent, name, -, -, rfl, free, rfl⟩ := openFile_ok h
  exact grows_insert (by simp) (file_like free)

theorem openFile_lookup (h : openFile t text = .ok (p, t')) (q : Path) :
    t'.lookup q = if q = p then some (.file []) else t.lookup q := by
  obtain ⟨parent, name, -, -, rfl, -, rfl⟩ := openFile_ok h
  exact lookup_insert (by simp) q

theorem openFile_erase (h : openFile t text = .ok (p, t')) : t'.erase p = t.erase p := by
  obtain ⟨-, -, -, -, -, -, rfl⟩ := openFile_ok h
  exact erase_insert t p _

theorem openFile_sound (h : openFile t text = .ok (p, t')) (sound : t.Sound) : t'.Sound := by
  obtain ⟨parent, name, found, -, rfl, free, rfl⟩ := openFile_ok h
  exact sound_insert sound (sound.locate found) (file_like free)

/-- Writing into a file changes its content and nothing else. -/
theorem overwrite_eq {c : Bytes} (h : t.lookup p = some (.file c)) (offset : Nat) (bytes : Bytes) :
    overwrite t p offset bytes = t.insert p (.file (spliced c offset bytes)) := by
  simp [overwrite, h]

/-- Writing does nothing where no file is. -/
theorem overwrite_cases (t : Tree) (p : Path) (offset : Nat) (bytes : Bytes) :
    overwrite t p offset bytes = t ∨
      ∃ c c', t.lookup p = some (.file c) ∧ overwrite t p offset bytes = t.insert p (.file c') := by
  unfold overwrite
  split
  · next c h => exact .inr ⟨c, _, h, rfl⟩
  · exact .inl rfl

theorem spliced_end (c bytes : Bytes) : spliced c c.length bytes = c ++ bytes := by
  simp [spliced]

theorem ne_nil_of_file {c : Bytes} (h : t.lookup p = some (.file c)) : p ≠ [] := by
  rintro rfl
  simp at h

theorem overwrite_grows (t : Tree) (p : Path) (offset : Nat) (bytes : Bytes) :
    t.Grows (overwrite t p offset bytes) := by
  rcases overwrite_cases t p offset bytes with same | ⟨c, c', file, eq⟩
  · rw [same]
    exact .refl t
  · rw [eq]
    exact grows_insert (ne_nil_of_file file) (file_like (by simp [file]))

theorem overwrite_lookup (ne : q ≠ p) (offset : Nat) (bytes : Bytes) :
    (overwrite t p offset bytes).lookup q = t.lookup q := by
  rcases overwrite_cases t p offset bytes with same | ⟨c, c', file, eq⟩
  · rw [same]
  · rw [eq, lookup_insert (ne_nil_of_file file), if_neg ne]

theorem overwrite_erase (t : Tree) (p : Path) (offset : Nat) (bytes : Bytes) :
    (overwrite t p offset bytes).erase p = t.erase p := by
  rcases overwrite_cases t p offset bytes with same | ⟨c, c', file, eq⟩
  · rw [same]
  · rw [eq, erase_insert]

theorem overwrite_sound (sound : t.Sound) (p : Path) (offset : Nat) (bytes : Bytes) :
    (overwrite t p offset bytes).Sound := by
  rcases overwrite_cases t p offset bytes with same | ⟨c, c', file, eq⟩
  · rw [same]
    exact sound
  · rcases List.eq_nil_or_concat p with rfl | ⟨parent, name, rfl⟩
    · exact absurd rfl (ne_nil_of_file file)
    · rw [List.concat_eq_append] at file eq
      rw [List.concat_eq_append, eq]
      exact sound_insert sound (sound.parent parent name (by simp [file])) (file_like (by simp [file]))

/-! ## Section 2: Renaming -/

/-- A file is moved exactly if it is found and no directory is in its way, and then it stands
    in place of what stood at its new place. -/
theorem rename_eq_ok {source target : String} :
    rename t source target = .ok t' ↔ ∃ oldParent oldName slash parent name c,
      locate t source = .ok (.entry oldParent oldName slash) ∧
      locate t target = .ok (.entry parent name false) ∧
      oldName.utf8ByteSize ≤ maxNameBytes ∧ name.utf8ByteSize ≤ maxNameBytes ∧
      t.lookup (oldParent ++ [oldName]) = some (.file c) ∧
      t.lookup (parent ++ [name]) ≠ some .directory ∧
      t' = (t.erase (oldParent ++ [oldName])).insert (parent ++ [name]) (.file c) := by
  constructor
  · intro h
    -- all branches but the last one are refusals
    unfold rename at h
    split at h
    · cases h
    · cases h
    · cases h
    · cases h
    next oldParent oldName slash parent name slash' old new =>
      split at h
      · cases h
      · cases h
      · cases h
      · cases h
      next c there hold hnew =>
        obtain ⟨oldShort, file⟩ := child_eq_ok.mp hold
        obtain ⟨short, free⟩ := child_eq_ok.mp hnew
        split at h
        · cases h
        next noSlash =>
          split at h
          · cases h
          next notDirectory =>
            obtain rfl : slash' = false := by simpa using noSlash
            exact ⟨oldParent, oldName, slash, parent, name, c, old, new, oldShort, short, file,
              free ▸ notDirectory, (Except.ok.inj h).symm⟩
  · intro h
    obtain ⟨oldParent, oldName, slash, parent, name, c, old, new, oldShort, short, file, free, rfl⟩ := h
    have hold : child t oldParent oldName = .ok (some (.file c)) := child_eq_ok.mpr ⟨oldShort, file⟩
    have hnew : child t parent name = .ok (t.lookup (parent ++ [name])) :=
      child_eq_ok.mpr ⟨short, rfl⟩
    simp [rename, old, new, hold, hnew, free]

/-! ## Section 3: Removal -/

theorem remove_eq {parent : Path} {name : String} {slash : Bool} {c : Bytes}
    (found : locate t text = .ok (.entry parent name slash))
    (short : name.utf8ByteSize ≤ maxNameBytes) (file : t.lookup (parent ++ [name]) = some (.file c)) :
    remove t text = t.erase (parent ++ [name]) := by
  simp [remove, found, child_eq_ok.mpr ⟨short, file⟩]

theorem removeAll_eq {parent : Path} {name : String} {slash : Bool}
    (found : locate t text = .ok (.entry parent name slash)) :
    removeAll t text = t.eraseUnder (parent ++ [name]) := by
  simp [removeAll, found]

end CaseGen.Files
