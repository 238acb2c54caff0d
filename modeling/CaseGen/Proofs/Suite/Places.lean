import CaseGen.Suite
import CaseGen.Proofs.DataFile.Names

/-! # The places of a suite's files

    The data files of a suite stand side by side in its directory, each
    under its own name with an ending.  No two of them share a place, and
    none is in the place of a temporary file.

    * `exists_fileName`          — the path texts of all data files
    * `pieces_fileName`          — the pieces of the path text of a data file
    * `place_fileName`, `place_temporary` — the places of a data file and its temporary file
    * `place_fileName_inj`       — data files of different names are apart
    * `prefix_of_visited`        — what is made for a data file leads to the directory -/

namespace CaseGen

open Files

namespace Suite

variable {α : Type} {s : Suite α} {t : Tree} {k l : String}

/-! ## Section 1: Path texts -/

theorem data_no_slash (slash : '/' ∉ k.toList) : '/' ∉ (k ++ ".data").toList := by
  rw [String.toList_append, List.mem_append]
  exact not_or.mpr ⟨slash, by decide⟩

theorem data_ne_empty (k : String) : k ++ ".data" ≠ "" := by
  simp [String.append_eq_empty_iff]

theorem data_isName (k : String) : IsName (k ++ ".data") := isName_append (by decide) k

/-- The path text of a data file is its name with the ending, after nothing or after a slash, and
    what stands before that is the same for all names. -/
theorem exists_fileName (s : Suite α) : ∃ u : List Char, (u = [] ∨ u.getLast? = some '/') ∧
    ∀ k, s.fileName k = String.ofList (u ++ (k ++ ".data").toList) := by
  by_cases direct : s.directory = "" ∨ s.directory.toList.getLast? = some '/'
  · refine ⟨s.directory.toList, direct.imp_left String.toList_eq_nil_iff.mpr, fun k => ?_⟩
    rw [fileName, if_pos direct, ← String.toList_append, String.ofList_toList]
  · refine ⟨(s.directory ++ "/").toList, .inr (by simp), fun k => ?_⟩
    rw [fileName, if_neg direct, ← String.toList_append, String.ofList_toList]

/-- The data files of the suite have the same directory part. -/
theorem directoryOf_fileName (s : Suite α) (hk : '/' ∉ k.toList) (hl : '/' ∉ l.toList) :
    directoryOf (s.fileName k) = directoryOf (s.fileName l) := by
  obtain ⟨u, cut, text⟩ := s.exists_fileName
  have ne (k : String) : (k ++ ".data").toList ≠ [] := mt String.toList_eq_nil_iff.mp (data_ne_empty k)
  rw [text k, text l]
  exact directoryOf_congr cut (ne k) (data_no_slash hk) (ne l) (data_no_slash hl)

/-- The path text of a data file ends with its name, after the pieces of the directory. -/
theorem pieces_fileName (s : Suite α) (slash : '/' ∉ k.toList) :
    ∃ init, pieces (s.fileName k) = init ++ [k ++ ".data"] ∧
      init.filter (· ≠ "") = segments s.directory := by
  unfold fileName
  split
  next direct =>
    obtain ⟨init, last, cut⟩ := exists_last_piece s.directory
    -- the directory is empty or ends with a slash, so its last piece is empty
    have empty : last = "" := by
      by_contra ne
      rcases direct with none | slash
      · rw [none] at cut
        have : [""] = init ++ [last] := cut
        rw [← List.nil_append [""]] at this
        obtain ⟨-, same⟩ := List.append_inj' this rfl
        exact ne (List.singleton_inj.mp same).symm
      · exact getLast?_ne_slash cut ne slash
    subst empty
    refine ⟨init, ?_, ?_⟩
    · rw [pieces_append cut (data_no_slash slash), String.empty_append]
    · simp [segments, cut]
  · refine ⟨pieces s.directory, ?_, rfl⟩
    rw [pieces_append_slash, pieces_of_no_slash (data_no_slash slash)]

theorem segments_fileName (s : Suite α) (slash : '/' ∉ k.toList) :
    segments (s.fileName k) = segments s.directory ++ [k ++ ".data"] := by
  obtain ⟨init, cut, names⟩ := pieces_fileName s slash
  rw [segments_of_pieces cut (data_ne_empty k), names]

theorem startOf_fileName (s : Suite α) (slash : '/' ∉ k.toList) (t : Tree) :
    startOf t (s.fileName k) = startOf t s.directory := by
  refine startOf_congr rfl ?_
  unfold fileName
  cases chars : s.directory.toList with
  | nil =>
    have none : s.directory = "" := String.toList_eq_nil_iff.mp chars
    have first : (k ++ ".data").toList.head? ≠ some '/' := fun head =>
      data_no_slash slash (List.mem_of_head? head)
    rw [if_pos (.inl none), none, String.empty_append]
    exact iff_of_false first (by simp)
  | cons c cs => split <;> simp [chars]

/-! ## Section 2: Places -/

theorem place_fileName (s : Suite α) (slash : '/' ∉ k.toList) (t : Tree) :
    t.place (s.fileName k) = t.place s.directory ++ [k ++ ".data"] := by
  rw [Tree.place, startOf_fileName s slash, segments_fileName s slash, walk_concat (data_isName k)]
  rfl

theorem place_temporary (s : Suite α) (slash : '/' ∉ k.toList) (t : Tree) :
    t.place (temporaryName (s.fileName k)) = t.place s.directory ++ [k ++ ".data" ++ ".new"] := by
  obtain ⟨init, cut, names⟩ := pieces_fileName s slash
  rw [place_temporaryName cut, names, startOf_fileName s slash]
  rfl

theorem place_fileName_inj (hk : '/' ∉ k.toList) (hl : '/' ∉ l.toList)
    (h : t.place (s.fileName k) = t.place (s.fileName l)) : k = l := by
  rw [place_fileName s hk, place_fileName s hl] at h
  exact (String.append_left_inj _).mp (List.singleton_inj.mp (List.append_cancel_left h))

theorem place_temporary_inj (hk : '/' ∉ k.toList) (hl : '/' ∉ l.toList)
    (h : t.place (temporaryName (s.fileName k)) = t.place (temporaryName (s.fileName l))) : k = l := by
  rw [place_temporary s hk, place_temporary s hl] at h
  have names := List.singleton_inj.mp (List.append_cancel_left h)
  exact (String.append_left_inj _).mp ((String.append_left_inj _).mp names)

/-- A data file is never in the place of a temporary file. -/
theorem place_fileName_ne_temporary (hk : '/' ∉ k.toList) (hl : '/' ∉ l.toList) :
    t.place (s.fileName k) ≠ t.place (temporaryName (s.fileName l)) := by
  rw [place_fileName s hk, place_temporary s hl]
  intro same
  -- the two names end with different characters
  have chars := congrArg (fun e : String => e.toList.getLast?)
    (List.singleton_inj.mp (List.append_cancel_left same))
  simp at chars

theorem not_prefix_directory {q : Path} {name : String} (above : q <+: t.place s.directory) :
    q ≠ t.place s.directory ++ [name] := by
  rintro rfl
  have := above.length_le
  simp only [List.length_append, List.length_singleton] at this
  omega

/-- The names of a data file do not lead upwards if those of the directory do not. -/
theorem up_not_mem_fileName (slash : '/' ∉ k.toList) (down : ".." ∉ segments s.directory) :
    ".." ∉ segments (s.fileName k) := by
  rw [segments_fileName s slash, List.mem_append, List.mem_singleton]
  exact not_or.mpr ⟨down, (data_isName k).2.symm⟩

theorem walk_directoryOf (s : Suite α) (slash : '/' ∉ k.toList) (t : Tree) :
    walk (startOf t (s.fileName k)) (segments (directoryOf (s.fileName k))) =
      t.place s.directory := by
  rw [← walk_filter, segments_directoryOf, walk_filter, segments_fileName s slash,
    List.dropLast_concat, startOf_fileName s slash]
  rfl

theorem place_directoryOf (s : Suite α) (slash : '/' ∉ k.toList) (t : Tree) :
    t.place (directoryOf (s.fileName k)) = t.place s.directory := by
  rw [← walk_directoryOf s slash, Tree.place, startOf_congr rfl (directoryOf_head? _)]

/-- The directories that are made for a data file lead to the directory of the suite. -/
theorem prefix_of_visited (slash : '/' ∉ k.toList) (down : ".." ∉ segments s.directory) {q : Path}
    (way : q ∈ visited (startOf t (s.fileName k)) (segments (directoryOf (s.fileName k)))) :
    q <+: t.place s.directory := by
  have down' := up_not_mem_directoryOf (up_not_mem_fileName slash down)
  rw [← walk_directoryOf s slash]
  exact ((mem_visited_iff down').mp way).2.2

end Suite

end CaseGen
