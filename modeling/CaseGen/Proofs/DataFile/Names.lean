import CaseGen.Proofs.Files.Operations

/-! # The two names of a data file

    While a data file is written it stands under a temporary name beside
    its own.  The two never name the same place.  The directories that are
    made for a file stand above it, unless its name walks upwards or ends
    in a step to the place itself.

    * `place_temporaryName`    — the place of the temporary file
    * `place_temporaryName_ne` — it is another one than that of the file
    * `IsPlain`                — a name that does neither of these
    * `not_prefix_of_visited`  — the directories made for a file do not stand in its place
    * `openFile_of_temporary`  — a file can be opened where its temporary file can -/

namespace CaseGen

open Files

variable {t : Tree} {filename : String}

theorem startOf_temporaryName (t : Tree) (filename : String) :
    startOf t (temporaryName filename) = startOf t filename := by
  refine startOf_congr rfl ?_
  rw [temporaryName, String.toList_append]
  cases filename.toList <;> simp

/-- The temporary file stands where the pieces before the last one lead. -/
theorem place_temporaryName {init : List String} {last : String}
    (cut : pieces filename = init ++ [last]) :
    t.place (temporaryName filename) =
      walk (startOf t filename) (init.filter (· ≠ "")) ++ [last ++ ".new"] := by
  have isName : IsName (last ++ ".new") := isName_append (by decide) last
  rw [Tree.place, startOf_temporaryName, temporaryName, segments_append cut (by decide) (by decide),
    walk_concat isName]

/-- A file and its temporary file never stand in the same place. -/
theorem place_temporaryName_ne (t : Tree) (filename : String) :
    t.place (temporaryName filename) ≠ t.place filename := by
  obtain ⟨init, last, cut⟩ := exists_last_piece filename
  rw [place_temporaryName cut, Tree.place]
  intro same
  -- either the file is in one of the directories above, or its last name is shorter
  by_cases empty : last = ""
  · have names : segments filename = init.filter (· ≠ "") := by simp [segments, cut, empty]
    rw [names] at same
    simpa using congrArg List.length same
  · rw [segments_of_pieces cut empty, walk_append] at same
    rcases name_cases last with rfl | rfl | hn
    · simpa [walk] using congrArg List.length same
    · have := congrArg List.length same
      simp only [walk, List.length_append, List.length_singleton, List.length_dropLast,
        String.reduceEq, if_true, if_false] at this
      omega
    · simp only [walk, hn.1, hn.2, if_false] at same
      have := congrArg String.length (List.singleton_inj.mp (List.append_cancel_left same))
      simp at this

/-- A file name that does not walk upwards and does not end in a step to the place itself. -/
def IsPlain (filename : String) : Prop :=
  ".." ∉ segments filename ∧ (segments filename).getLast? ≠ some "."

instance (filename : String) : Decidable (IsPlain filename) :=
  inferInstanceAs (Decidable (_ ∧ _))

/-- The directories on the way to a file with a plain name are not in its place. -/
theorem not_prefix_of_visited (plain : IsPlain filename) {q : Path}
    (way : q ∈ visited (startOf t filename) (segments (directoryOf filename))) :
    ¬ t.place filename <+: q := by
  obtain ⟨down, last⟩ := plain
  rw [← visited_filter, segments_directoryOf, visited_filter] at way
  have down' : ".." ∉ (segments filename).dropLast := fun h => down (List.dropLast_subset _ h)
  obtain ⟨-, -, above⟩ := (mem_visited_iff down').mp way
  intro below
  rcases List.eq_nil_or_concat (segments filename) with none | ⟨init, name, names⟩
  · rw [none] at way
    simp [visited] at way
  · rw [List.concat_eq_append] at names
    have hn : IsName name := by
      constructor
      · rintro rfl
        simp [names] at last
      · rintro rfl
        simp [names] at down
    rw [names, List.dropLast_concat] at above
    rw [Tree.place, names, walk_concat hn] at below
    have := Nat.le_trans below.length_le above.length_le
    simp only [List.length_append, List.length_singleton] at this
    omega

/-- A file whose name ends with the name of an entry can be opened where its temporary file can
    be opened, unless a directory is in its place. -/
theorem openFile_of_temporary {init : List String} {last : String} {tmp : Path} {t₁ : Tree}
    (cut : pieces filename = init ++ [last]) (ne : last ≠ "") (isName : IsName last)
    (opened : openFile t (temporaryName filename) = .ok (tmp, t₁))
    (free : t.lookup (t.place filename) ≠ some .directory) :
    ∃ p t', openFile t filename = .ok (p, t') := by
  obtain ⟨parent, name, found, short, -, -⟩ := openFile_ok opened
  obtain ⟨text_ok, tmp_last, -, inside, -⟩ := locate_eq_entry.mp found
  have tmp_names : segments (temporaryName filename) = init.filter (· ≠ "") ++ [last ++ ".new"] :=
    segments_append cut (by decide) (by decide)
  rw [tmp_names, List.getLast?_concat, Option.some.injEq] at tmp_last
  rw [tmp_names, List.dropLast_concat, startOf_temporaryName] at inside
  have names := segments_of_pieces cut ne
  have nonempty : filename ≠ "" := by
    rintro rfl
    simp [segments, pieces, splitSlashes] at names
  have there : locate t filename = .ok (.entry parent last false) :=
    locate_eq_entry.mpr ⟨textRefusal?_of_append text_ok nonempty, by simp [names], isName,
      by simpa [names] using inside, by simp [getLast?_ne_slash cut ne]⟩
  -- the name is shorter than that of the temporary file, which is short enough
  have last_short : last.utf8ByteSize ≤ maxNameBytes := by
    have : (last ++ ".new").utf8ByteSize ≤ maxNameBytes := tmp_last ▸ short
    rw [String.utf8ByteSize_append] at this
    omega
  rw [place_of_locate there] at free
  exact ⟨_, _, openFile_of_locate there last_short free⟩

end CaseGen
