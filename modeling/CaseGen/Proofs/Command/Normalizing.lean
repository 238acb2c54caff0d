import CaseGen.Proofs.Command.Naming

/-! # What a text on a command line stands for

    The ending of a data file is taken off before the path is cut.  This
    makes no difference to the name that is left: the ending holds no
    slash, so it is an ending of the whole text exactly if it is an ending
    of the name.  A text stands for a name, then, in one of two ways: it is
    the path of the data file, or it is a path that ends with the name
    itself.

    * `EndsIn`, `LeadsTo`        — endings, and texts in front of a name
    * `afterLastSlash_eq_iff`    — where the last slash cuts a text
    * `suffix_append_iff`        — an ending without a slash does not reach over the cut
    * `normalizeName_eq_iff`     — the texts that stand for a name
    * `normalizeName_eq_self_iff` — the names that stand for themselves
    * `names_by_path_and_ending` — names, names of names, and paths of data files -/

namespace CaseGen.Command

variable {cs u v : List Char} {s n p : String}

/-! ## Section 1: Endings -/

/-- The text ends in another one. -/
def EndsIn (s ending : String) : Prop := ∃ t, s = t ++ ending

/-- The text may stand in front of a name in a path: it is empty or ends in a slash. -/
def LeadsTo (p : String) : Prop := p = "" ∨ EndsIn p "/"

theorem endsIn_iff {ending : String} : EndsIn s ending ↔ ending.toList <:+ s.toList := by
  constructor
  · intro h
    obtain ⟨t, rfl⟩ := h
    rw [String.toList_append]
    exact List.suffix_append _ _
  · intro h
    obtain ⟨t, chars⟩ := h
    refine ⟨String.ofList t, String.toList_inj.mp ?_⟩
    rw [String.toList_append, String.toList_ofList, chars]

theorem leadsTo_iff : LeadsTo p ↔ p.toList = [] ∨ p.toList.getLast? = some '/' := by
  rw [LeadsTo, String.toList_eq_nil_iff, endsIn_iff, List.getLast?_eq_some_iff]
  refine or_congr_right ⟨?_, ?_⟩
  · intro h
    obtain ⟨t, chars⟩ := h
    exact ⟨t, chars.symm⟩
  · intro h
    obtain ⟨t, chars⟩ := h
    exact ⟨t, chars.symm⟩

/-! ## Section 2: The last slash -/

/-- What follows the last slash is the part without a slash that a text leads to. -/
theorem afterLastSlash_eq_iff : afterLastSlash cs = v ↔
    '/' ∉ v ∧ ∃ u, (u = [] ∨ u.getLast? = some '/') ∧ cs = u ++ v := by
  constructor
  · intro same
    subst same
    constructor
    · intro mem
      simpa using Files.mem_takeWhile (List.mem_reverse.mp mem)
    · refine ⟨(cs.reverse.dropWhile (· ≠ '/')).reverse, ?_, ?_⟩
      · have first := List.head?_dropWhile_not (fun c => decide (c ≠ '/')) cs.reverse
        cases rest : cs.reverse.dropWhile (· ≠ '/') with
        | nil => exact .inl rfl
        | cons c before =>
          rw [rest] at first
          have slash : c = '/' := by simpa using first
          right
          rw [slash, List.getLast?_reverse]
          rfl
      · rw [afterLastSlash, ← List.reverse_append, List.takeWhile_append_dropWhile,
          List.reverse_reverse]
  · intro h
    obtain ⟨flat, u, cut, rfl⟩ := h
    exact afterLastSlash_append cut flat

/-- The ending of a data file does not reach over a cut: it holds no slash. -/
theorem suffix_append_iff (cut : u = [] ∨ u.getLast? = some '/') :
    dataSuffix <:+ u ++ v ↔ dataSuffix <:+ v := by
  constructor
  · intro suffix
    obtain ⟨t, split⟩ := suffix
    rcases List.append_eq_append_iff.mp split with ⟨w, front, ending⟩ | ⟨w, -, name⟩
    · by_cases none : w = []
      · subst none
        rw [ending]
        exact List.suffix_refl v
      · -- the last character in front of the name would be a slash within the ending
        have last : u.getLast? = some '/' := cut.resolve_left fun empty => by simp [empty, none] at front
        rw [front, List.getLast?_append_of_ne_nil _ none] at last
        have slash : '/' ∈ dataSuffix := ending ▸ List.mem_append_left v (List.mem_of_getLast? last)
        exact absurd slash (by decide)
    · exact ⟨w, name.symm⟩
  · intro suffix
    exact suffix.trans (List.suffix_append u v)

/-! ## Section 3: Names -/

/-- The characters of the name that a text stands for. -/
theorem afterLastSlash_withoutDataSuffix_eq_iff : afterLastSlash (withoutDataSuffix cs) = v ↔
    '/' ∉ v ∧ ∃ u, (u = [] ∨ u.getLast? = some '/') ∧
      (cs = u ++ v ++ dataSuffix ∨ cs = u ++ v ∧ ¬ dataSuffix <:+ v) := by
  rw [afterLastSlash_eq_iff]
  refine and_congr_right fun _ => exists_congr fun u => and_congr_right fun cut => ?_
  rw [← suffix_append_iff cut]
  by_cases suffix : dataSuffix <:+ cs
  · obtain ⟨front, rfl⟩ := suffix
    rw [withoutDataSuffix_append, List.append_left_inj]
    constructor
    · intro same
      exact .inl same
    · intro h
      rcases h with same | ⟨whole, none⟩
      · exact same
      · exact absurd ⟨front, whole⟩ none
  · rw [withoutDataSuffix, if_neg suffix]
    constructor
    · intro whole
      exact .inr ⟨whole, whole ▸ suffix⟩
    · intro h
      rcases h with ended | ⟨whole, -⟩
      · exact absurd ⟨u ++ v, ended.symm⟩ suffix
      · exact whole

/-- A text stands for a name exactly if the name holds no slash and, behind nothing or behind a
    slash, the text ends in the name with the ending of a data file, or in the name itself if that
    does not have the ending. -/
theorem normalizeName_eq_iff : normalizeName s = n ↔ '/' ∉ n.toList ∧
    ∃ p, LeadsTo p ∧ (s = p ++ n ++ ".data" ∨ s = p ++ n ∧ ¬ EndsIn n ".data") := by
  have ending : ".data".toList = dataSuffix := rfl
  rw [normalizeName, ← String.toList_inj, String.toList_ofList,
    afterLastSlash_withoutDataSuffix_eq_iff]
  apply and_congr_right
  intro _
  simp only [leadsTo_iff, endsIn_iff, ← String.toList_inj, String.toList_append, ending]
  constructor
  · intro h
    obtain ⟨u, cut, split⟩ := h
    exact ⟨String.ofList u, by simpa only [String.toList_ofList] using ⟨cut, split⟩⟩
  · intro h
    obtain ⟨p, cut, split⟩ := h
    exact ⟨p.toList, cut, split⟩

/-- The name that a text stands for holds no slash. -/
theorem slash_not_mem_normalizeName (s : String) : '/' ∉ (normalizeName s).toList :=
  (normalizeName_eq_iff.mp rfl).1

/-- A name stands for itself exactly if it holds no slash and does not have the ending. -/
theorem normalizeName_eq_self_iff :
    normalizeName n = n ↔ '/' ∉ n.toList ∧ ¬ EndsIn n ".data" := by
  rw [normalizeName_eq_iff]
  apply and_congr_right
  intro _
  constructor
  · intro h
    obtain ⟨p, -, ended | ⟨-, plain⟩⟩ := h
    · -- a text is not longer than itself
      have length := congrArg (fun t => t.toList.length) ended
      simp only [String.toList_append, List.length_append] at length
      have five : ".data".toList.length = 5 := rfl
      omega
    · exact plain
  · intro plain
    exact ⟨"", .inl rfl, .inr ⟨(String.empty_append).symm, plain⟩⟩

/-- Which texts stand for a name; when the name that a text stands for stands for itself; and which
    names the path texts of a suite lead back to, in whatever directory it writes. -/
theorem names_by_path_and_ending :
    (∀ s n : String, normalizeName s = n ↔ '/' ∉ n.toList ∧
      ∃ p, LeadsTo p ∧ (s = p ++ n ++ ".data" ∨ s = p ++ n ∧ ¬ EndsIn n ".data")) ∧
    (∀ s : String, normalizeName (normalizeName s) = normalizeName s ↔
      ¬ EndsIn (normalizeName s) ".data") ∧
    (∀ (α : Type) (suite : Suite α) (n : String),
      normalizeName (suite.fileName n) = n ↔ '/' ∉ n.toList) := by
  refine ⟨fun s n => normalizeName_eq_iff, ?_, ?_⟩
  · intro s
    rw [normalizeName_eq_self_iff]
    exact and_iff_right (slash_not_mem_normalizeName s)
  · intro α suite n
    constructor
    · intro same
      rw [← same]
      exact slash_not_mem_normalizeName _
    · intro flat
      exact suite.normalizeName_fileName flat

/-- One ending is taken off a name that has two, and another one if it is read again. -/
example : normalizeName "a/foo.data.data" = "foo.data" ∧ normalizeName "foo.data" = "foo" := by
  decide

end CaseGen.Command
