import CaseGen.DataFile

/-! # Names in a path text

    The names of a path text are its pieces between slashes, as far as they
    are not empty.  The directory part of a text has the names of the text
    but the last one, and a text with something added to it differs from it
    in its last piece.

    * `pieces_joined`, `joined_pieces` — cutting and joining take each other back
    * `segments_directoryOf`           — the names of the directory part
    * `segments_append`                — the names of a longer text -/

namespace CaseGen.Files

/-! ## Section 1: Pieces -/

theorem splitSlashes_eq_splitOn (cs : List Char) : splitSlashes cs = cs.splitOn '/' := by
  induction cs with
  | nil => rfl
  | cons c cs ih =>
    rw [List.splitOn_cons_eq_if_modifyHead, splitSlashes, ih]
    by_cases hc : c = '/'
    · simp [hc]
    · cases h : cs.splitOn '/' with
      | nil => exact absurd h (List.splitOn_ne_nil '/' cs)
      | cons piece rest => simp [hc]

theorem pieces_eq (text : String) : pieces text = (text.toList.splitOn '/').map String.ofList := by
  rw [pieces, splitSlashes_eq_splitOn]

theorem pieces_ne_nil (text : String) : pieces text ≠ [] := by
  simp [pieces_eq, List.splitOn_ne_nil]

theorem joined_pieces (text : String) : joined (pieces text) = text := by
  refine String.toList_inj.mp ?_
  have back : (text.toList.splitOn '/').map (String.toList ∘ String.ofList) =
      text.toList.splitOn '/' := by
    simp [Function.comp_def]
  rw [joined, String.toList_intercalate, pieces_eq, List.map_map, back]
  exact List.intercalate_splitOn '/'

/-- Pieces without a slash are those of their joined text. -/
theorem pieces_joined {l : List String} (hl : l ≠ []) (h : ∀ s ∈ l, '/' ∉ s.toList) :
    pieces (joined l) = l := by
  have cut : (l.map String.toList).map String.ofList = l := by simp [Function.comp_def]
  rw [pieces_eq, joined, String.toList_intercalate]
  refine Eq.trans (congrArg (List.map String.ofList) ?_) cut
  exact List.splitOn_intercalate '/' (by simpa using h) (by simpa using hl)

/-- Some first pieces give a text that the whole one starts with. -/
theorem exists_joined_append {l m : List String} (hl : l ≠ []) :
    ∃ more, joined (l ++ m) = joined l ++ more := by
  by_cases hm : m = []
  · exact ⟨"", by simp [hm]⟩
  · refine ⟨"/" ++ joined m, ?_⟩
    rw [joined, String.intercalate_append_of_ne_nil hl hm, String.append_assoc]
    rfl

theorem joined_concat_ne_empty {name : String} (ne : name ≠ "") (l : List String) :
    joined (l ++ [name]) ≠ "" := by
  by_cases hl : l = []
  · simpa [hl, joined] using ne
  · rw [joined, String.intercalate_append_of_ne_nil hl (by simp)]
    simp [String.append_eq_empty_iff]

theorem pieces_append_slash (a b : String) : pieces (a ++ "/" ++ b) = pieces a ++ pieces b := by
  simp [pieces_eq, List.splitOn_append_cons_self]

theorem pieces_of_no_slash {a : String} (h : '/' ∉ a.toList) : pieces a = [a] := by
  simp [pieces_eq, List.splitOn_eq_singleton h]

theorem slash_not_mem_splitSlashes (cs : List Char) : ∀ s ∈ splitSlashes cs, '/' ∉ s := by
  fun_induction splitSlashes cs with
  | case1 => simp
  | case2 cs ih => simpa using ih
  | case3 c cs hc none ih => simpa using Ne.symm hc
  | case4 c cs hc piece rest cut ih =>
    rw [cut] at ih
    refine List.forall_mem_cons.mpr ⟨?_, fun s hs => ih s (List.mem_cons_of_mem _ hs)⟩
    simpa using ⟨Ne.symm hc, ih piece List.mem_cons_self⟩

theorem slash_not_mem_pieces {text s : String} (h : s ∈ pieces text) : '/' ∉ s.toList := by
  obtain ⟨cs, hcs, rfl⟩ := List.mem_map.mp h
  simpa using slash_not_mem_splitSlashes _ cs hcs

/-- A text that is longer by something without a slash differs in its last piece only. -/
theorem pieces_append {text s last : String} {init : List String} (h : pieces text = init ++ [last])
    (hs : '/' ∉ s.toList) : pieces (text ++ s) = init ++ [last ++ s] := by
  have whole : text ++ s = joined (init ++ [last ++ s]) := by
    rw [← joined_pieces text, h, joined, joined]
    by_cases hi : init = []
    · simp [hi]
    · -- joining sets the last piece apart from those before it
      rw [String.intercalate_append_of_ne_nil hi (by simp),
        String.intercalate_append_of_ne_nil hi (by simp)]
      simp [String.append_assoc]
  rw [whole, pieces_joined (by simp)]
  intro t ht
  rcases List.mem_append.mp ht with ht | ht
  · have mem : t ∈ pieces text := by simp [h, ht]
    exact slash_not_mem_pieces mem
  · have mem : last ∈ pieces text := by simp [h]
    have := slash_not_mem_pieces mem
    simp_all

theorem exists_last_piece (text : String) : ∃ init last, pieces text = init ++ [last] := by
  rcases List.eq_nil_or_concat (pieces text) with none | ⟨init, last, cut⟩
  · exact absurd none (pieces_ne_nil text)
  · exact ⟨init, last, by rw [cut, List.concat_eq_append]⟩

/-- A text whose last piece is not empty does not end with a slash. -/
theorem getLast?_ne_slash {text last : String} {init : List String}
    (cut : pieces text = init ++ [last]) (ne : last ≠ "") : text.toList.getLast? ≠ some '/' := by
  have chars : last.toList ≠ [] := by simpa using ne
  have no_slash : '/' ∉ last.toList := slash_not_mem_pieces (show last ∈ pieces text by simp [cut])
  have ends : ∃ start, text.toList = start ++ last.toList := by
    rw [← joined_pieces text, cut, joined]
    by_cases hi : init = []
    · exact ⟨[], by simp [hi]⟩
    · rw [String.intercalate_append_of_ne_nil hi (by simp)]
      exact ⟨(joined init ++ "/").toList, by simp [joined]⟩
  obtain ⟨start, ends⟩ := ends
  rw [ends, List.getLast?_append, List.getLast?_eq_some_getLast chars]
  intro slash
  exact no_slash (Option.some.inj slash ▸ List.getLast_mem chars)

/-! ## Section 2: Names -/

theorem segments_append_slash (a b : String) :
    segments (a ++ "/" ++ b) = segments a ++ segments b := by
  simp [segments, pieces_append_slash]

theorem segments_of_no_slash {a : String} (h : '/' ∉ a.toList) (ha : a ≠ "") : segments a = [a] := by
  simp [segments, pieces_of_no_slash h, ha]

/-- The names of a text that is longer by a non-empty text without a slash. -/
theorem segments_append {text s last : String} {init : List String}
    (h : pieces text = init ++ [last]) (hs : '/' ∉ s.toList) (ne : s ≠ "") :
    segments (text ++ s) = init.filter (· ≠ "") ++ [last ++ s] := by
  have : last ++ s ≠ "" := by simp [String.append_eq_empty_iff, ne]
  rw [segments, pieces_append h hs, List.filter_append]
  simp [this]

theorem segments_of_pieces {text last : String} {init : List String}
    (h : pieces text = init ++ [last]) (ne : last ≠ "") :
    segments text = init.filter (· ≠ "") ++ [last] := by
  simp [segments, h, ne]

theorem segments_slashes {cs : List Char} (h : ∀ c ∈ cs, c = '/') : segments (String.ofList cs) = [] := by
  induction cs with
  | nil => rfl
  | cons c cs ih =>
    obtain ⟨rfl, rest⟩ := List.forall_mem_cons.mp h
    have : String.ofList ('/' :: cs) = "" ++ "/" ++ String.ofList cs :=
      String.toList_inj.mp (by simp)
    rw [this, segments_append_slash, ih rest]
    rfl

theorem segments_append_slashes {a : String} {cs : List Char} (h : ∀ c ∈ cs, c = '/') :
    segments (a ++ String.ofList cs) = segments a := by
  cases cs with
  | nil => simp
  | cons c cs =>
    obtain ⟨rfl, rest⟩ := List.forall_mem_cons.mp h
    have : a ++ String.ofList ('/' :: cs) = a ++ "/" ++ String.ofList cs :=
      String.toList_inj.mp (by simp)
    rw [this, segments_append_slash, segments_slashes rest, List.append_nil]

/-! ## Section 3: The directory part -/

theorem mem_takeWhile {p : Char → Bool} {l : List Char} {c : Char} (h : c ∈ l.takeWhile p) : p c :=
  List.all_eq_true.mp List.all_takeWhile c h

/-- A text cut in three: its directory with a slash, its last name, and slashes at the end that
    do not count.  The directory is given from its end. -/
theorem exists_directory_split (text : String) :
    ∃ before name slashes : List Char, text.toList = before.reverse ++ name ++ slashes ∧
      (∀ c ∈ slashes, c = '/') ∧ '/' ∉ name ∧ (before ≠ [] → name ≠ [] ∧ before.head? = some '/') ∧
      (text.toList.reverse.dropWhile (· = '/')).dropWhile (· ≠ '/') = before := by
  let trimmed := text.toList.reverse.dropWhile (· = '/')
  refine ⟨trimmed.dropWhile (· ≠ '/'), (trimmed.takeWhile (· ≠ '/')).reverse,
    (text.toList.reverse.takeWhile (· = '/')).reverse, ?_, ?_, ?_, ?_, rfl⟩
  · rw [← List.reverse_append, List.takeWhile_append_dropWhile, ← List.reverse_append,
      List.takeWhile_append_dropWhile, List.reverse_reverse]
  · intro c hc
    simpa using mem_takeWhile (List.mem_reverse.mp hc)
  · intro hc
    simpa using mem_takeWhile (List.mem_reverse.mp hc)
  · intro ne
    have first := List.head?_dropWhile_not (fun c => decide (c ≠ '/')) trimmed
    have start := List.head?_dropWhile_not (fun c => decide (c = '/')) text.toList.reverse
    cases h : trimmed.dropWhile (· ≠ '/') with
    | nil => exact absurd h ne
    | cons c rest =>
      rw [h] at first
      have slash : c = '/' := by simpa using first
      refine ⟨fun none => ?_, by simp [slash]⟩
      -- without a name the slash would stand where all slashes are gone
      have whole := List.takeWhile_append_dropWhile (p := fun c => decide (c ≠ '/')) (l := trimmed)
      rw [List.reverse_eq_nil_iff.mp none, h, List.nil_append] at whole
      rw [show text.toList.reverse.dropWhile (· = '/') = trimmed from rfl, ← whole] at start
      simp [slash] at start

/-- The names of the directory part, up to steps to itself, are the names but the last one. -/
theorem segments_directoryOf (text : String) :
    (segments (directoryOf text)).filter (· ≠ ".") = (segments text).dropLast.filter (· ≠ ".") := by
  obtain ⟨before, name, slashes, whole, hs, hn, hb, eq⟩ := exists_directory_split text
  have single : (segments (String.ofList name)).dropLast = [] := by
    by_cases ne : String.ofList name = ""
    · rw [ne]; rfl
    · rw [segments_of_no_slash (by simpa using hn) ne]; rfl
  simp only [directoryOf, eq]
  match before, whole, hb with
  | [], whole, _ =>
    -- no slash in front of the name: the directory part is one of the two texts without names
    have cut : text = String.ofList name ++ String.ofList slashes :=
      String.toList_inj.mp (by simp [whole])
    rw [show (segments text).dropLast = [] by rw [cut, segments_append_slashes hs, single]]
    simp only
    split <;> decide
  | c :: rest, whole, hb =>
    -- the directory part ends in front of the slash that stands before the name
    obtain ⟨ne, first⟩ := hb (by simp)
    obtain rfl : c = '/' := by simpa using first
    have cut : text =
        String.ofList rest.reverse ++ "/" ++ (String.ofList name ++ String.ofList slashes) :=
      String.toList_inj.mp (by simp [whole])
    have last : segments (String.ofList name) = [String.ofList name] :=
      segments_of_no_slash (by simpa using hn) (by simpa using ne)
    rw [cut, segments_append_slash, segments_append_slashes hs, last, List.dropLast_concat]
    match rest with
    | [] =>
      simp only
      decide
    | d :: rest =>
      simp only
      split
      · next single => rw [single]; decide
      · rfl

/-- The names of the directory part of a text are names of the text. -/
theorem up_not_mem_directoryOf {text : String} (down : ".." ∉ segments text) :
    ".." ∉ segments (directoryOf text) := by
  intro up
  have kept : ".." ∈ (segments (directoryOf text)).filter (· ≠ ".") :=
    List.mem_filter.mpr ⟨up, by decide⟩
  rw [segments_directoryOf] at kept
  exact down (List.dropLast_subset _ (List.mem_filter.mp kept).1)

/-- Without its last name a text is cut at the slash before that name. -/
theorem dropWhile_reverse_append {u name : List Char} (cut : u = [] ∨ u.getLast? = some '/')
    (ne : name ≠ []) (slash : '/' ∉ name) :
    ((u ++ name).reverse.dropWhile (· = '/')).dropWhile (· ≠ '/') = u.reverse := by
  have chars : ∀ c ∈ name.reverse, c ≠ '/' := by
    rintro c mem rfl
    exact slash (List.mem_reverse.mp mem)
  have trimmed : (u ++ name).reverse.dropWhile (· = '/') = name.reverse ++ u.reverse := by
    rw [List.reverse_append]
    obtain ⟨c, rest, eq⟩ := List.exists_cons_of_ne_nil (mt List.reverse_eq_nil_iff.mp ne)
    rw [eq, List.cons_append, List.dropWhile_cons_of_neg]
    simpa using chars c (by simp [eq])
  rw [trimmed, List.dropWhile_append_of_pos (by simpa using chars)]
  rcases cut with rfl | last
  · rfl
  · obtain ⟨before, rfl⟩ := List.getLast?_eq_some_iff.mp last
    simp

/-- The directory part of a text does not depend on its last name. -/
theorem directoryOf_congr {u name name' : List Char} (cut : u = [] ∨ u.getLast? = some '/')
    (ne : name ≠ []) (slash : '/' ∉ name) (ne' : name' ≠ []) (slash' : '/' ∉ name') :
    directoryOf (String.ofList (u ++ name)) = directoryOf (String.ofList (u ++ name')) := by
  simp only [directoryOf, String.toList_ofList, dropWhile_reverse_append cut ne slash,
    dropWhile_reverse_append cut ne' slash']
  cases reversed : u.reverse with
  | nil =>
    -- there is no slash at all
    obtain rfl := List.reverse_eq_nil_iff.mp reversed
    have head (l : List Char) (h : '/' ∉ l) : ([] ++ l).head? ≠ some '/' :=
      fun first => h (List.mem_of_head? first)
    simp only [if_neg (head name slash), if_neg (head name' slash')]
  | cons c rest => cases rest <;> rfl

theorem directoryOf_head? (text : String) :
    (directoryOf text).toList.head? = some '/' ↔ text.toList.head? = some '/' := by
  obtain ⟨before, name, slashes, whole, -, -, hb, eq⟩ := exists_directory_split text
  simp only [directoryOf, eq]
  match before, whole, hb with
  | [], _, _ => by_cases h : text.toList.head? = some '/' <;> simp [h]
  | [c], whole, hb =>
    have slash : c = '/' := by simpa using (hb (by simp)).2
    simp [whole, slash]
  | c :: d :: rest, whole, _ =>
    have start : text.toList.head? = (d :: rest).reverse.head? := by
      rw [whole, List.reverse_cons, List.append_assoc, List.append_assoc, List.head?_append]
      simp
    rw [start]
    simp only
    split
    · next single => simp [single]
    · simp

end CaseGen.Files
