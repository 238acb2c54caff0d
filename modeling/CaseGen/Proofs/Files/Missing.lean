import CaseGen.Files.Changes
import CaseGen.Proofs.Files.Growth

/-! # Making missing directories

    A walk that makes missing directories passes those that are there and
    makes one wherever nothing stands.  Whatever it makes lies on its way,
    and unless it goes upwards all of it lies below the first directory
    that it makes.

    * `Makes`                — such a walk, name by name
    * `makeMissing_makes`    — `makeMissing` is such a walk
    * `Reports`              — what it gives back
    * `ensureDirectory_some` — the text that leads to the first directory made -/

namespace CaseGen.Files

open Files.Tree

/-! ## Section 1: The walk -/

/-- A walk through names that makes missing directories.  It arrives at a place, or is refused
    somewhere on the way and keeps what it has made so far. -/
inductive Makes : Tree → Path → List String → Option Path → Tree → Prop where
  | arrived {t cur} : Makes t cur [] (some cur) t
  | refused {t cur names} : Makes t cur names none t
  | stay {t cur rest stop t'} : Makes t cur rest stop t' → Makes t cur ("." :: rest) stop t'
  | up {t cur rest stop t'} :
      Makes t cur.dropLast rest stop t' → Makes t cur (".." :: rest) stop t'
  | pass {t cur name rest stop t'} : IsName name → name.utf8ByteSize ≤ maxNameBytes →
      t.lookup (cur ++ [name]) = some .directory → Makes t (cur ++ [name]) rest stop t' →
      Makes t cur (name :: rest) stop t'
  | make {t cur name rest stop t'} : IsName name → name.utf8ByteSize ≤ maxNameBytes →
      t.lookup (cur ++ [name]) = none →
      Makes (t.insert (cur ++ [name]) .directory) (cur ++ [name]) rest stop t' →
      Makes t cur (name :: rest) stop t'

namespace Makes

variable {t t' : Tree} {cur : Path} {names : List String} {stop : Option Path}

theorem grows (h : Makes t cur names stop t') : t.Grows t' := by
  induction h with
  | arrived => exact .refl _
  | refused => exact .refl _
  | stay _ ih => exact ih
  | up _ ih => exact ih
  | pass _ _ _ _ ih => exact ih
  | make _ _ absent _ ih => exact (grows_insert (by simp) (by simp [absent])).trans ih

/-- A path keeps what stood there, or it was absent and is a directory on the way. -/
theorem lookup (h : Makes t cur names stop t') (q : Path) :
    t'.lookup q = t.lookup q ∨
      (t.lookup q = none ∧ t'.lookup q = some .directory ∧ q ∈ visited cur names) := by
  induction h with
  | arrived => exact .inl rfl
  | refused => exact .inl rfl
  | stay _ ih => simpa [visited] using ih
  | up _ ih => simpa [visited] using ih
  | pass hn _ _ _ ih =>
    simp only [visited, hn.1, hn.2, if_false, List.mem_cons]
    rcases ih with same | ⟨absent, made, way⟩
    · exact .inl same
    · exact .inr ⟨absent, made, .inr way⟩
  | @make t cur name rest stop t' hn _ absent more ih =>
    simp only [visited, hn.1, hn.2, if_false, List.mem_cons]
    -- the hypothesis speaks of the tree with the new directory
    rw [lookup_insert (by simp)] at ih
    by_cases e : q = cur ++ [name]
    · subst e
      refine .inr ⟨absent, ?_, .inl rfl⟩
      exact more.grows.directory _ (by simp [lookup_insert])
    · simp only [e, if_false] at ih
      rcases ih with same | ⟨gone, made, way⟩
      · exact .inl same
      · exact .inr ⟨gone, made, .inr way⟩

/-- Once arrived, the walk goes through directories alone. -/
theorem enter {p : Path} (h : Makes t cur names stop t') (arrived : stop = some p) :
    Files.enter t' cur names = .ok p := by
  induction h with
  | arrived =>
    cases arrived
    rfl
  | refused => cases arrived
  | stay _ ih => simpa using ih arrived
  | up _ ih => simpa using ih arrived
  | pass hn short there more ih =>
    exact (enter_name_eq_ok hn).mpr ⟨short, more.grows.directory _ there, ih arrived⟩
  | make hn short _ more ih =>
    -- the new directory is still there at the end of the walk
    have there := more.grows.directory _ (by rw [lookup_insert (by simp), if_pos rfl])
    exact (enter_name_eq_ok hn).mpr ⟨short, there, ih arrived⟩

/-- Without a step upwards, all that is made is at or below a directory the walk starts below. -/
theorem eraseUnder {first : Path} (h : Makes t cur names stop t') (down : ".." ∉ names)
    (below : first <+: cur) : t'.eraseUnder first = t.eraseUnder first := by
  induction h with
  | arrived => rfl
  | refused => rfl
  | stay _ ih => exact ih (by simpa using down) below
  | up _ _ => simp at down
  | pass _ _ _ _ ih =>
    exact ih (fun m => down (List.mem_cons_of_mem _ m)) (below.trans (List.prefix_append _ _))
  | @make t cur name _ _ _ _ _ _ _ ih =>
    have further : first <+: cur ++ [name] := below.trans (List.prefix_append _ _)
    rw [ih (fun m => down (List.mem_cons_of_mem _ m)) further, eraseUnder_insert further]

theorem sound (h : Makes t cur names stop t') (sound : t.Sound)
    (inside : t.lookup cur = some .directory) : t'.Sound := by
  induction h with
  | arrived => exact sound
  | refused => exact sound
  | stay _ ih => exact ih sound inside
  | up _ ih => exact ih sound (sound.dropLast inside)
  | pass _ _ there _ ih => exact ih sound there
  | make _ _ absent _ ih =>
    refine ih (sound_insert sound inside (by simp [absent])) ?_
    rw [lookup_insert (by simp), if_pos rfl]

end Makes

/-! ## Section 2: Walking through the pieces of a text -/

variable {t t' : Tree} {cur : Path} {walked rest : List String}

theorem makeMissing_skip {piece : String} (h : piece = "" ∨ piece = ".") :
    makeMissing t cur walked (piece :: rest) = makeMissing t cur (piece :: walked) rest := by
  rw [makeMissing, if_pos h]

theorem makeMissing_up :
    makeMissing t cur walked (".." :: rest) = makeMissing t cur.dropLast (".." :: walked) rest := by
  simp [makeMissing]

theorem makeMissing_pass {name : String} (h : IsName name) (ne : name ≠ "")
    (there : child t cur name = .ok (some .directory)) :
    makeMissing t cur walked (name :: rest) =
      makeMissing t (cur ++ [name]) (name :: walked) rest := by
  simp [makeMissing, h.1, h.2, ne, there]

theorem makeMissing_make {name : String} (h : IsName name) (ne : name ≠ "")
    (absent : child t cur name = .ok none) :
    makeMissing t cur walked (name :: rest) =
      ((makeMissing (t.insert (cur ++ [name]) .directory) (cur ++ [name]) (name :: walked) rest).1.map
          fun _ => some (joined (name :: walked).reverse),
        (makeMissing (t.insert (cur ++ [name]) .directory) (cur ++ [name]) (name :: walked) rest).2) := by
  simp [makeMissing, h.1, h.2, ne, absent]

theorem makeMissing_refused {name : String} (walked rest : List String) (h : IsName name)
    (ne : name ≠ "") (there : ∀ n, child t cur name = .ok n → ∃ c, n = some (.file c)) :
    ∃ e, makeMissing t cur walked (name :: rest) = (.error e, t) := by
  simp only [makeMissing, h.1, h.2, ne, or_self, if_false]
  cases found : child t cur name with
  | error e => exact ⟨e, rfl⟩
  | ok n =>
    obtain ⟨c, rfl⟩ := there n found
    exact ⟨_, rfl⟩

/-- What the first piece of a text does to a walk. -/
theorem piece_cases (t : Tree) (cur : Path) (piece : String) :
    (piece = "" ∨ piece = ".") ∨ piece = ".." ∨
      (IsName piece ∧ piece ≠ "" ∧
        (child t cur piece = .ok (some .directory) ∨ child t cur piece = .ok none ∨
          ∀ n, child t cur piece = .ok n → ∃ c, n = some (.file c))) := by
  by_cases empty : piece = ""
  · exact .inl (.inl empty)
  rcases name_cases piece with dot | up | h
  · exact .inl (.inr dot)
  · exact .inr (.inl up)
  · refine .inr (.inr ⟨h, empty, ?_⟩)
    cases child t cur piece with
    | error e => simp
    | ok n =>
      match n with
      | none => simp
      | some .directory => simp
      | some (.file c) => simp

/-- Making missing directories is a walk through the names of the pieces, and it arrives
    unless it is refused. -/
theorem makeMissing_makes (t : Tree) (cur : Path) (walked rest : List String) :
    ∃ stop, Makes t cur (rest.filter (· ≠ "")) stop (makeMissing t cur walked rest).2 ∧
      ∀ r, (makeMissing t cur walked rest).1 = .ok r → stop.isSome := by
  induction rest generalizing t cur walked with
  | nil => exact ⟨some cur, .arrived, fun _ _ => rfl⟩
  | cons piece rest ih =>
    rcases piece_cases t cur piece with (rfl | rfl) | rfl | ⟨h, ne, there | absent | file⟩
    · rw [makeMissing_skip (.inl rfl)]
      simpa using ih t cur ("" :: walked)
    · rw [makeMissing_skip (.inr rfl)]
      obtain ⟨stop, makes, arrives⟩ := ih t cur ("." :: walked)
      exact ⟨stop, .stay makes, arrives⟩
    · rw [makeMissing_up]
      obtain ⟨stop, makes, arrives⟩ := ih t cur.dropLast (".." :: walked)
      exact ⟨stop, .up makes, arrives⟩
    · rw [makeMissing_pass h ne there, List.filter_cons_of_pos (by simpa using ne)]
      obtain ⟨short, directory⟩ := child_eq_ok.mp there
      obtain ⟨stop, makes, arrives⟩ := ih t (cur ++ [piece]) (piece :: walked)
      exact ⟨stop, .pass h short directory makes, arrives⟩
    · rw [makeMissing_make h ne absent, List.filter_cons_of_pos (by simpa using ne)]
      obtain ⟨short, nothing⟩ := child_eq_ok.mp absent
      obtain ⟨stop, makes, arrives⟩ :=
        ih (t.insert (cur ++ [piece]) .directory) (cur ++ [piece]) (piece :: walked)
      refine ⟨stop, .make h short nothing makes, ?_⟩
      intro r ok
      cases more : (makeMissing (t.insert (cur ++ [piece]) .directory) (cur ++ [piece])
          (piece :: walked) rest).1 with
      | error e =>
        rw [more] at ok
        cases ok
      | ok r' => exact arrives r' more
    · obtain ⟨e, refused⟩ := makeMissing_refused walked rest h ne file
      rw [refused, List.filter_cons_of_pos (by simpa using ne)]
      exact ⟨none, .refused, fun r ok => by cases ok⟩

/-- A walk that makes a directory: the pieces up to the first one that was missing, which it
    gives back as a text, and the walk on from there. -/
structure FirstMade (t : Tree) (cur : Path) (walked rest : List String) (text : String) (t' : Tree)
    (parent : Path) (name : String) : Prop where
  ne : name ≠ ""
  isName : IsName name
  short : name.utf8ByteSize ≤ maxNameBytes
  absent : t.lookup (parent ++ [name]) = none
  split : ∃ before after stop, rest = before ++ name :: after ∧
    enter t cur (before.filter (· ≠ "")) = .ok parent ∧
    text = joined (walked.reverse ++ before ++ [name]) ∧
    Makes (t.insert (parent ++ [name]) .directory) (parent ++ [name]) (after.filter (· ≠ "")) stop t'

/-- What a walk gives back: nothing if it has made nothing, or the text of the first directory
    that it made. -/
def Reports (t : Tree) (cur : Path) (walked rest : List String) (r : Option String) (t' : Tree) :
    Prop :=
  (r = none ∧ t' = t) ∨
    ∃ text parent name, r = some text ∧ FirstMade t cur walked rest text t' parent name

/-- A piece that is passed comes in front of the walk that follows. -/
theorem Reports.cons {cur' : Path} {piece : String} {r : Option String}
    (h : Reports t cur' (piece :: walked) rest r t')
    (pass : ∀ l p, enter t cur' (l.filter (· ≠ "")) = .ok p →
      enter t cur ((piece :: l).filter (· ≠ "")) = .ok p) :
    Reports t cur walked (piece :: rest) r t' := by
  rcases h with nothing | ⟨text, parent, name, hr, first⟩
  · exact .inl nothing
  · obtain ⟨before, after, stop, pieces, inside, text_eq, makes⟩ := first.split
    refine .inr ⟨text, parent, name, hr, first.ne, first.isName, first.short, first.absent,
      piece :: before, after, stop, ?_, pass _ _ inside, ?_, makes⟩
    · rw [pieces, List.cons_append]
    · rw [text_eq]
      simp

/-- A walk that arrives reports what it has made. -/
theorem makeMissing_ok {r : Option String} (h : makeMissing t cur walked rest = (.ok r, t')) :
    Reports t cur walked rest r t' := by
  -- up to the first missing name the tree is still `t`, so the induction stops there
  induction rest generalizing cur walked with
  | nil =>
    cases h
    exact .inl ⟨rfl, rfl⟩
  | cons piece rest ih =>
    rcases piece_cases t cur piece with (rfl | rfl) | rfl | ⟨hn, ne, there | absent | file⟩
    · rw [makeMissing_skip (.inl rfl)] at h
      apply (ih h).cons
      intro l p inside
      simpa using inside
    · rw [makeMissing_skip (.inr rfl)] at h
      apply (ih h).cons
      intro l p inside
      simpa using inside
    · rw [makeMissing_up] at h
      apply (ih h).cons
      intro l p inside
      simpa using inside
    · rw [makeMissing_pass hn ne there] at h
      obtain ⟨short, directory⟩ := child_eq_ok.mp there
      apply (ih h).cons
      intro l p inside
      rw [List.filter_cons_of_pos (by simpa using ne)]
      exact (enter_name_eq_ok hn).mpr ⟨short, directory, inside⟩
    · rw [makeMissing_make hn ne absent] at h
      obtain ⟨short, nothing⟩ := child_eq_ok.mp absent
      obtain ⟨stop, makes, -⟩ := makeMissing_makes (t.insert (cur ++ [piece]) .directory)
        (cur ++ [piece]) (piece :: walked) rest
      obtain ⟨hr, rfl⟩ := Prod.mk.inj h
      -- whatever the walk makes after this one, the text of this one is given back
      refine .inr ⟨joined (piece :: walked).reverse, cur, piece, ?_, ne, hn, short, nothing,
        [], rest, stop, rfl, rfl, by simp, makes⟩
      cases more : (makeMissing (t.insert (cur ++ [piece]) .directory) (cur ++ [piece])
          (piece :: walked) rest).1 with
      | error e =>
        rw [more] at hr
        cases hr
      | ok r' =>
        rw [more] at hr
        exact (Except.ok.inj hr).symm
    · obtain ⟨e, refused⟩ := makeMissing_refused walked rest hn ne file
      rw [refused] at h
      cases h

/-! ## Section 3: Directories with their ancestors -/

variable {dir text : String}

theorem ensureDirectory_makes (t : Tree) (dir : String) :
    ∃ stop, Makes t (startOf t dir) (segments dir) stop (ensureDirectory t dir).2 ∧
      ∀ r, (ensureDirectory t dir).1 = .ok r → stop.isSome := by
  unfold ensureDirectory
  cases textRefusal? dir with
  | some e => exact ⟨none, .refused, fun r ok => by cases ok⟩
  | none => exact makeMissing_makes t (startOf t dir) [] (pieces dir)

theorem ensureDirectory_grows (t : Tree) (dir : String) : t.Grows (ensureDirectory t dir).2 := by
  obtain ⟨stop, makes, -⟩ := ensureDirectory_makes t dir
  exact makes.grows

/-- A path keeps what stood there, or it was absent and is a directory on the way. -/
theorem ensureDirectory_lookup (t : Tree) (dir : String) (q : Path) :
    (ensureDirectory t dir).2.lookup q = t.lookup q ∨
      (t.lookup q = none ∧ (ensureDirectory t dir).2.lookup q = some .directory ∧
        q ∈ visited (startOf t dir) (segments dir)) := by
  obtain ⟨stop, makes, -⟩ := ensureDirectory_makes t dir
  exact makes.lookup q

theorem ensureDirectory_sound (h : t.Sound) (dir : String) : (ensureDirectory t dir).2.Sound := by
  obtain ⟨stop, makes, -⟩ := ensureDirectory_makes t dir
  exact makes.sound h (h.startOf dir)

/-- A directory that has been ensured is entered. -/
theorem ensureDirectory_enter {r : Option String} (h : ensureDirectory t dir = (.ok r, t')) :
    enter t' (startOf t' dir) (segments dir) = .ok (t.place dir) := by
  obtain ⟨stop, makes, arrives⟩ := ensureDirectory_makes t dir
  rw [h] at makes arrives
  obtain ⟨p, rfl⟩ := Option.isSome_iff_exists.mp (arrives r rfl)
  have inside := makes.enter rfl
  rw [startOf_congr makes.grows.home Iff.rfl, inside]
  exact congrArg _ (eq_walk_of_enter inside)

theorem ensureDirectory_eq (ok : textRefusal? dir = none) (t : Tree) :
    ensureDirectory t dir = makeMissing t (startOf t dir) [] (pieces dir) := by
  simp [ensureDirectory, ok]

theorem textRefusal?_of_ok {r : Option String} (h : ensureDirectory t dir = (.ok r, t')) :
    textRefusal? dir = none := by
  unfold ensureDirectory at h
  split at h
  · cases h
  · assumption

/-- Nothing is made on the way through directories that are there. -/
theorem makeMissing_of_enter {p : Path} (h : enter t cur (rest.filter (· ≠ "")) = .ok p) :
    makeMissing t cur walked rest = (.ok none, t) := by
  induction rest generalizing cur walked with
  | nil => rfl
  | cons piece rest ih =>
    by_cases empty : piece = ""
    · rw [makeMissing_skip (.inl empty)]
      exact ih (by simpa [empty] using h)
    · rw [List.filter_cons_of_pos (by simpa using empty)] at h
      rcases name_cases piece with rfl | rfl | hn
      · rw [makeMissing_skip (.inr rfl)]
        exact ih (enter_dot t cur _ ▸ h)
      · rw [makeMissing_up]
        exact ih (enter_up t cur _ ▸ h)
      · obtain ⟨short, there, inside⟩ := (enter_name_eq_ok hn).mp h
        rw [makeMissing_pass hn empty (child_eq_ok.mpr ⟨short, there⟩)]
        exact ih inside

theorem ensureDirectory_of_enter {p : Path} (ok : textRefusal? dir = none)
    (h : enter t (startOf t dir) (segments dir) = .ok p) :
    ensureDirectory t dir = (.ok none, t) := by
  rw [ensureDirectory_eq ok]
  exact makeMissing_of_enter h

/-- A directory that was there already has not been touched. -/
theorem ensureDirectory_none (h : ensureDirectory t dir = (.ok none, t')) : t' = t := by
  rw [ensureDirectory_eq (textRefusal?_of_ok h)] at h
  rcases makeMissing_ok h with ⟨-, same⟩ | ⟨text, parent, name, hr, -⟩
  · exact same
  · cases hr

/-- A text in front of a longer one is refused only if that one is. -/
theorem textRefusal?_of_append {a b : String} (h : textRefusal? (a ++ b) = none) (ne : a ≠ "") :
    textRefusal? a = none := by
  unfold textRefusal? at h ⊢
  split at h
  · cases h
  next whole =>
    split at h
    · cases h
    · split at h
      · cases h
      next short =>
        have chars : IsPathText a := by
          intro mem
          simp [IsPathText, mem] at whole
        rw [String.utf8ByteSize_append] at short
        rw [if_neg (not_not_intro chars), if_neg ne, if_neg (by omega)]

/-- The text that is given back is the beginning of the whole one, and its names are those up to
    the first directory. -/
theorem FirstMade.text_names {name : String} {parent : Path}
    (first : FirstMade t cur [] (pieces dir) text t' parent name) :
    text ≠ "" ∧ (∃ more, dir = text ++ more) ∧
      ∃ before after stop, pieces dir = before ++ name :: after ∧
        segments text = before.filter (· ≠ "") ++ [name] ∧
        enter t cur (before.filter (· ≠ "")) = .ok parent ∧
        Makes (t.insert (parent ++ [name]) .directory) (parent ++ [name]) (after.filter (· ≠ ""))
          stop t' := by
  obtain ⟨before, after, stop, hpieces, inside, text_eq, makes⟩ := first.split
  simp only [List.reverse_nil, List.nil_append] at text_eq
  refine ⟨text_eq ▸ joined_concat_ne_empty first.ne before, ?_, before, after, stop, hpieces, ?_,
    inside, makes⟩
  · rw [text_eq, ← joined_pieces dir, hpieces, ← List.singleton_append, ← List.append_assoc]
    exact exists_joined_append (by simp)
  · rw [segments, text_eq, pieces_joined (by simp)]
    · simp [first.ne]
    · -- the pieces of the beginning are pieces of the whole
      intro s hs
      apply slash_not_mem_pieces
      show s ∈ pieces dir
      rw [hpieces]
      rcases List.mem_append.mp hs with hs | hs
      · exact List.mem_append_left _ hs
      · exact List.mem_append_right _ (List.mem_cons.mpr (.inl (List.mem_singleton.mp hs)))

/-- The text that is given back leads to the first directory that was made. -/
theorem ensureDirectory_some (h : ensureDirectory t dir = (.ok (some text), t')) :
    ∃ parent name slash, locate t' text = .ok (.entry parent name slash) ∧
      t.lookup (parent ++ [name]) = none ∧ t'.lookup (parent ++ [name]) = some .directory ∧
      (".." ∉ segments dir →
        t'.eraseUnder (parent ++ [name]) = t.eraseUnder (parent ++ [name])) := by
  have text_ok := textRefusal?_of_ok h
  have grows : t.Grows t' := by simpa [h] using ensureDirectory_grows t dir
  rw [ensureDirectory_eq text_ok] at h
  rcases makeMissing_ok h with ⟨none, -⟩ | ⟨text', parent, name, hr, first⟩
  · cases none
  obtain rfl : text = text' := Option.some.inj hr
  obtain ⟨ne, ⟨more, whole⟩, before, after, stop, hpieces, names, inside, makes⟩ := first.text_names
  have there : (t.insert (parent ++ [name]) .directory).lookup (parent ++ [name]) =
      some .directory := by
    rw [lookup_insert (by simp), if_pos rfl]
  have head : text.toList.head? = some '/' ↔ dir.toList.head? = some '/' := by
    cases chars : text.toList with
    | nil => exact absurd (String.toList_inj.mp (chars.trans String.toList_empty.symm)) ne
    | cons c cs => simp [whole, chars]
  refine ⟨parent, name, _, locate_eq_entry.mpr ⟨?_, ?_, first.isName, ?_, rfl⟩, first.absent,
    makes.grows.directory _ there, ?_⟩
  · exact textRefusal?_of_append (whole ▸ text_ok) ne
  · simp [names]
  · rw [names, List.dropLast_concat, startOf_congr grows.home head]
    exact enter_mono grows.directory inside
  · intro down
    -- what was made later is at or below the first directory
    rw [makes.eraseUnder ?_ (List.prefix_refl _), eraseUnder_insert (List.prefix_refl _)]
    intro up
    refine down (List.mem_filter.mpr ⟨?_, (List.mem_filter.mp up).2⟩)
    rw [hpieces]
    simp [(List.mem_filter.mp up).1]

end CaseGen.Files
