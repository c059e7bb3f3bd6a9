import StatContract.File.Path

/-!
# The directories above a path

What the directory is that a relative path lies in can be said of its text alone. The text names
components, which are its parts between slashes without those that do not count, and the directory
is the shortest beginning of the text that names all components but the last (`LiesIn`). From a path
on, these directories form a chain, and a `Chain` ends with the empty path.

A text that is not empty has a first part that counts, and the parts after it; `Spelled` says which
they are. One removal of a part keeps the first part and leaves fewer parts after it, or it leaves
the empty path (`Spelled.parent?_of_cons`, `Spelled.parent?_of_nil`), so `ancestors` goes along a
chain (`chain_ancestors`). That no shorter beginning names the same components is shown by
counting the letters in them (`letters_length_lt`).
-/

namespace StatContract

namespace Path

/-! ### Parts -/

/-- No part has a slash in it. -/
def SlashFree (ps : List String) : Prop := ∀ part ∈ ps, '/' ∉ part.toList

theorem splitSlashes_eq_splitOn (cs : List Char) : splitSlashes cs = cs.splitOn '/' := by
  induction cs with
  | nil => rfl
  | cons c cs ih =>
      rw [List.splitOn_eq_splitOnP] at ih ⊢
      rw [splitSlashes, ih, List.splitOnP_cons_eq_if_modifyHead]
      cases h : cs.splitOnP (· == '/') with
      | nil => exact absurd h (List.splitOnP_ne_nil _ cs)
      | cons part rest => simp

theorem parts_ne_nil (cs : List Char) : parts cs ≠ [] := by
  simp [parts, splitSlashes_eq_splitOn, List.splitOn_eq_splitOnP, List.splitOnP_ne_nil]

/-- There is a last part. -/
theorem exists_parts_eq (cs : List Char) : ∃ before part, parts cs = before ++ [part] := by
  obtain ⟨before, part, h⟩ := (List.eq_nil_or_concat (parts cs)).resolve_left (parts_ne_nil cs)
  exact ⟨before, part, h.trans List.concat_eq_append⟩

theorem parts_append_slash (a b : List Char) : parts (a ++ '/' :: b) = parts a ++ parts b := by
  simp only [parts, splitSlashes_eq_splitOn, List.splitOn_eq_splitOnP]
  rw [List.splitOnP_append_cons _ _ rfl, List.map_append]

theorem slashFree_parts (cs : List Char) : SlashFree (parts cs) := by
  suffices h : ∀ part ∈ splitSlashes cs, '/' ∉ part by simpa [SlashFree, parts] using h
  fun_induction splitSlashes cs with
  | case1 => simp
  | case2 c cs hnil =>
      rw [splitSlashes_eq_splitOn, List.splitOn_eq_splitOnP] at hnil
      exact absurd hnil (List.splitOnP_ne_nil _ cs)
  | case3 cs part rest hparts ih => simpa [hparts] using ih
  | case4 c cs part rest hparts hc ih =>
      rw [hparts] at ih
      simpa [Ne.symm hc] using ih

theorem intercalate_parts (cs : List Char) : "/".intercalate (parts cs) = String.ofList cs := by
  have hmap : (parts cs).map String.toList = cs.splitOn '/' := by
    simp [parts, splitSlashes_eq_splitOn, Function.comp_def]
  apply String.toList_inj.1
  rw [String.toList_intercalate, hmap]
  exact (List.intercalate_splitOn '/').trans String.toList_ofList.symm

theorem parts_intercalate {ps : List String} (hne : ps ≠ []) (h : SlashFree ps) :
    parts ("/".intercalate ps).toList = ps := by
  have hfree : ∀ part ∈ ps.map String.toList, '/' ∉ part := by simpa [SlashFree] using h
  have hsplit := List.splitOn_intercalate '/' hfree (by simpa using hne)
  rw [parts, splitSlashes_eq_splitOn, String.toList_intercalate]
  refine (congrArg (List.map String.ofList) hsplit).trans ?_
  simp

/-- A further letter goes to the last part. -/
theorem parts_concat {cs : List Char} {before : List String} {part : String}
    (h : parts cs = before ++ [part]) {c : Char} (hc : c ≠ '/') :
    parts (cs ++ [c]) = before ++ [part.push c] := by
  have hfree : SlashFree (before ++ [part.push c]) := by
    have hparts := slashFree_parts cs
    rw [h] at hparts
    simp only [SlashFree, List.forall_mem_append, List.forall_mem_singleton] at hparts ⊢
    exact ⟨hparts.1, by simpa [Ne.symm hc] using hparts.2⟩
  have htext : cs ++ [c] = ("/".intercalate (before ++ [part.push c])).toList := by
    rw [← @String.toList_ofList cs, ← intercalate_parts, h]
    cases before with
    | nil => simp
    | cons first more =>
        rw [String.intercalate_append_of_ne_nil (by simp) (by simp),
          String.intercalate_append_of_ne_nil (by simp) (by simp)]
        simp only [String.intercalate_singleton, String.toList_append, String.toList_push,
          List.append_assoc]
  rw [htext, parts_intercalate (by simp) hfree]

/-! ### Components -/

/-- Whether a part counts after the given ones. A point counts at the start only. -/
def counts (before : List String) (part : String) : Bool :=
  part ≠ "" && (before.isEmpty || part ≠ ".")

/-- The parts that count. -/
def kept : List String → List String
  | [] => []
  | first :: rest => (if counts [] first then [first] else []) ++ rest.filter (counts [first])

/-- The components that the text of a relative path names. -/
def components (s : String) : List String := kept (parts s.toList)

/-- The letters in the components. -/
def letters (cs : List Char) : List Char := (kept (parts cs)).flatMap String.toList

theorem kept_concat (before : List String) (part : String) :
    kept (before ++ [part]) = kept before ++ if counts before part then [part] else [] := by
  cases before with
  | nil => simp [kept]
  | cons first rest =>
      have hcounts : counts (first :: rest) part = counts [first] part := rfl
      simp [kept, List.filter_cons, hcounts]

theorem counts_cons (first : String) (rest : List String) :
    counts (first :: rest) = (!isFiller ·) := by
  funext part
  simp [counts, isFiller]

theorem counts_of_not_isFiller {part : String} (h : isFiller part = false) (before : List String) :
    counts before part = true := by
  obtain ⟨hempty, hpoint⟩ : part ≠ "" ∧ part ≠ "." := by simpa [isFiller] using h
  simp [counts, hempty, hpoint]

theorem counts_push {before : List String} {part : String} (h : counts before part = true)
    (c : Char) : counts before (part.push c) = true := by
  have hne : part.length ≠ 0 := by
    intro hzero
    rw [String.length_eq_zero_iff.1 hzero] at h
    cases h
  have hlength : 1 < (part.push c).length := by
    rw [String.length_push]
    omega
  have hempty : part.push c ≠ "" := fun h => absurd (h ▸ hlength) (by decide)
  have hpoint : part.push c ≠ "." := fun h => absurd (h ▸ hlength) (by decide)
  simp [counts, hempty, hpoint]

/-- A slash at the end names nothing. -/
theorem kept_parts_concat_slash (cs : List Char) :
    kept (parts (cs ++ ['/'])) = kept (parts cs) := by
  rw [parts_append_slash, show parts [] = [""] from rfl, kept_concat]
  simp [counts]

theorem letters_length_concat (cs : List Char) (c : Char) :
    (letters cs).length ≤ (letters (cs ++ [c])).length := by
  by_cases hc : c = '/'
  · have hsame : letters (cs ++ [c]) = letters cs := by
      rw [letters, letters, hc, kept_parts_concat_slash]
    exact Nat.le_of_eq (congrArg List.length hsame.symm)
  · obtain ⟨before, part, hparts⟩ := exists_parts_eq cs
    rw [letters, letters, parts_concat hparts hc, hparts, kept_concat, kept_concat]
    cases hcounts : counts before part with
    | false => simp
    | true => simp [counts_push hcounts c]

theorem letters_length_le {a b : List Char} (h : a <+: b) :
    (letters a).length ≤ (letters b).length := by
  obtain ⟨cs, rfl⟩ := h
  induction cs generalizing a with
  | nil => simp
  | cons c cs ih =>
      rw [List.append_cons a c cs]
      exact Nat.le_trans (letters_length_concat a c) ih

/-- A text that ends with a component has more letters in its components than any proper beginning
of it. -/
theorem letters_length_lt {a b : List Char} {before : List String} {part : String}
    (hparts : parts b = before ++ [part]) (hcounts : counts before part = true) (h : a <+: b)
    (hne : a ≠ b) : (letters a).length < (letters b).length := by
  obtain rfl | ⟨cs, c, rfl⟩ := List.eq_nil_or_concat b
  · exact absurd (List.prefix_nil.1 h) hne
  rw [List.concat_eq_append] at *
  have ha : a <+: cs := (List.prefix_concat_iff.1 h).resolve_left hne
  refine Nat.lt_of_le_of_lt (letters_length_le ha) ?_
  have hc : c ≠ '/' := by
    rintro rfl
    rw [parts_append_slash] at hparts
    obtain ⟨-, hpart⟩ := List.append_inj' hparts rfl
    rw [← List.singleton_inj.1 hpart] at hcounts
    cases hcounts
  -- The last letter belongs to the last part, so without it that part is shorter or gone.
  obtain ⟨before', part', hparts'⟩ := exists_parts_eq cs
  rw [parts_concat hparts' hc] at hparts
  obtain ⟨rfl, hpart⟩ := List.append_inj' hparts rfl
  obtain rfl := List.singleton_inj.1 hpart
  rw [letters, letters, parts_concat hparts' hc, hparts', kept_concat, kept_concat]
  cases counts before' part' with
  | false => simp [hcounts]
  | true => simp [hcounts]

/-! ### Directories -/

/-- A text is that of a relative path. -/
def IsRelative (s : String) : Prop := s.toList.head? ≠ some '/'

instance (s : String) : Decidable (IsRelative s) := inferInstanceAs (Decidable (_ ≠ _))

/-- The relative path `p` lies in the directory `q`, which is the shortest beginning of `p` with
all components but the last. -/
structure LiesIn (p q : String) : Prop where
  ne_nil : components p ≠ []
  components_eq : components q = (components p).dropLast
  begins : q.toList <+: p.toList
  shortest : ∀ r : String, r.toList <+: p.toList → components r = (components p).dropLast →
    q.toList.length ≤ r.toList.length

/-- A relative path, the directory it lies in, the directory that lies in, and so on to the empty
path. -/
inductive Chain : String → List String → Prop where
  | empty : Chain "" [""]
  | up {p q : String} {dirs : List String} (h : LiesIn p q) (hq : Chain q dirs) :
      Chain p (p :: dirs)

theorem LiesIn.unique {p q q' : String} (h : LiesIn p q) (h' : LiesIn p q') : q = q' := by
  have hle := h.shortest q' h'.begins h'.components_eq
  have hge := h'.shortest q h.begins h.components_eq
  exact String.toList_inj.1 ((List.prefix_of_prefix_length_le h.begins h'.begins hle).eq_of_length
    (Nat.le_antisymm hle hge))

theorem not_liesIn_empty (q : String) : ¬ LiesIn "" q := fun h => h.ne_nil rfl

theorem Chain.unique {p : String} {dirs dirs' : List String} (h : Chain p dirs)
    (h' : Chain p dirs') : dirs = dirs' := by
  induction h generalizing dirs' with
  | empty =>
      cases h' with
      | empty => rfl
      | up h _ => exact absurd h (not_liesIn_empty _)
  | up h _ ih =>
      cases h' with
      | empty => exact absurd h (not_liesIn_empty _)
      | up h' hq' => rw [ih (h.unique h' ▸ hq')]

/-- A beginning that ends with a component is the shortest one with its components. -/
theorem LiesIn.of_counts {p q : String} (hp : components p ≠ [])
    (hcomponents : components q = (components p).dropLast) (hbegins : q.toList <+: p.toList)
    {before : List String} {part : String} (hparts : parts q.toList = before ++ [part])
    (hcounts : counts before part = true) : LiesIn p q := by
  refine ⟨hp, hcomponents, hbegins, fun r hr hrcomponents => Nat.le_of_not_lt fun hlt => ?_⟩
  have hrq : r.toList <+: q.toList :=
    List.prefix_of_prefix_length_le hr hbegins (Nat.le_of_lt hlt)
  have hne : r.toList ≠ q.toList := fun h => Nat.ne_of_lt hlt (congrArg List.length h)
  have hletters : letters r.toList = letters q.toList :=
    congrArg (List.flatMap String.toList) (hrcomponents.trans hcomponents.symm)
  exact Nat.ne_of_lt (letters_length_lt hparts hcounts hrq hne) (congrArg List.length hletters)

/-- The text with a first part and, last first, the parts after it. -/
def spell (first : String) (more : List String) : String := "/".intercalate (first :: more.reverse)

section Spell

variable {first part : String} {more more' rest : List String}

theorem parts_spell (h : SlashFree (first :: more)) :
    parts (spell first more).toList = first :: more.reverse :=
  parts_intercalate (by simp) (by simpa [SlashFree] using h)

theorem components_spell (hfirst : first ≠ "") (h : SlashFree (first :: more)) :
    components (spell first more) = first :: (more.filter (!isFiller ·)).reverse := by
  have hcounts : counts [] first = true := by simp [counts, hfirst]
  rw [components, parts_spell h, kept, counts_cons, if_pos hcounts, List.filter_reverse,
    List.singleton_append]

theorem spell_begins (first : String) (h : more' <:+ more) :
    (spell first more').toList <+: (spell first more).toList := by
  obtain ⟨newer, rfl⟩ := h
  cases newer with
  | nil => exact List.prefix_rfl
  | cons part newer =>
      have hsplit : first :: (part :: newer ++ more').reverse =
          (first :: more'.reverse) ++ (part :: newer).reverse := by simp
      rw [spell, spell, hsplit, String.intercalate_append_of_ne_nil (by simp) (by simp)]
      simp only [String.toList_append, List.append_assoc]
      exact List.prefix_append _ _

theorem filter_counted (rev : List String) :
    (counted rev).filter (!isFiller ·) = rev.filter (!isFiller ·) := by
  induction rev with
  | nil => rfl
  | cons part rest ih =>
      cases h : isFiller part with
      | true => simpa [counted, h] using ih
      | false => simp [counted, h]

theorem isFiller_of_counted (h : counted more = part :: rest) : isFiller part = false := by
  have hhead := List.head?_dropWhile_not isFiller more
  rw [show more.dropWhile isFiller = part :: rest from h] at hhead
  exact hhead

theorem counted_suffix (rev : List String) : counted rev <:+ rev := List.dropWhile_suffix isFiller

theorem SlashFree.of_suffix (h : SlashFree (first :: more)) (hmore : more' <:+ more) :
    SlashFree (first :: more') :=
  fun part hpart => h part ((hmore.sublist.cons_cons first).mem hpart)

/-- What is left without the last part that counts. -/
theorem counted_rest_suffix (h : counted more = part :: rest) : counted rest <:+ more :=
  (counted_suffix rest).trans ((List.suffix_cons part rest).trans (h ▸ counted_suffix more))

theorem liesIn_spell (hfirst : first ≠ "") (hfree : SlashFree (first :: more))
    (hmore : counted more = part :: rest) :
    LiesIn (spell first more) (spell first (counted rest)) := by
  have hfree' := hfree.of_suffix (counted_rest_suffix hmore)
  have hcomponents := components_spell hfirst hfree
  have hparts := parts_spell hfree'
  have hbegins := spell_begins first (counted_rest_suffix hmore)
  have heq : components (spell first (counted rest)) =
      (components (spell first more)).dropLast := by
    rw [hcomponents, components_spell hfirst hfree', filter_counted, ← filter_counted more, hmore]
    simp [isFiller_of_counted hmore, List.dropLast_cons_of_ne_nil]
  have hne : components (spell first more) ≠ [] := by simp [hcomponents]
  -- The text ends with the last of the remaining parts, or with the first part.
  cases hrest : counted rest with
  | nil =>
      rw [hrest] at hparts hbegins heq
      have hcounts : counts [] first = true := by simp [counts, hfirst]
      exact .of_counts hne heq hbegins hparts hcounts
  | cons last older =>
      rw [hrest] at hparts hbegins heq
      have hlast := counts_of_not_isFiller (isFiller_of_counted hrest) (first :: older.reverse)
      exact .of_counts hne heq hbegins (by simpa using hparts) hlast

theorem liesIn_spell_empty (hfirst : first ≠ "") (hfree : SlashFree (first :: more))
    (hmore : counted more = []) : LiesIn (spell first more) "" := by
  have hcomponents := components_spell hfirst hfree
  rw [← filter_counted, hmore] at hcomponents
  refine ⟨by simp [hcomponents], ?_, List.nil_prefix, fun _ _ _ => Nat.zero_le _⟩
  rw [hcomponents]
  rfl

end Spell

theorem counted_concat (rev : List String) (part : String) : counted (rev ++ [part]) =
    if (counted rev).isEmpty then counted [part] else counted rev ++ [part] :=
  List.dropWhile_append

/-- How a path is written that is relative and not empty: its first part, which counts, and the
others, last first. -/
inductive Spelled : Path → String → List String → Prop where
  | named {first : String} {more : List String} (h : isFiller first = false) :
      Spelled ⟨.relative, more ++ [first]⟩ first more
  | here : Spelled ⟨.here, []⟩ "." []
  | below {more : List String} : Spelled ⟨.here, more ++ [""]⟩ "." more

namespace Spelled

variable {p : Path} {first part : String} {more rest : List String}

theorem ne_empty (h : Spelled p first more) : first ≠ "" := by
  cases h with
  | named h =>
      rintro rfl
      cases h
  | here => decide
  | below => decide

theorem text_eq (h : Spelled p first more) : p.text = spell first more := by
  cases h with
  | named => simp [text, spell]
  | here => rfl
  | below =>
      cases hmore : more.reverse with
      | nil => simp [text, spell, hmore]
      | cons next others =>
          simp only [text, spell, hmore, List.reverse_append, List.reverse_singleton,
            List.singleton_append, String.intercalate_cons_cons, String.empty_append,
            String.append_assoc]

theorem parent?_of_nil (h : Spelled p first more) (hmore : counted more = []) :
    p.parent? = some ⟨.relative, []⟩ := by
  cases h with
  | named h =>
      have hfirst : counted [first] = [first] := by simp [counted, h]
      simp [parent?, counted_concat, hmore, hfirst]
  | here => rfl
  | below =>
      have hempty : counted [""] = [] := rfl
      simp [parent?, counted_concat, hmore, hempty]

theorem parent?_of_cons (h : Spelled p first more) (hmore : counted more = part :: rest) :
    ∃ q, p.parent? = some q ∧ Spelled q first (counted rest) := by
  cases h with
  | named h =>
      have hfirst : counted [first] = [first] := by simp [counted, h]
      have hrest : counted (rest ++ [first]) = counted rest ++ [first] := by
        rw [counted_concat, hfirst]
        cases counted rest <;> rfl
      exact ⟨_, by simp [parent?, counted_concat more, hmore, hrest], .named h⟩
  | here => cases hmore
  | below =>
      refine ⟨⟨.here, counted (rest ++ [""])⟩, by simp [parent?, counted_concat more, hmore], ?_⟩
      rw [counted_concat]
      cases counted rest with
      | nil => exact .here
      | cons next others => exact .below

end Spelled

/-- The removal of parts goes along the chain of directories. -/
theorem chain_ancestors {p : Path} {first : String} {more : List String} (h : Spelled p first more)
    (hfree : SlashFree (first :: more)) : Chain p.text (p.ancestors.map text) := by
  rw [ancestors_eq, List.map_cons, h.text_eq]
  cases hmore : counted more with
  | nil =>
      rw [h.parent?_of_nil hmore]
      exact .up (liesIn_spell_empty h.ne_empty hfree hmore) .empty
  | cons part rest =>
      obtain ⟨q, hparent, hq⟩ := h.parent?_of_cons hmore
      have hsuffix := counted_rest_suffix hmore
      -- With each removal there are fewer parts after the first, which is why the walk ends.
      have hshorter : (counted rest).length < more.length := by
        have hle := (counted_suffix more).length_le
        rw [hmore, List.length_cons] at hle
        exact Nat.lt_of_le_of_lt (counted_suffix rest).length_le hle
      rw [hparent]
      have hchain := chain_ancestors hq (hfree.of_suffix hsuffix)
      rw [hq.text_eq] at hchain
      exact .up (liesIn_spell h.ne_empty hfree hmore) hchain
termination_by more.length

theorem text_ofString (s : String) : (ofString s).text = s := by
  apply String.toList_inj.1
  unfold ofString
  split
  case h_1 cs hs => simp [text, intercalate_parts, hs]
  case h_2 hs => simp [text, hs]
  case h_3 cs hs => simp [text, intercalate_parts, hs]
  case h_4 => simp [text, intercalate_parts]

/-- A text whose first part does not count is empty or absolute or starts with a point. -/
theorem cases_of_isFiller {s first : String} {rest : List String}
    (hparts : parts s.toList = first :: rest) (hfirst : isFiller first = true) :
    s = "" ∨ (∃ cs, s.toList = '/' :: cs) ∨ s.toList = ['.'] ∨
      ∃ cs, s.toList = '.' :: '/' :: cs := by
  have htext : s = "/".intercalate (first :: rest) := by
    rw [← hparts, intercalate_parts, String.ofList_toList]
  have hcases : first = "" ∨ first = "." := by simpa [isFiller] using hfirst
  cases rest with
  | nil => obtain rfl | rfl := hcases <;> simp [htext]
  | cons next others =>
      rw [String.intercalate_cons_cons] at htext
      obtain rfl | rfl := hcases <;> simp [htext]

theorem spelled_ofString {s : String} (hs : IsRelative s) (hne : s ≠ "") :
    ∃ first more, Spelled (ofString s) first more ∧ SlashFree (first :: more) := by
  unfold ofString
  split
  case h_1 cs h => exact absurd (by rw [h]; rfl) hs
  case h_2 => exact ⟨".", [], .here, by simp [SlashFree]⟩
  case h_3 cs h =>
      have hparts : parts ('/' :: cs) = "" :: parts cs := parts_append_slash [] cs
      refine ⟨".", (parts cs).reverse, ?_, by simpa [SlashFree] using slashFree_parts cs⟩
      rw [hparts, List.reverse_cons]
      exact .below
  case h_4 habsolute hpoint hhere =>
      have hfree := slashFree_parts s.toList
      cases hparts : parts s.toList with
      | nil => exact absurd hparts (parts_ne_nil _)
      | cons first rest =>
          rw [hparts] at hfree
          refine ⟨first, rest.reverse, ?_, by simpa [SlashFree] using hfree⟩
          rw [List.reverse_cons]
          refine .named (Bool.eq_false_iff.2 fun hfirst => ?_)
          obtain h | ⟨cs, h⟩ | h | ⟨cs, h⟩ := cases_of_isFiller hparts hfirst
          · exact hne h
          · exact habsolute cs h
          · exact hpoint h
          · exact hhere cs h

theorem chain_ofString {s : String} (h : IsRelative s) :
    Chain s ((ofString s).ancestors.map text) := by
  by_cases hne : s = ""
  · subst hne
    exact .empty
  · obtain ⟨first, more, hspelled, hfree⟩ := spelled_ofString h hne
    have hchain := chain_ancestors hspelled hfree
    rwa [text_ofString] at hchain

/-- A name in a directory is a further component. -/
theorem components_join (p : Path) {name : String} (hname : isFiller name = false)
    (hfree : '/' ∉ name.toList) : components (p.join name) = components p.text ++ [name] := by
  have hsingle : parts name.toList = [name] := by
    simpa using @parts_intercalate [name] (by simp) (by simpa [SlashFree] using hfree)
  have hslash (cs : List Char) :
      kept (parts (cs ++ '/' :: name.toList)) = kept (parts cs) ++ [name] := by
    rw [parts_append_slash, hsingle, kept_concat, if_pos (counts_of_not_isFiller hname _)]
  unfold components join
  simp only
  split
  case isTrue h =>
      simp only [Bool.or_eq_true, decide_eq_true_eq, String.isEmpty_iff,
        List.getLast?_eq_some_iff] at h
      obtain hempty | ⟨cs, hcs⟩ := h
      · rw [hempty, String.empty_append, hsingle, show kept (parts "".toList) = [] from rfl]
        simp [kept, counts_of_not_isFiller hname]
      · rw [String.toList_append, hcs, kept_parts_concat_slash, ← hslash, List.append_assoc,
          List.singleton_append]
  case isFalse =>
      rw [← hslash]
      simp

end Path

end StatContract
