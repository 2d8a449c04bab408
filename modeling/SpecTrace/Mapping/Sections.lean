import SpecTrace.Drift.Extract

/-! The section list of `spec_test_map.py`, `SPEC_SECTIONS`: every line of the
specification file, as a text-mode file yields it, is stripped and matched against
`sec_re` (`^## +(.+)$`), and the stripped group is kept. `spec_diff.py` finds the sections
of the same file otherwise: over `str.splitlines()`, unstripped, with `SECTION_HEADING_RE`.

Proved: on a text whose only line boundaries are `\n` and `\r`, the two scanners collect
the same titles as soon as every line that starts with `## `, once stripped, starts so
unindented and holds some text after it. An indented heading, a heading of whitespace
only, or a boundary such as a form feed or U+2028 inside a line makes them differ. -/

namespace SpecTrace.Mapping

open Python Drift

/-! ### `sec_re` and `SPEC_SECTIONS` -/

/-- `sec_re.match(s).group(1)` for `^## +(.+)$`: the group runs from after the spaces to the first
`\n`; after spaces alone it is the last space. -/
def secGroup (s : List Char) : Option (List Char) :=
  if ['#', '#'].isPrefixOf s then
    let r := s.drop 2
    let m := (r.takeWhile (· == ' ')).length
    let t := r.drop m
    let g := t.takeWhile (· != '\n')
    if m = 0 then none
    else if g = [] then (if 2 ≤ m ∧ (t = [] ∨ t = ['\n']) then some [' '] else none)
    else if t.drop g.length = [] ∨ t.drop g.length = ['\n'] then some g
    else none
  else none

/-- `SPEC_SECTIONS`: the stripped group of every line of the specification file that,
stripped, matches `sec_re`. -/
def specSections (raw : List Char) : List (List Char) :=
  (fileLines raw).filterMap fun line => (secGroup (strip line)).map strip

example : specSections "# Nyx\n## 1. Intro  \r\n### 1.1 Sub\n  ## 2. Wire\n##\tX\n".toList =
    ["1. Intro", "2. Wire"].map String.toList := by
  decide

/-! ### Both patterns after `## ` -/

private theorem drop_takeWhile_length (p : Char → Bool) (l : List Char) :
    l.drop (l.takeWhile p).length = l.dropWhile p := by
  induction l with
  | nil => rfl
  | cons c l ih => by_cases h : p c <;> simp [List.takeWhile_cons, List.dropWhile_cons, h, ih]

theorem prefix_of_spaces {s : List Char} (hp : ['#', '#'].isPrefixOf s = true)
    (hm : ((s.drop 2).takeWhile (· == ' ')).length ≠ 0) : ['#', '#', ' '] <+: s := by
  obtain ⟨r, rfl⟩ := List.isPrefixOf_iff_prefix.mp hp
  cases r with
  | nil => exact absurd rfl hm
  | cons c r =>
    by_cases hc : c = ' '
    · subst hc; exact ⟨r, rfl⟩
    · simp [hc] at hm

theorem prefix_of_secGroup {s g : List Char} (h : secGroup s = some g) : ['#', '#', ' '] <+: s := by
  by_cases hp : ['#', '#'].isPrefixOf s = true
  · refine prefix_of_spaces hp fun hm => ?_
    rw [secGroup, if_pos hp] at h
    simp [hm] at h
  · rw [secGroup, if_neg hp] at h
    cases h

theorem prefix_of_headingGroup {l g : List Char} (h : headingGroup l = some g) :
    ['#', '#', ' '] <+: l := by
  by_cases hp : ['#', '#'].isPrefixOf l = true
  · refine prefix_of_spaces hp fun hm => ?_
    rw [headingGroup, if_pos hp] at h
    simp [hm] at h
  · rw [headingGroup, if_neg hp] at h
    cases h

theorem dropWhile_space_of_not_isBlank {u : List Char} (hn : '\n' ∉ u) (hu : isBlank u = false) :
    '\n' ∉ (' ' :: u).dropWhile (· == ' ') ∧ isBlank ((' ' :: u).dropWhile (· == ' ')) = false ∧
      strip ((' ' :: u).dropWhile (· == ' ')) = strip u := by
  have hsp : ∀ c ∈ (' ' :: u).takeWhile (· == ' '), isSpace c = true := fun c hc => by
    rw [show c = ' ' by simpa using List.mem_takeWhile_imp hc]; rfl
  have hsplit := List.takeWhile_append_dropWhile (· == ' ') (' ' :: u)
  refine ⟨fun h => hn ?_, ?_, ?_⟩
  · simpa using (List.dropWhile_suffix _).subset h
  · have hall : isBlank (' ' :: u) = isBlank ((' ' :: u).dropWhile (· == ' ')) := by
      conv_lhs => rw [← hsplit]
      rw [isBlank, List.all_append, List.all_eq_true.mpr hsp, Bool.true_and]; rfl
    rw [← hall]
    simpa [isBlank, show isSpace ' ' = true from rfl] using hu
  · have h₁ := strip_append_of_forall hsp (List.forall_mem_nil _) ((' ' :: u).dropWhile (· == ' '))
    have h₂ := strip_append_of_forall (show ∀ c ∈ [' '], isSpace c = true by decide)
      (List.forall_mem_nil _) u
    simp only [List.append_nil] at h₁ h₂
    rw [← h₁, hsplit, ← h₂]
    rfl

theorem headingTitle_of_heading {u : List Char} (hn : '\n' ∉ u) (hu : isBlank u = false) :
    headingTitle ('#' :: '#' :: ' ' :: u) = some (strip u) := by
  obtain ⟨htn, htb, hts⟩ := dropWhile_space_of_not_isBlank hn hu
  have hrn : '\n' ∉ rstrip ((' ' :: u).dropWhile (· == ' ')) :=
    fun h => htn ((List.rdropWhile_prefix _ _).subset h)
  have hpre : ['#', '#'].isPrefixOf ('#' :: '#' :: ' ' :: u) = true := rfl
  rw [headingTitle, headingGroup, if_pos hpre]
  dsimp only
  rw [show List.drop 2 ('#' :: '#' :: ' ' :: u) = ' ' :: u from rfl, drop_takeWhile_length,
    if_neg (by simp), if_neg (Bool.not_eq_true _ ▸ htb), if_neg hrn, Option.map_some', strip_rstrip,
    hts]

theorem secGroup_of_heading {v : List Char} (hn : '\n' ∉ v) (hv : isBlank v = false) :
    (secGroup ('#' :: '#' :: ' ' :: v)).map strip = some (strip v) := by
  obtain ⟨htn, htb, hts⟩ := dropWhile_space_of_not_isBlank hn hv
  have hg : ((' ' :: v).dropWhile (· == ' ')).takeWhile (· != '\n') = (' ' :: v).dropWhile (· == ' ') :=
    List.takeWhile_eq_self_iff.mpr fun c hc => by
      simpa using fun h : c = '\n' => htn (h ▸ hc)
  have hne : (' ' :: v).dropWhile (· == ' ') ≠ [] := by rintro h; rw [h] at htb; cases htb
  have hpre : ['#', '#'].isPrefixOf ('#' :: '#' :: ' ' :: v) = true := rfl
  rw [secGroup, if_pos hpre]
  dsimp only
  rw [show List.drop 2 ('#' :: '#' :: ' ' :: v) = ' ' :: v from rfl, drop_takeWhile_length, hg,
    if_neg (by simp), if_neg hne, if_pos (.inl (List.drop_length _)), Option.map_some', hts]

/-- When both scanners read a line alike: a line that strips to `## ...` starts so unindented, and
has some text after the `## `. -/
def PlainHeading (l : List Char) : Prop :=
  (['#', '#', ' '] <+: strip l → ['#', '#', ' '] <+: l) ∧
    (['#', '#', ' '] <+: l → isBlank (l.drop 3) = false)

instance (l : List Char) : Decidable (PlainHeading l) := inferInstanceAs (Decidable (_ ∧ _))

/-- On a line without `\n` that satisfies `PlainHeading`, `sec_re` on the stripped line and
`SECTION_HEADING_RE` on the line capture the same stripped title, or both fail. -/
theorem secTitle_eq_headingTitle {l : List Char} (hn : '\n' ∉ l) (hl : PlainHeading l) :
    (secGroup (strip l)).map strip = headingTitle l := by
  by_cases hp : ['#', '#', ' '] <+: l
  · obtain ⟨u, rfl⟩ := hp
    have hu : isBlank u = false := hl.2 ⟨u, rfl⟩
    have hr : rstrip u ≠ [] := mt rstrip_eq_nil_iff.mp (by simp [hu])
    have hs : strip (['#', '#', ' '] ++ u) = '#' :: '#' :: ' ' :: rstrip u := by
      rw [strip, show lstrip (['#', '#', ' '] ++ u) = ['#', '#', ' '] ++ u from rfl,
        rstrip_append_of_ne _ hr]
      rfl
    have hrb : isBlank (rstrip u) = false := by
      rw [Bool.eq_false_iff]
      intro h
      exact hr (by rw [← rstrip_eq_nil_iff.mpr h, rstrip, rstrip, List.rdropWhile_idempotent])
    have hrn : '\n' ∉ rstrip u := fun h => hn (by simpa using (List.rdropWhile_prefix _ _).subset h)
    rw [hs, secGroup_of_heading hrn hrb, strip_rstrip]
    exact (headingTitle_of_heading (fun h => hn (by simp [h])) hu).symm
  · have hh : headingTitle l = none := by
      cases h : headingGroup l with
      | none => simp [headingTitle, h]
      | some g => exact absurd (prefix_of_headingGroup h) hp
    have hs : secGroup (strip l) = none := by
      cases h : secGroup (strip l) with
      | none => rfl
      | some g => exact absurd (hl.1 (prefix_of_secGroup h)) hp
    rw [hh, hs]
    rfl

/-! ### The two section lists -/

/-- `SPEC_SECTIONS` and the titles of `extract_sections` agree on a text whose only line
boundaries are `\n` and `\r` and whose lines all satisfy `PlainHeading`. -/
theorem specSections_eq_extractSections_titles (text : List Char)
    (hb : ∀ c ∈ text, isLineBreak c = true → c = '\n' ∨ c = '\r')
    (hh : ∀ l ∈ splitlines text, PlainHeading l) :
    specSections text = (extractSections text).map Prod.fst :=
  calc specSections text
      = ((fileLines text).map strip).filterMap fun s => (secGroup s).map strip := by
        rw [List.filterMap_map]; rfl
    _ = ((splitlines text).map strip).filterMap fun s => (secGroup s).map strip := by
        rw [fileLines_map_strip hb]
    _ = (splitlines text).filterMap headingTitle := by
        rw [List.filterMap_map]
        exact List.filterMap_congr fun l hl =>
          secTitle_eq_headingTitle (newline_not_mem_of_mem_splitlines hl) (hh l hl)
    _ = (extractSections text).map Prod.fst := (extractSections_titles text).symm

theorem specSections_eq_extractSections_titles_plain :
    ∃ (_ : ∀ c ∈ "# Nyx\r\n## 1. Intro\nText.\n### 1.1 Scope\n## 2. Wire  \n".toList,
        isLineBreak c = true → c = '\n' ∨ c = '\r')
      (_ : ∀ l ∈ splitlines "# Nyx\r\n## 1. Intro\nText.\n### 1.1 Scope\n## 2. Wire  \n".toList,
        PlainHeading l),
      specSections "# Nyx\r\n## 1. Intro\nText.\n### 1.1 Scope\n## 2. Wire  \n".toList =
        (extractSections "# Nyx\r\n## 1. Intro\nText.\n### 1.1 Scope\n## 2. Wire  \n".toList).map
          Prod.fst :=
  ⟨by decide, by decide, specSections_eq_extractSections_titles _ (by decide) (by decide)⟩

/-- An indented heading counts for `SPEC_SECTIONS` only; U+2028 splits a heading line for
`splitlines` only; a heading of spaces only counts for `extract_sections` only. -/
theorem heading_scanners_disagree :
    specSections "  ## A\n".toList = ["A".toList] ∧
      (extractSections "  ## A\n".toList).map Prod.fst = [] ∧
    specSections "## A\u2028## B\n".toList = ["A\u2028## B".toList] ∧
      (extractSections "## A\u2028## B\n".toList).map Prod.fst = ["A".toList, "B".toList] ∧
    specSections "##   \n".toList = [] ∧
      (extractSections "##   \n".toList).map Prod.fst = [[]] := by
  decide

end SpecTrace.Mapping
