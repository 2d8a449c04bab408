import SpecTrace.Python.Text

/-! The section extractor of `spec_diff.py`: `SECTION_HEADING_RE` (`^## +(.+?)\s*$`)
and `extract_sections`, the loop over `text.splitlines()` that opens a section at
every heading line and collects the lines after it, followed by the trimmed bodies.

The loop is characterised twice: `carve` cuts a line list into the lines before the
first heading and the sections after it, and `declaredSection` describes section `k`
by the indices of the heading lines. Proved: the loop computes the index description,
and two bodies are equal exactly when their line runs are equal once blank lines at
both ends, the indentation of the first line and the trailing whitespace of the last
line are removed. -/

namespace SpecTrace.Drift

open Python

/-! ### `SECTION_HEADING_RE` -/

/-- `SECTION_HEADING_RE.match(line).group(1)` for `^## +(.+?)\s*$`: the lazy group ends at the last
non-whitespace character; after spaces alone it is the next character, or the last space. -/
def headingGroup (line : List Char) : Option (List Char) :=
  if ['#', '#'].isPrefixOf line then
    let r := line.drop 2
    let m := (r.takeWhile (· == ' ')).length
    let t := r.drop m
    if m = 0 then none
    else if t.all isSpace then
      match t with
      | c :: _ => if c ≠ '\n' then some [c] else if 2 ≤ m then some [' '] else none
      | [] => if 2 ≤ m then some [' '] else none
    else if '\n' ∈ rstrip t then none
    else some (rstrip t)
  else none

/-- `m.group(1).strip()` of a heading line, and `none` for any other line. -/
def headingTitle (line : List Char) : Option (List Char) := (headingGroup line).map strip

example : headingTitle "##   Intro \t".toList = some "Intro".toList := by decide
example : headingTitle "## ".toList = none ∧ headingTitle "##  ".toList = some [] := by decide

/-! ### The extraction loop -/

/-- The state of the loop of `extract_sections`: the finished sections, and the title
and body lines of the open one. -/
structure Extractor where
  sections : List (List Char × List (List Char))
  currentTitle : Option (List Char)
  currentBody : List (List Char)

/-- The finished sections followed by the open one. -/
def Extractor.close (st : Extractor) : List (List Char × List (List Char)) :=
  match st.currentTitle with
  | some title => st.sections ++ [(title, st.currentBody)]
  | none => st.sections

/-- One line of the loop: a heading closes the open section and opens its own; any
other line joins the open section, if there is one. -/
def Extractor.step (st : Extractor) (line : List Char) : Extractor :=
  match headingTitle line with
  | some title => ⟨st.close, some title, []⟩
  | none =>
    match st.currentTitle with
    | some _ => { st with currentBody := st.currentBody ++ [line] }
    | none => st

/-- `'\n'.join(body_lines).strip()`. -/
def sectionBody (bodyLines : List (List Char)) : List Char := strip (joinLines bodyLines)

/-- `extract_sections(spec_content)`: the `(title, body)` of every section. -/
def extractSections (specContent : List Char) : List (List Char × List Char) :=
  (((splitlines specContent).foldl Extractor.step ⟨[], none, []⟩).close).map
    fun sec => (sec.1, sectionBody sec.2)

/-! ### Sections as cut from the lines -/

/-- The lines before the first heading, and the title and body lines of every section. -/
def carve : List (List Char) → List (List Char) × List (List Char × List (List Char))
  | [] => ([], [])
  | l :: ls =>
    match headingTitle l with
    | some title => ([], (title, (carve ls).1) :: (carve ls).2)
    | none => (l :: (carve ls).1, (carve ls).2)

/-- The open section of `st` with `extra` lines joined to it, after the finished ones. -/
def Extractor.closeWith (st : Extractor) (extra : List (List Char)) :
    List (List Char × List (List Char)) :=
  match st.currentTitle with
  | some title => st.sections ++ [(title, st.currentBody ++ extra)]
  | none => st.sections

theorem Extractor.closeWith_nil (st : Extractor) : st.closeWith [] = st.close := by
  unfold closeWith close; split <;> simp

theorem close_foldl_step (L : List (List Char)) (st : Extractor) :
    (L.foldl Extractor.step st).close = st.closeWith (carve L).1 ++ (carve L).2 := by
  induction L generalizing st with
  | nil => simp [carve, Extractor.closeWith_nil]
  | cons l ls ih =>
    rw [List.foldl_cons, ih, carve]
    unfold Extractor.step
    cases headingTitle l with
    | some title => simp [Extractor.closeWith, ← Extractor.closeWith_nil]
    | none => rcases st with ⟨secs, _ | title, body⟩ <;> simp [Extractor.closeWith]

theorem extractSections_eq_carve (text : List Char) :
    extractSections text =
      (carve (splitlines text)).2.map fun sec => (sec.1, sectionBody sec.2) := by
  rw [extractSections, close_foldl_step]
  rfl

theorem carve_titles (L : List (List Char)) : (carve L).2.map Prod.fst = L.filterMap headingTitle := by
  induction L with
  | nil => rfl
  | cons l ls ih =>
    rw [carve, List.filterMap_cons]
    cases headingTitle l <;> simp [ih]

/-- The titles of `extract_sections` are the captures of the heading lines, in order. -/
theorem extractSections_titles (text : List Char) :
    (extractSections text).map Prod.fst = (splitlines text).filterMap headingTitle := by
  rw [extractSections_eq_carve, List.map_map, ← carve_titles]
  rfl

theorem carve_fst_eq_nil {C : List (List Char)} (hC : ∀ c ∈ C.head?, (headingTitle c).isSome) :
    (carve C).1 = [] := by
  cases C with
  | nil => rfl
  | cons c C =>
    obtain ⟨t, ht⟩ := Option.isSome_iff_exists.mp (hC c rfl)
    simp [carve, ht]

theorem carve_append_of_fst_eq_nil (A : List (List Char)) {M : List (List Char)}
    (hM : (carve M).1 = []) : carve (A ++ M) = ((carve A).1, (carve A).2 ++ (carve M).2) := by
  induction A with
  | nil => exact Prod.ext hM rfl
  | cons a A ih =>
    rw [List.cons_append, carve, carve, ih]
    cases headingTitle a <;> rfl

theorem carve_append_of_forall_none {R : List (List Char)} (hR : ∀ l ∈ R, headingTitle l = none)
    (C : List (List Char)) : carve (R ++ C) = (R ++ (carve C).1, (carve C).2) := by
  induction R with
  | nil => rfl
  | cons l R ih =>
    rw [List.cons_append, carve, hR l (List.mem_cons_self l R),
      ih fun l' hl' => hR l' (List.mem_cons_of_mem l hl')]
    rfl

/-- The sections of a text whose lines are `A`, a heading `h` with title `x`, the body lines
`R`, and lines `C` that are empty or start with a heading. -/
theorem extractSections_of_splitlines {text : List Char} {A R C : List (List Char)} {h x : List Char}
    (hL : splitlines text = A ++ h :: (R ++ C)) (hh : headingTitle h = some x)
    (hR : ∀ l ∈ R, headingTitle l = none) (hC : ∀ c ∈ C.head?, (headingTitle c).isSome) :
    extractSections text = ((carve A).2 ++ (x, R) :: (carve C).2).map
      fun sec => (sec.1, sectionBody sec.2) := by
  have hM : carve (h :: (R ++ C)) = ([], [(x, R)] ++ (carve C).2) := by
    rw [carve, hh, carve_append_of_forall_none hR, carve_fst_eq_nil hC, List.append_nil]
    rfl
  rw [extractSections_eq_carve, hL, carve_append_of_fst_eq_nil A (by rw [hM]), hM]
  rfl

/-! ### Sections by the indices of their headings -/

/-- The indices of the lines that match `SECTION_HEADING_RE`, in increasing order. -/
def headingIndices : List (List Char) → List Nat
  | [] => []
  | l :: ls =>
    if (headingTitle l).isSome then 0 :: (headingIndices ls).map (· + 1)
    else (headingIndices ls).map (· + 1)

/-- The heading indices followed by the number of lines. -/
def bounds (L : List (List Char)) : List Nat := headingIndices L ++ [L.length]

/-- Section `k` read off the heading indices: the title on line `h k` and the lines strictly between
`h k` and `h (k + 1)`. -/
def declaredSection (L : List (List Char)) (k : Nat) : List Char × List (List Char) :=
  let h := (bounds L).getD k L.length
  let h' := (bounds L).getD (k + 1) L.length
  ((headingTitle (L.getD h [])).getD [], (L.drop (h + 1)).take (h' - (h + 1)))

/-- `extract_sections` as the index description states it: one section per heading
line, in order. -/
def declaredSections (L : List (List Char)) : List (List Char × List Char) :=
  (List.range (headingIndices L).length).map fun k =>
    ((declaredSection L k).1, sectionBody (declaredSection L k).2)

theorem bounds_cons (l : List Char) (ls : List (List Char)) :
    bounds (l :: ls) =
      if (headingTitle l).isSome then 0 :: (bounds ls).map (· + 1) else (bounds ls).map (· + 1) := by
  simp only [bounds, headingIndices]; split <;> simp

theorem declaredSection_shift {l : List Char} {ls : List (List Char)} {k k' : Nat}
    (h : ∀ i, (bounds (l :: ls)).getD (k + i) (ls.length + 1) = (bounds ls).getD (k' + i) ls.length + 1) :
    declaredSection (l :: ls) k = declaredSection ls k' := by
  have h0 := h 0
  have h1 := h 1
  simp only [Nat.add_zero, List.length_cons] at h0 h1
  simp only [declaredSection, List.length_cons, h0, h1, ← Nat.add_assoc]
  simp [Nat.add_sub_add_right]

theorem getD_map_succ (b : List Nat) (i n : Nat) :
    (b.map (· + 1)).getD i (n + 1) = b.getD i n + 1 := by
  simp [List.getD_eq_getElem?_getD]

theorem carve_fst (L : List (List Char)) : (carve L).1 = L.take ((bounds L).getD 0 L.length) := by
  induction L with
  | nil => rfl
  | cons l ls ih =>
    rw [bounds_cons, carve]
    cases hl : headingTitle l with
    | some title => simp
    | none => simp [ih, getD_map_succ]

theorem carve_snd (L : List (List Char)) :
    (carve L).2 = (List.range (headingIndices L).length).map (declaredSection L) := by
  induction L with
  | nil => rfl
  | cons l ls ih =>
    rw [carve, headingIndices]
    cases hl : headingTitle l with
    | some title =>
      simp only [Option.isSome_some, if_true, List.length_cons, List.length_map,
        List.range_succ_eq_map, List.map_cons, List.map_map, ih]
      congr 1
      · simp [declaredSection, bounds_cons, hl, carve_fst, List.getD_eq_getElem?_getD]
      · refine List.map_congr_left fun k _ => (declaredSection_shift fun i => ?_).symm
        simp [bounds_cons, hl, Nat.add_right_comm k 1 i, getD_map_succ]
    | none =>
      simp only [Option.isSome_none, if_false, Bool.false_eq_true, List.length_map, ih]
      refine List.map_congr_left fun k _ => (declaredSection_shift fun i => ?_).symm
      simp [bounds_cons, hl, getD_map_succ]

theorem extractSections_eq_declared (text : List Char) :
    extractSections text = declaredSections (splitlines text) := by
  rw [extractSections_eq_carve, carve_snd, declaredSections, List.map_map]
  rfl

/-! ### Trimmed bodies -/

/-- A line of whitespace only. -/
def isBlank (l : List Char) : Bool := l.all isSpace

/-- The lines of a run with the whitespace-only lines at both ends removed. -/
def dropBlankEnds (B : List (List Char)) : List (List Char) :=
  (B.dropWhile isBlank).rdropWhile isBlank

/-- The last line changed by `f`. -/
def mapLast (f : List Char → List Char) : List (List Char) → List (List Char)
  | [] => []
  | [x] => [f x]
  | x :: y :: L => x :: mapLast f (y :: L)

/-- What `strip` leaves of joined lines, line by line: blank lines dropped at both ends, the first
line's leading and the last line's trailing whitespace removed. -/
def trimLines (B : List (List Char)) : List (List Char) :=
  mapLast rstrip (((B.dropWhile isBlank).modifyHead lstrip).rdropWhile isBlank)

theorem lstrip_eq_nil_iff {l : List Char} : lstrip l = [] ↔ isBlank l = true := by
  simp [lstrip, isBlank, List.dropWhile_eq_nil_iff]

theorem rstrip_eq_nil_iff {l : List Char} : rstrip l = [] ↔ isBlank l = true := by
  simp [rstrip, isBlank]

theorem lstrip_joinLines (B : List (List Char)) :
    lstrip (joinLines B) = joinLines ((B.dropWhile isBlank).modifyHead lstrip) := by
  induction B with
  | nil => rfl
  | cons b B ih =>
    by_cases hb : isBlank b = true
    · rw [List.dropWhile_cons_of_pos hb, ← ih, joinLines]
      split
      · next h => subst h; simpa using lstrip_eq_nil_iff.mpr hb
      · rw [lstrip_append_of_forall (by simpa [isBlank] using hb)]
        simp [lstrip, show isSpace '\n' = true by decide]
    · have hne : lstrip b ≠ [] := mt lstrip_eq_nil_iff.mp hb
      rw [List.dropWhile_cons_of_neg hb, List.modifyHead_cons, joinLines, joinLines]
      split
      · rfl
      · exact lstrip_append_of_ne hne _

theorem mapLast_append_singleton (f : List Char → List Char) (L : List (List Char))
    (b : List Char) : mapLast f (L ++ [b]) = L ++ [f b] := by
  induction L with
  | nil => rfl
  | cons x L ih => cases L <;> simp_all [mapLast]

theorem rstrip_joinLines (B : List (List Char)) :
    rstrip (joinLines B) = joinLines (mapLast rstrip (B.rdropWhile isBlank)) := by
  induction B using List.reverseRecOn with
  | nil => rfl
  | append_singleton B b ih =>
    rw [List.rdropWhile_concat]
    rcases eq_or_ne B [] with rfl | hB
    · by_cases hb : isBlank b = true <;> simp [hb, mapLast, rstrip_eq_nil_iff]
    · rw [joinLines_append_singleton hB]
      by_cases hb : isBlank b = true
      · rw [if_pos hb, ← ih, rstrip_append_of_forall]
        simpa [isBlank, show isSpace '\n' = true by decide] using hb
      · rw [if_neg hb, show joinLines B ++ '\n' :: b = (joinLines B ++ ['\n']) ++ b by simp,
          rstrip_append_of_ne _ (mt rstrip_eq_nil_iff.mp hb)]
        rw [mapLast_append_singleton, joinLines_append_singleton hB]
        simp

theorem strip_joinLines (B : List (List Char)) : strip (joinLines B) = joinLines (trimLines B) := by
  rw [strip, lstrip_joinLines, rstrip_joinLines]
  rfl

theorem isBlank_lstrip (l : List Char) : isBlank (lstrip l) = isBlank l := by
  rw [Bool.eq_iff_iff, ← lstrip_eq_nil_iff, ← lstrip_eq_nil_iff, lstrip, lstrip,
    List.dropWhile_idempotent]

theorem isBlank_rstrip (l : List Char) : isBlank (rstrip l) = isBlank l := by
  rw [Bool.eq_iff_iff, ← rstrip_eq_nil_iff, ← rstrip_eq_nil_iff, rstrip, rstrip,
    List.rdropWhile_idempotent]

theorem mem_modifyHead {f : List Char → List Char} {L : List (List Char)} {l : List Char}
    (h : l ∈ L.modifyHead f) : ∃ x ∈ L, l = x ∨ l = f x := by
  cases L with
  | nil => simp at h
  | cons x L =>
    simp only [List.modifyHead_cons, List.mem_cons] at h
    rcases h with rfl | h
    · exact ⟨x, by simp⟩
    · exact ⟨l, by simp [h]⟩

theorem mem_mapLast {f : List Char → List Char} {L : List (List Char)} {l : List Char}
    (h : l ∈ mapLast f L) : ∃ x ∈ L, l = x ∨ l = f x := by
  induction L with
  | nil => simp [mapLast] at h
  | cons x L ih =>
    cases L with
    | nil => exact ⟨x, by simp_all [mapLast]⟩
    | cons y L =>
      simp only [mapLast, List.mem_cons] at h
      rcases h with rfl | h
      · exact ⟨l, by simp⟩
      · obtain ⟨z, hz, hlz⟩ := ih h
        exact ⟨z, List.mem_cons_of_mem _ hz, hlz⟩

theorem head?_mapLast {f : List Char → List Char} {L : List (List Char)} {y : List Char}
    (h : y ∈ (mapLast f L).head?) : ∃ x ∈ L.head?, y = x ∨ y = f x := by
  match L with
  | [] => simp [mapLast] at h
  | [x] => exact ⟨x, rfl, .inr (by simpa [mapLast] using h.symm)⟩
  | x :: _ :: _ => exact ⟨x, rfl, .inl (by simpa [mapLast] using h.symm)⟩

theorem head?_rdropWhile_of_not {L : List (List Char)} {x : List Char} (hx : x ∈ L.head?)
    (hb : isBlank x = false) : x ∈ (L.rdropWhile isBlank).head? := by
  obtain ⟨L, rfl⟩ : ∃ L', L = x :: L' := by cases L <;> simp_all
  obtain ⟨t, ht⟩ := List.rdropWhile_prefix isBlank (x :: L)
  cases hr : List.rdropWhile isBlank (x :: L) with
  | nil => simpa [hb] using List.rdropWhile_eq_nil_iff.mp hr x (by simp)
  | cons z zs => rw [hr] at ht; simp_all

theorem head?_trimLines {B : List (List Char)} {y : List Char} (h : y ∈ (trimLines B).head?) :
    isBlank y = false := by
  obtain ⟨x, hx, hyx⟩ := head?_mapLast h
  cases hd : B.dropWhile isBlank with
  | nil => simp_all [trimLines]
  | cons d D =>
    have hd' : isBlank d = false := by
      have := List.head?_dropWhile_not isBlank B
      rwa [hd] at this
    have hm : lstrip d ∈ ((B.dropWhile isBlank).modifyHead lstrip).head? := by simp [hd]
    have := head?_rdropWhile_of_not hm (by rwa [isBlank_lstrip])
    rw [Option.mem_unique hx this] at hyx
    rcases hyx with rfl | rfl <;> simp [isBlank_lstrip, isBlank_rstrip, hd']

theorem forall_mem_trimLines {P : List Char → Prop} (hl : ∀ l, P l → P (lstrip l))
    (hr : ∀ l, P l → P (rstrip l)) {B : List (List Char)} (hB : ∀ b ∈ B, P b) :
    ∀ l ∈ trimLines B, P l := by
  intro l hlB
  obtain ⟨r, hrB, hlr⟩ := mem_mapLast hlB
  obtain ⟨b, hb, hrb⟩ := mem_modifyHead ((List.rdropWhile_prefix _ _).subset hrB)
  have hPb := hB b ((List.dropWhile_suffix _).subset hb)
  have hPr : P r := by rcases hrb with rfl | rfl; exacts [hPb, hl _ hPb]
  rcases hlr with rfl | rfl; exacts [hPr, hr _ hPr]

theorem newline_not_mem_trimLines {B : List (List Char)} (hB : ∀ b ∈ B, '\n' ∉ b) :
    ∀ l ∈ trimLines B, '\n' ∉ l :=
  forall_mem_trimLines (fun _ h h' => h ((List.dropWhile_suffix _).subset h'))
    (fun _ h h' => h ((List.rdropWhile_prefix _ _).subset h')) hB

theorem append_newline_inj {a b x y : List Char} (ha : '\n' ∉ a) (hb : '\n' ∉ b)
    (h : a ++ '\n' :: x = b ++ '\n' :: y) : a = b ∧ x = y := by
  have key : ∀ {a x : List Char}, '\n' ∉ a → (a ++ '\n' :: x).takeWhile (· != '\n') = a := by
    intro a x ha
    rw [List.takeWhile_append_of_pos fun c hc => by simpa using ne_of_mem_of_not_mem hc ha]
    simp
  obtain rfl : a = b := by rw [← key ha (x := x), h, key hb]
  exact ⟨rfl, by simpa using h⟩

theorem joinLines_cons_inj {a b : List Char} {as bs : List (List Char)}
    (ha : ∀ l ∈ a :: as, '\n' ∉ l) (hb : ∀ l ∈ b :: bs, '\n' ∉ l)
    (h : joinLines (a :: as) = joinLines (b :: bs)) : a :: as = b :: bs := by
  induction as generalizing a b bs with
  | nil =>
    cases bs with
    | nil => simpa using h
    | cons b' bs =>
      rw [joinLines_singleton, joinLines_cons_of_ne (List.cons_ne_nil b' bs)] at h
      exact absurd (h ▸ by simp) (ha a (by simp))
  | cons a' as ih =>
    cases bs with
    | nil =>
      rw [joinLines_singleton, joinLines_cons_of_ne (List.cons_ne_nil a' as)] at h
      exact absurd (h ▸ by simp) (hb b (by simp))
    | cons b' bs =>
      rw [joinLines_cons_of_ne (List.cons_ne_nil a' as),
        joinLines_cons_of_ne (List.cons_ne_nil b' bs)] at h
      obtain ⟨rfl, h'⟩ := append_newline_inj (ha a (by simp)) (hb b (by simp)) h
      rw [ih (fun l hl => ha l (List.mem_cons_of_mem _ hl))
        (fun l hl => hb l (List.mem_cons_of_mem _ hl)) h']

theorem joinLines_inj {T₁ T₂ : List (List Char)} (hn₁ : ∀ l ∈ T₁, '\n' ∉ l)
    (hn₂ : ∀ l ∈ T₂, '\n' ∉ l) (hh₁ : ∀ y ∈ T₁.head?, y ≠ []) (hh₂ : ∀ y ∈ T₂.head?, y ≠ [])
    (h : joinLines T₁ = joinLines T₂) : T₁ = T₂ := by
  have head_nil : ∀ {b : List Char} {bs}, joinLines (b :: bs) = [] → b = [] := by
    intro b bs hb
    cases bs with
    | nil => rwa [joinLines_singleton] at hb
    | cons b' bs => simp [joinLines_cons_of_ne (List.cons_ne_nil b' bs)] at hb
  match T₁, T₂ with
  | [], [] => rfl
  | [], b :: _ => exact absurd (head_nil h.symm) (hh₂ b rfl)
  | a :: _, [] => exact absurd (head_nil h) (hh₁ a rfl)
  | a :: _, b :: _ => exact joinLines_cons_inj hn₁ hn₂ h

theorem trimLines_inj {B₁ B₂ : List (List Char)} (h₁ : ∀ b ∈ B₁, '\n' ∉ b)
    (h₂ : ∀ b ∈ B₂, '\n' ∉ b) (h : joinLines (trimLines B₁) = joinLines (trimLines B₂)) :
    trimLines B₁ = trimLines B₂ :=
  have nonempty : ∀ {B : List (List Char)}, ∀ y ∈ (trimLines B).head?, y ≠ [] :=
    fun y hy hnil => by simpa [hnil, isBlank] using head?_trimLines hy
  joinLines_inj (newline_not_mem_trimLines h₁) (newline_not_mem_trimLines h₂) nonempty nonempty h

theorem extractSections_getElem (text : List Char) (X : Nat) (h : X < (extractSections text).length) :
    (extractSections text)[X] =
      ((declaredSection (splitlines text) X).1, sectionBody (declaredSection (splitlines text) X).2) := by
  simp only [extractSections_eq_carve, carve_snd, List.getElem_map, List.getElem_range]

/-- Two bodies of `extract_sections` are equal exactly when the line runs of their
sections are equal after `trimLines`. -/
theorem sectionBody_eq_iff_trimLines (text₁ text₂ : List Char) (X : Nat)
    (h₁ : X < (extractSections text₁).length) (h₂ : X < (extractSections text₂).length) :
    (extractSections text₁)[X].2 = (extractSections text₂)[X].2 ↔
      trimLines (declaredSection (splitlines text₁) X).2 =
        trimLines (declaredSection (splitlines text₂) X).2 := by
  have lines : ∀ text, ∀ b ∈ (declaredSection (splitlines text) X).2, '\n' ∉ b := fun text b hb =>
    newline_not_mem_of_mem_splitlines (List.mem_of_mem_drop (List.mem_of_mem_take hb))
  simp only [extractSections_getElem, sectionBody, strip_joinLines]
  exact ⟨trimLines_inj (lines text₁) (lines text₂), congrArg joinLines⟩

theorem sectionBody_eq_iff_trimLines_reindented :
    ∃ (_ : 0 < (extractSections "## A\nfoo".toList).length)
      (_ : 0 < (extractSections "## A\n  foo".toList).length),
      ((extractSections "## A\nfoo".toList)[0].2 = (extractSections "## A\n  foo".toList)[0].2 ↔
        trimLines (declaredSection (splitlines "## A\nfoo".toList) 0).2 =
          trimLines (declaredSection (splitlines "## A\n  foo".toList) 0).2) :=
  ⟨by decide, by decide, sectionBody_eq_iff_trimLines _ _ 0 _ _⟩

/-- Re-indenting the first body line changes the line run beyond its blank ends but
not the body. -/
theorem indented_line_same_body :
    (splitlines "## A\nfoo".toList).filter (fun l => (headingTitle l).isSome) =
        (splitlines "## A\n  foo".toList).filter (fun l => (headingTitle l).isSome) ∧
      dropBlankEnds (declaredSection (splitlines "## A\nfoo".toList) 0).2 ≠
        dropBlankEnds (declaredSection (splitlines "## A\n  foo".toList) 0).2 ∧
      extractSections "## A\nfoo".toList = extractSections "## A\n  foo".toList := by
  decide

end SpecTrace.Drift
