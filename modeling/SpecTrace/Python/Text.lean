import Mathlib.Data.List.Infix
import Mathlib.Data.List.DropRight

/-! Python's `str` operations as `spec_diff.py` and `spec_test_map.py` use them, on
strings as lists of characters: the whitespace of `str.isspace` (also the class `\s`
of a `str` pattern), `strip`, `lower`, `str.splitlines`, and the text a file opened
in text mode yields, read whole (`read_text`) or line by line (`for line in f`).
Both readers translate `\r\n` and a lone `\r` to `\n`; `splitlines` also breaks at
the other Unicode line boundaries. `lower` is CPython's `do_lower` over case data given as a
parameter, run with the mappings that reach ASCII. -/

namespace SpecTrace.Python

/-- `str.isspace` of one character (CPython's `Py_UNICODE_ISSPACE`), which is also
what `\s` matches in a `str` pattern. -/
def isSpace (c : Char) : Bool :=
  let n := c.toNat
  (0x09 ≤ n && n ≤ 0x0D) || (0x1C ≤ n && n ≤ 0x20) || n == 0x85 || n == 0xA0 ||
    n == 0x1680 || (0x2000 ≤ n && n ≤ 0x200A) || n == 0x2028 || n == 0x2029 ||
    n == 0x202F || n == 0x205F || n == 0x3000

def lstrip (s : List Char) : List Char := s.dropWhile isSpace

def rstrip (s : List Char) : List Char := s.rdropWhile isSpace

/-- `str.strip()`. -/
def strip (s : List Char) : List Char := rstrip (lstrip s)

/-- The case data of the Unicode database that `str.lower` reads: the full lowercase mapping
(`_PyUnicode_ToLowerFull`) and the properties Cased and Case_Ignorable. -/
structure CaseData where
  toLowerFull : Char → List Char
  isCased : Char → Bool
  isCaseIgnorable : Char → Bool

/-- `handle_capital_sigma`: final sigma after a cased character and before none, case-ignorable
characters skipped; `before` is the text before, reversed. -/
def finalSigma (db : CaseData) (before after : List Char) : Bool :=
  (match before.dropWhile db.isCaseIgnorable with
    | c :: _ => db.isCased c
    | [] => false) &&
  match after.dropWhile db.isCaseIgnorable with
    | c :: _ => !db.isCased c
    | [] => true

/-- `str.lower()` (`do_lower`): every character by its full lowercase mapping, U+03A3 by
`handle_capital_sigma`; `before` is the text already read, reversed. -/
def lowerWith (db : CaseData) : List Char → List Char → List Char
  | _, [] => []
  | before, c :: s =>
    (if c = '\u03A3' then [if finalSigma db before s then '\u03C2' else '\u03C3']
      else db.toLowerFull c) ++ lowerWith db (c :: before) s

/-- The full lowercase mappings that reach ASCII: `A` to `Z`, U+0130 (an `i` and a combining dot)
and the Kelvin sign U+212A. Every other character is kept. -/
def lowerChar (c : Char) : List Char :=
  if c = '\u0130' then ['i', '\u0307'] else if c = '\u212A' then ['k'] else [c.toLower]

/-- The case data the model runs with: `lowerChar`, and no cased character. -/
def caseData : CaseData := ⟨lowerChar, fun _ => false, fun _ => false⟩

/-- `str.lower()` with `caseData`. -/
def lower (s : List Char) : List Char := lowerWith caseData [] s

theorem lowerWith_caseData (before s : List Char) :
    lowerWith caseData before s = s.flatMap fun c => if c = '\u03A3' then ['\u03C3'] else lowerChar c := by
  induction s generalizing before with
  | nil => rfl
  | cons c s ih =>
    have hσ : finalSigma caseData before s = false := by cases before <;> rfl
    rw [lowerWith, ih, hσ, List.flatMap_cons]
    rfl

/-- `'\n'.join(lines)`. -/
def joinLines : List (List Char) → List Char
  | [] => []
  | l :: ls => if ls = [] then l else l ++ '\n' :: joinLines ls

/-- The line boundaries of `str.splitlines`. -/
def isLineBreak (c : Char) : Bool :=
  c == '\n' || c == '\r' || c == '\x0b' || c == '\x0c' || c == '\x1c' || c == '\x1d' ||
    c == '\x1e' || c == '\x85' || c == '\u2028' || c == '\u2029'

/-- `str.splitlines()` from a line holding `cur`; `cr` says that a `\r` just ended a line, so that a
`\n` right after it ends nothing. -/
def splitlinesFrom : Bool → List Char → List Char → List (List Char)
  | _, [], cur => if cur = [] then [] else [cur]
  | cr, c :: s, cur =>
    if cr && c == '\n' then splitlinesFrom false s cur
    else if isLineBreak c then cur :: splitlinesFrom (c == '\r') s []
    else splitlinesFrom false s (cur ++ [c])

def splitlines (s : List Char) : List (List Char) := splitlinesFrom false s []

example : splitlines "a\r\nb\rc\x0cd\n".toList = ["a", "b", "c", "d"].map String.toList := by
  decide

/-- Universal newlines: text mode reads `\r\n` and a lone `\r` as `\n`. -/
def translateFrom : Bool → List Char → List Char
  | _, [] => []
  | cr, c :: s =>
    if cr && c == '\n' then translateFrom false s
    else if c == '\r' then '\n' :: translateFrom true s
    else c :: translateFrom false s

/-- `Path.read_text(encoding='utf-8')` of a file whose decoded contents are `raw`. -/
def readText (raw : List Char) : List Char := translateFrom false raw

/-- Iterating over a text-mode file from a line holding `cur`: every line ends after
its `\n`, which it keeps. -/
def fileLinesFrom : List Char → List Char → List (List Char)
  | [], cur => if cur = [] then [] else [cur]
  | c :: s, cur => if c == '\n' then (cur ++ ['\n']) :: fileLinesFrom s [] else fileLinesFrom s (cur ++ [c])

/-- `for line in f` over a file whose decoded contents are `raw`. -/
def fileLines (raw : List Char) : List (List Char) := fileLinesFrom (readText raw) []

example : fileLines "a\r\nb".toList = ["a\n", "b"].map String.toList := by decide

/-! ### Whitespace and stripping -/

@[simp] theorem strip_nil : strip [] = [] := rfl

theorem lstrip_append_of_forall {a : List Char} (ha : ∀ c ∈ a, isSpace c = true) (b : List Char) :
    lstrip (a ++ b) = lstrip b := List.dropWhile_append_of_pos ha

theorem rstrip_append_of_forall (a : List Char) {b : List Char} (hb : ∀ c ∈ b, isSpace c = true) :
    rstrip (a ++ b) = rstrip a := by
  induction b using List.reverseRecOn with
  | nil => simp
  | append_singleton b c ih =>
    rw [← List.append_assoc, rstrip, List.rdropWhile_concat_pos _ _ _ (hb c (by simp))]
    exact ih fun x hx => hb x (by simp [hx])

theorem strip_append_newline (l : List Char) : strip (l ++ ['\n']) = strip l := by
  have hn : isSpace '\n' = true := by decide
  simp only [strip, lstrip, List.dropWhile_append]
  split
  · next h => simp [List.isEmpty_iff.mp h, rstrip, hn]
  · exact rstrip_append_of_forall _ (by simpa using hn)

theorem infix_lstrip {v s : List Char} (hv : ∀ c ∈ v.head?, isSpace c = false) (h : v <:+: s) :
    v <:+: lstrip s := by
  obtain ⟨x, y, rfl⟩ := h
  simp only [lstrip, List.append_assoc, List.dropWhile_append]
  split
  · cases v with
    | nil => exact List.nil_infix
    | cons c v =>
      have hc : isSpace c = false := hv c rfl
      simpa [hc] using (List.prefix_append (c :: v) y).isInfix
  · exact List.infix_append' _ _ _

theorem infix_rstrip {v s : List Char} (hv : ∀ c ∈ v.getLast?, isSpace c = false) (h : v <:+: s) :
    v <:+: rstrip s := by
  rw [rstrip, List.rdropWhile, ← List.reverse_infix, List.reverse_reverse]
  refine infix_lstrip ?_ (List.reverse_infix.mpr h)
  simpa [List.head?_reverse] using hv

theorem strip_isInfix (s : List Char) : strip s <:+: s :=
  (List.rdropWhile_prefix _ _).isInfix.trans (List.dropWhile_suffix _).isInfix

theorem head?_strip {c : Char} {s : List Char} (h : c ∈ (strip s).head?) : isSpace c = false := by
  obtain ⟨t, ht⟩ := List.rdropWhile_prefix isSpace (lstrip s)
  have h' : (List.rdropWhile isSpace (lstrip s)).head? = some c := h
  have hc : (lstrip s).head? = some c := by rw [← ht, List.head?_append, h']; rfl
  have := List.head?_dropWhile_not isSpace s
  rwa [← lstrip, hc] at this

theorem getLast?_strip {c : Char} {s : List Char} (h : c ∈ (strip s).getLast?) : isSpace c = false := by
  have hne : strip s ≠ [] := by rintro h'; simp [h'] at h
  rw [List.getLast?_eq_getLast _ hne, Option.mem_some_iff] at h
  subst h
  simpa using List.rdropWhile_last_not isSpace _ hne

theorem strip_isInfix_strip {v w : List Char} (h : v <:+: w) : strip v <:+: strip w :=
  infix_rstrip (fun _ hc => getLast?_strip hc)
    (infix_lstrip (fun _ hc => head?_strip hc) ((strip_isInfix v).trans h))

theorem lstrip_append_of_ne {a : List Char} (ha : lstrip a ≠ []) (b : List Char) :
    lstrip (a ++ b) = lstrip a ++ b := by
  have ha' : ¬(List.dropWhile isSpace a).isEmpty = true := fun h => ha (List.isEmpty_iff.mp h)
  rw [lstrip, List.dropWhile_append, if_neg ha']; rfl

theorem rstrip_append_of_ne (a : List Char) {b : List Char} (hb : rstrip b ≠ []) :
    rstrip (a ++ b) = a ++ rstrip b := by
  have hb' : (List.dropWhile isSpace b.reverse).isEmpty = false := by
    simpa [rstrip, List.rdropWhile, List.isEmpty_iff] using hb
  simp [rstrip, List.rdropWhile, List.dropWhile_append, hb']

theorem strip_append_of_forall {a b : List Char} (ha : ∀ c ∈ a, isSpace c = true)
    (hb : ∀ c ∈ b, isSpace c = true) (s : List Char) : strip (a ++ s ++ b) = strip s := by
  rw [strip, List.append_assoc, lstrip_append_of_forall ha]
  by_cases hs : lstrip s = []
  · have hsb : lstrip (s ++ b) = [] := by
      have hs' : (s.dropWhile isSpace).isEmpty = true := List.isEmpty_iff.mpr hs
      rw [lstrip, List.dropWhile_append, if_pos hs']
      exact List.dropWhile_eq_nil_iff.mpr hb
    rw [hsb, strip, hs]
  · rw [lstrip_append_of_ne hs, rstrip_append_of_forall _ hb, strip]

theorem strip_rstrip (s : List Char) : strip (rstrip s) = strip s := by
  induction s using List.reverseRecOn with
  | nil => rfl
  | append_singleton s c ih =>
    rw [rstrip, List.rdropWhile_concat]
    split
    · next hc =>
      rw [← rstrip, ih, ← strip_append_of_forall (List.forall_mem_nil _)
        (show ∀ x ∈ [c], isSpace x = true by simpa using hc) s]
      rfl
    · rfl

/-! ### Joining and splitting lines -/

@[simp] theorem joinLines_nil : joinLines [] = [] := rfl

@[simp] theorem joinLines_singleton (l : List Char) : joinLines [l] = l := rfl

theorem joinLines_cons_of_ne {ls : List (List Char)} (h : ls ≠ []) (l : List Char) :
    joinLines (l :: ls) = l ++ '\n' :: joinLines ls := by
  simp [joinLines, h]

theorem joinLines_append_singleton {ls : List (List Char)} (h : ls ≠ []) (l : List Char) :
    joinLines (ls ++ [l]) = joinLines ls ++ '\n' :: l := by
  induction ls with
  | nil => contradiction
  | cons a ls ih =>
    cases ls with
    | nil => simp [joinLines]
    | cons b ls =>
      rw [List.cons_append, joinLines_cons_of_ne (by simp), joinLines_cons_of_ne (by simp),
        ih (by simp)]
      simp

theorem joinLines_append {A B : List (List Char)} (hA : A ≠ []) (hB : B ≠ []) :
    joinLines (A ++ B) = joinLines A ++ '\n' :: joinLines B := by
  induction A with
  | nil => contradiction
  | cons a A ih =>
    cases A with
    | nil => simp [joinLines, hB]
    | cons a' A =>
      rw [List.cons_append, joinLines_cons_of_ne (by simp), joinLines_cons_of_ne (by simp),
        ih (by simp)]
      simp

theorem not_isLineBreak_of_mem_splitlinesFrom (cr : Bool) (s cur : List Char)
    (hcur : ∀ c ∈ cur, isLineBreak c = false) :
    ∀ l ∈ splitlinesFrom cr s cur, ∀ c ∈ l, isLineBreak c = false := by
  induction cr, s, cur using splitlinesFrom.induct with
  | case1 => simp [splitlinesFrom]
  | case2 _ cur hne => simpa [splitlinesFrom, hne] using hcur
  | case3 cr c s cur h ih => simpa [splitlinesFrom, h] using ih hcur
  | case4 cr c s cur h hb ih =>
    rw [splitlinesFrom, if_neg h, if_pos hb]
    simp only [List.mem_cons, forall_eq_or_imp]
    exact ⟨hcur, ih (by simp)⟩
  | case5 cr c s cur h hb ih =>
    rw [splitlinesFrom, if_neg h, if_neg hb]
    refine ih fun x hx => ?_
    rcases List.mem_append.mp hx with hx | hx
    · exact hcur x hx
    · simp only [List.mem_singleton] at hx; subst hx; simpa using hb

theorem newline_not_mem_of_mem_splitlines {s l : List Char} (h : l ∈ splitlines s) : '\n' ∉ l :=
  fun hn => absurd (not_isLineBreak_of_mem_splitlinesFrom false s [] (by simp) l h '\n' hn)
    (by decide)

theorem fileLinesFrom_translateFrom (cr : Bool) (s cur : List Char)
    (h : ∀ c ∈ s, isLineBreak c = true → c = '\n' ∨ c = '\r') :
    (fileLinesFrom (translateFrom cr s) cur).map strip = (splitlinesFrom cr s cur).map strip := by
  induction cr, s, cur using splitlinesFrom.induct with
  | case1 => rfl
  | case2 _ cur hne => simp [translateFrom, fileLinesFrom, splitlinesFrom, hne]
  | case3 cr c s cur hc ih =>
    rw [translateFrom, if_pos hc, splitlinesFrom, if_pos hc]
    exact ih fun x hx => h x (List.mem_cons_of_mem c hx)
  | case4 cr c s cur hc hb ih =>
    have ih := ih fun x hx => h x (List.mem_cons_of_mem c hx)
    rw [splitlinesFrom, if_neg hc, if_pos hb]
    rcases h c (List.mem_cons_self c s) hb with rfl | rfl
    · have hcr : cr = false := by simpa using hc
      subst hcr
      simpa [translateFrom, fileLinesFrom, strip_append_newline] using ih
    · simpa [translateFrom, fileLinesFrom, strip_append_newline, hc] using ih
  | case5 cr c s cur hc hb ih =>
    have hn : c ≠ '\n' := by rintro rfl; exact absurd hb (by decide)
    have hr : c ≠ '\r' := by rintro rfl; exact absurd hb (by decide)
    rw [splitlinesFrom, if_neg hc, if_neg hb, ← ih fun x hx => h x (List.mem_cons_of_mem c hx)]
    simp [translateFrom, fileLinesFrom, hc, hn, hr]

theorem fileLines_map_strip {raw : List Char}
    (h : ∀ c ∈ raw, isLineBreak c = true → c = '\n' ∨ c = '\r') :
    (fileLines raw).map strip = (splitlines raw).map strip :=
  fileLinesFrom_translateFrom false raw [] h

/-! ### Lines read back -/

theorem splitlinesFrom_translateFrom (cr : Bool) (s cur : List Char) :
    splitlinesFrom false (translateFrom cr s) cur = splitlinesFrom cr s cur := by
  induction cr, s, cur using splitlinesFrom.induct with
  | case1 => rfl
  | case2 => rfl
  | case3 cr c s cur h ih => rw [translateFrom, if_pos h, ih, splitlinesFrom, if_pos h]
  | case4 cr c s cur h hb ih =>
    rw [splitlinesFrom, if_neg h, if_pos hb, ← ih]
    by_cases hr : c = '\r'
    · subst hr
      rw [translateFrom, if_neg h, if_pos (by decide)]
      rfl
    · have hr' : (c == '\r') = false := by simpa using hr
      rw [translateFrom, if_neg h, if_neg (ne_true_of_eq_false hr'), splitlinesFrom, if_neg (by simp),
        if_pos hb, hr']
  | case5 cr c s cur h hb ih =>
    have hr : c ≠ '\r' := by rintro rfl; exact hb rfl
    rw [translateFrom, if_neg h, if_neg (by simpa using hr), splitlinesFrom, if_neg (by simp),
      if_neg hb, ih, splitlinesFrom, if_neg h, if_neg hb]

theorem splitlines_readText (s : List Char) : splitlines (readText s) = splitlines s :=
  splitlinesFrom_translateFrom false s []

/-- Text without a `\r` reads back as it is. -/
theorem readText_of_forall_ne {s : List Char} (h : ∀ c ∈ s, c ≠ '\r') : readText s = s := by
  induction s with
  | nil => rfl
  | cons c s ih =>
    rw [readText, translateFrom, Bool.false_and, if_neg (by simp),
      if_neg (by simpa using h c (.head _))]
    exact congrArg _ (ih fun x hx => h x (.tail _ hx))

theorem splitlinesFrom_append_of_forall {l : List Char} (hl : ∀ c ∈ l, isLineBreak c = false)
    (s cur : List Char) : splitlinesFrom false (l ++ s) cur = splitlinesFrom false s (cur ++ l) := by
  induction l generalizing cur with
  | nil => rw [List.nil_append, List.append_nil]
  | cons c l ih =>
    rw [List.cons_append, splitlinesFrom, if_neg (by simp),
      if_neg (by simp [hl c (List.mem_cons_self c l)]),
      ih (fun x hx => hl x (List.mem_cons_of_mem c hx)), List.append_assoc, List.singleton_append]

theorem splitlinesFrom_newline (s cur : List Char) :
    splitlinesFrom false ('\n' :: s) cur = cur :: splitlinesFrom false s [] := rfl

/-- Lines without a line boundary, joined and ended by `\n`, are the lines `splitlines` cuts. -/
theorem splitlines_joinLines_append {ls : List (List Char)}
    (hls : ∀ l ∈ ls, ∀ c ∈ l, isLineBreak c = false) (hne : ls ≠ []) (s : List Char) :
    splitlines (joinLines ls ++ '\n' :: s) = ls ++ splitlines s := by
  induction ls with
  | nil => contradiction
  | cons l ls ih =>
    have hl := hls l (List.mem_cons_self l ls)
    cases ls with
    | nil =>
      rw [joinLines_singleton, splitlines, splitlinesFrom_append_of_forall hl, splitlinesFrom_newline]
      rfl
    | cons l' ls =>
      rw [joinLines_cons_of_ne (List.cons_ne_nil l' ls), List.append_assoc, List.cons_append,
        splitlines, splitlinesFrom_append_of_forall hl, splitlinesFrom_newline, ← splitlines,
        ih (fun x hx => hls x (List.mem_cons_of_mem l hx)) (List.cons_ne_nil l' ls)]
      rfl

end SpecTrace.Python
