import SpecTrace.Python.Text
import Mathlib.Algebra.Order.Field.Rat
import Mathlib.Tactic.NormNum.Ineq

/-! Keyword coverage of `spec_diff.py`: `_normalize_for_match`, `keyword_coverage` over
the companion documents joined by `\n`, and `coverage_score`. The normalisation is a
chain of `re.sub` calls, each turning every run of one character class into a space,
then `strip`.

Proved: the three substitutions make every run outside `[a-z0-9]` one space, so normalisation
sees of `str.lower` only which characters of `[a-z0-9]` each character lowercases to; any case
database that agrees with `lowerChar` there, as CPython's does, gives the model's normalisation
(`normalizeForMatch_lawful`). Normalisation keeps occurrences, so a keyword
occurring verbatim in appended text is found, and appending to the last document, or
finding a keyword within the documents before or after the insertion point, never
loses a keyword. A keyword found across the `\n` joining two documents can be lost by
inserting text between them. The comment of `_normalize_for_match` says that characters
outside `[a-z0-9 ]` are removed; the code turns them into spaces, which separates what
removal would join. Percentages are exact rationals. -/

namespace SpecTrace.Drift

open Python

/-! ### `_normalize_for_match` -/

/-- `re.sub(r"[...]+", " ", s)` for the class `p`, where `inRun` says that the character before was
in the class: every maximal run of the class becomes one space. -/
def subRunsFrom (p : Char → Bool) : Bool → List Char → List Char
  | _, [] => []
  | inRun, c :: s =>
    if p c then (if inRun then subRunsFrom p true s else ' ' :: subRunsFrom p true s)
    else c :: subRunsFrom p false s

def subRuns (p : Char → Bool) (s : List Char) : List Char := subRunsFrom p false s

/-- The class `[-_]`. -/
def isHyphenOrUnderscore (c : Char) : Bool := c == '-' || c == '_'

/-- The class `[a-z0-9 ]`. -/
def isAlnumOrSpace (c : Char) : Bool := ('a' ≤ c && c ≤ 'z') || ('0' ≤ c && c ≤ '9') || c == ' '

/-- `_normalize_for_match(text)`. -/
def normalizeForMatch (text : List Char) : List Char :=
  strip (subRuns isSpace (subRuns (fun c => !isAlnumOrSpace c)
    (subRuns isHyphenOrUnderscore (lower text))))

example : normalizeForMatch "RS(255, 223)".toList = "rs 255 223".toList := by decide

/-- Whether the run of the class is open after reading `u` from state `b`. -/
def runOpenAfter (p : Char → Bool) (b : Bool) (u : List Char) : Bool :=
  match u.getLast? with
  | some c => p c
  | none => b

theorem runOpenAfter_cons (p : Char → Bool) (b : Bool) (c : Char) (u : List Char) :
    runOpenAfter p b (c :: u) = runOpenAfter p (p c) u := by
  cases u with
  | nil => rfl
  | cons d u =>
    obtain ⟨x, hx⟩ : ∃ x, (d :: u).getLast? = some x :=
      ⟨_, List.getLast?_eq_getLast _ (List.cons_ne_nil d u)⟩
    simp [runOpenAfter, List.getLast?_cons_cons, hx]

theorem subRunsFrom_append (p : Char → Bool) (b : Bool) (u v : List Char) :
    subRunsFrom p b (u ++ v) = subRunsFrom p b u ++ subRunsFrom p (runOpenAfter p b u) v := by
  induction u generalizing b with
  | nil => rfl
  | cons c u ih => by_cases hc : p c <;> cases b <;> simp [subRunsFrom, hc, ih, runOpenAfter_cons]

theorem subRunsFrom_false (p : Char → Bool) (v : List Char) :
    subRunsFrom p false v = subRunsFrom p true v ∨
      subRunsFrom p false v = ' ' :: subRunsFrom p true v := by
  cases v with
  | nil => exact .inl rfl
  | cons c v => by_cases hc : p c <;> simp [subRunsFrom, hc]

theorem subRunsFrom_of_runOpen (p : Char → Bool) {u : List Char}
    (h : runOpenAfter p false u = true) : ∃ x, subRunsFrom p false u = x ++ [' '] := by
  induction u using List.reverseRecOn with
  | nil => simp [runOpenAfter] at h
  | append_singleton u c ih =>
    have hc : p c = true := by simpa [runOpenAfter] using h
    rw [subRunsFrom_append]
    cases hu : runOpenAfter p false u
    · exact ⟨subRunsFrom p false u, by simp [subRunsFrom, hc]⟩
    · obtain ⟨x, hx⟩ := ih hu
      exact ⟨x, by simp [subRunsFrom, hc, hx]⟩

theorem subRuns_isInfix (p : Char → Bool) {v w : List Char} (h : v <:+: w) :
    subRuns p v <:+: subRuns p w := by
  obtain ⟨a, b, rfl⟩ := h
  simp only [subRuns, subRunsFrom_append]
  cases ha : runOpenAfter p false a
  · exact List.infix_append _ _ _
  · obtain ⟨x, hx⟩ := subRunsFrom_of_runOpen p ha
    rw [hx]
    rcases subRunsFrom_false p v with hv | hv
    · rw [hv]; exact List.infix_append _ _ _
    · rw [hv]; exact ⟨x, subRunsFrom p (runOpenAfter p false (a ++ v)) b, by simp⟩

/-! ### One substitution instead of three -/

/-- The class `[a-z0-9]`. -/
def isAsciiAlnum (c : Char) : Bool := ('a' ≤ c && c ≤ 'z') || ('0' ≤ c && c ≤ '9')

theorem isAlnumOrSpace_eq (c : Char) : isAlnumOrSpace c = (isAsciiAlnum c || c == ' ') := by
  simp only [isAlnumOrSpace, isAsciiAlnum, Bool.or_assoc]

theorem isSpace_of_isAsciiAlnum {c : Char} (h : isAsciiAlnum c = true) : isSpace c = false := by
  simp only [isAsciiAlnum, Bool.or_eq_true, Bool.and_eq_true, decide_eq_true_eq] at h
  rcases h with ⟨h₁, h₂⟩ | ⟨h₁, h₂⟩
  · have : 97 ≤ c.toNat ∧ c.toNat ≤ 122 := ⟨h₁, h₂⟩
    simp [isSpace]; omega
  · have : 48 ≤ c.toNat ∧ c.toNat ≤ 57 := ⟨h₁, h₂⟩
    simp [isSpace]; omega

theorem isHyphenOrUnderscore_of_isAsciiAlnum {c : Char} (h : isAsciiAlnum c = true) :
    isHyphenOrUnderscore c = false := by
  rw [Bool.eq_false_iff]
  intro hh
  simp only [isHyphenOrUnderscore, Bool.or_eq_true, beq_iff_eq] at hh
  rcases hh with rfl | rfl <;> exact absurd h (by decide)

theorem subRuns_three (t : List Char) :
    (∀ b₁ b₂, subRunsFrom isSpace true (subRunsFrom (fun c => !isAlnumOrSpace c) b₂
        (subRunsFrom isHyphenOrUnderscore b₁ t)) = subRunsFrom (fun c => !isAsciiAlnum c) true t) ∧
      subRunsFrom isSpace false (subRunsFrom (fun c => !isAlnumOrSpace c) false
        (subRunsFrom isHyphenOrUnderscore false t)) = subRunsFrom (fun c => !isAsciiAlnum c) false t := by
  induction t with
  | nil => exact ⟨fun _ _ => rfl, rfl⟩
  | cons c t ih =>
    obtain ⟨ih₁, ih₂⟩ := ih
    have hsp : isSpace ' ' = true ∧ isAlnumOrSpace ' ' = true := ⟨rfl, rfl⟩
    by_cases ha : isAsciiAlnum c = true
    · -- a character of `[a-z0-9]` passes all three and closes every run
      have h₂ : isAlnumOrSpace c = true := by rw [isAlnumOrSpace_eq, ha, Bool.true_or]
      refine ⟨fun b₁ b₂ => ?_, ?_⟩ <;>
        simp [subRunsFrom, isHyphenOrUnderscore_of_isAsciiAlnum ha, h₂, isSpace_of_isAsciiAlnum ha,
          ha, ih₂]
    rw [Bool.not_eq_true] at ha
    by_cases hh : isHyphenOrUnderscore c = true
    · -- `[-_]`: the first substitution writes a space, which the third keeps or swallows
      refine ⟨fun b₁ b₂ => ?_, ?_⟩
      · cases b₁ <;> simp [subRunsFrom, hh, ha, hsp, ih₁]
      · simp [subRunsFrom, hh, ha, hsp, ih₁]
    rw [Bool.not_eq_true] at hh
    by_cases hs : c = ' '
    · -- a space passes the first two
      subst hs
      refine ⟨fun b₁ b₂ => ?_, ?_⟩ <;> simp [subRunsFrom, hh, ha, hsp, ih₁]
    · -- any other character: the second substitution writes a space
      have h₂ : isAlnumOrSpace c = false := by rw [isAlnumOrSpace_eq, ha]; simpa using hs
      refine ⟨fun b₁ b₂ => ?_, ?_⟩
      · cases b₂ <;> simp [subRunsFrom, hh, h₂, ha, hsp, ih₁]
      · simp [subRunsFrom, hh, h₂, ha, hsp, ih₁]

theorem normalizeForMatch_eq (text : List Char) :
    normalizeForMatch text = strip (subRuns (fun c => !isAsciiAlnum c) (lower text)) := by
  rw [normalizeForMatch, subRuns, subRuns, subRuns, (subRuns_three _).2, subRuns]

/-! ### What normalisation sees of `str.lower` -/

/-- Two lowercase mappings of a character that `[a-z0-9]` cannot tell apart: the same, or both
non-empty with no character of `[a-z0-9]`. -/
def SameWords (x y : List Char) : Prop :=
  x = y ∨ (x ≠ [] ∧ y ≠ [] ∧ ∀ d ∈ x ++ y, isAsciiAlnum d = false)

/-- A database whose lowercase mappings `[a-z0-9]` cannot tell from `lowerChar`. CPython's is one:
only `A` to `Z`, U+0130 and U+212A lowercase to a character of `[a-z0-9]` that is not themselves. -/
def LawfulCaseData (db : CaseData) : Prop := ∀ c, SameWords (db.toLowerFull c) (lowerChar c)

theorem subRunsFrom_true_append {p : Char → Bool} {x : List Char} (hx : ∀ d ∈ x, p d = true)
    (r : List Char) : subRunsFrom p true (x ++ r) = subRunsFrom p true r := by
  induction x with
  | nil => rfl
  | cons d x ih =>
    rw [List.forall_mem_cons] at hx
    simp [subRunsFrom, hx.1, ih hx.2]

theorem subRunsFrom_block {p : Char → Bool} {x : List Char} (hne : x ≠ [])
    (hx : ∀ d ∈ x, p d = true) (b : Bool) (r : List Char) :
    subRunsFrom p b (x ++ r) = (if b then [] else [' ']) ++ subRunsFrom p true r := by
  obtain ⟨d, x, rfl⟩ := List.exists_cons_of_ne_nil hne
  rw [List.forall_mem_cons] at hx
  cases b <;> simp [subRunsFrom, hx.1, subRunsFrom_true_append hx.2]

theorem sameWords_lowerWith {db : CaseData} (h : LawfulCaseData db) (c : Char) (before s : List Char) :
    SameWords (if c = '\u03A3' then [if finalSigma db before s then '\u03C2' else '\u03C3']
        else db.toLowerFull c)
      (if c = '\u03A3' then [if finalSigma caseData [] s then '\u03C2' else '\u03C3']
        else caseData.toLowerFull c) := by
  split_ifs
  · exact .inl rfl
  all_goals first
    | exact .inr ⟨List.cons_ne_nil _ _, List.cons_ne_nil _ _, by decide⟩
    | exact h c

theorem subRunsFrom_lowerWith {db : CaseData} (h : LawfulCaseData db) (t : List Char) :
    ∀ b before before', subRunsFrom (fun c => !isAsciiAlnum c) b (lowerWith db before t) =
      subRunsFrom (fun c => !isAsciiAlnum c) b (lowerWith caseData before' t) := by
  induction t with
  | nil => intros; rfl
  | cons c t ih =>
    intro b before before'
    have hσ : finalSigma caseData before' t = finalSigma caseData [] t := by
      cases before' <;> rfl
    rw [lowerWith, lowerWith, hσ]
    rcases sameWords_lowerWith h c before t with hxy | ⟨hx, hy, hd⟩
    · rw [hxy, subRunsFrom_append, subRunsFrom_append, ih]
    · rw [subRunsFrom_block hx (fun d hd' => by simp [hd d (List.mem_append_left _ hd')]),
        subRunsFrom_block hy (fun d hd' => by simp [hd d (List.mem_append_right _ hd')]), ih]

/-- `_normalize_for_match` with `str.lower()` over any lawful database is the model's. -/
theorem normalizeForMatch_lawful {db : CaseData} (h : LawfulCaseData db) (text : List Char) :
    strip (subRuns isSpace (subRuns (fun c => !isAlnumOrSpace c)
      (subRuns isHyphenOrUnderscore (lowerWith db [] text)))) = normalizeForMatch text := by
  rw [normalizeForMatch_eq, subRuns, subRuns, subRuns, (subRuns_three _).2, lower, subRuns,
    subRunsFrom_lowerWith h]

/-- A database with a final sigma and its own mapping of `Ω` normalises as the model does. -/
theorem normalizeForMatch_lawful_greek :
    LawfulCaseData ⟨fun c => if c = 'Ω' then ['ω'] else lowerChar c, fun c => c.isAlpha || c = 'Ω',
        fun _ => false⟩ ∧
      strip (subRuns isSpace (subRuns (fun c => !isAlnumOrSpace c)
        (subRuns isHyphenOrUnderscore (lowerWith ⟨fun c => if c = 'Ω' then ['ω'] else lowerChar c,
          fun c => c.isAlpha || c = 'Ω', fun _ => false⟩ [] "KΩΣ-k".toList)))) =
        normalizeForMatch "KΩΣ-k".toList := by
  have hl : LawfulCaseData ⟨fun c => if c = 'Ω' then ['ω'] else lowerChar c,
      fun c => c.isAlpha || c = 'Ω', fun _ => false⟩ := fun c => by
    show SameWords (if c = 'Ω' then ['ω'] else lowerChar c) (lowerChar c)
    split_ifs with hc
    · subst hc; exact .inr ⟨List.cons_ne_nil _ _, List.cons_ne_nil _ _, by decide⟩
    · exact .inl rfl
  exact ⟨hl, normalizeForMatch_lawful hl _⟩

/-- Normalisation keeps occurrences: what occurs in a text occurs, normalised, in the
normalised text. -/
theorem normalizeForMatch_isInfix {v w : List Char} (h : v <:+: w) :
    normalizeForMatch v <:+: normalizeForMatch w := by
  rw [normalizeForMatch_eq, normalizeForMatch_eq, lower, lower, lowerWith_caseData, lowerWith_caseData]
  obtain ⟨a, b, rfl⟩ := h
  rw [List.flatMap_append, List.flatMap_append]
  exact strip_isInfix_strip (subRuns_isInfix _ (List.infix_append _ _ _))

/-! ### `keyword_coverage` and `coverage_score` -/

/-- `FEATURE_KEYWORDS`: feature category and representative keywords. -/
def featureKeywordsText : List (String × List String) :=
  [("Cryptography", ["HPKE", "Hybrid", "Kyber", "PQ", "Post-Quantum"]),
   ("Routing", ["Multipath", "WRR", "routing", "hop"]),
   ("Transport", ["QUIC", "TCP", "Teredo", "DATAGRAM"]),
   ("FEC", ["RaptorQ", "RS(255,223)", "redundancy"]),
   ("Plugin", ["Plugin", "Frame", "Capability", "CBOR"]),
   ("Telemetry", ["Telemetry", "Prometheus", "OpenTelemetry", "metrics"]),
   ("Low Power", ["Low Power", "Low-Power", "cover", "battery"]),
   ("Compliance", ["Compliance", "Core", "Plus", "Full"])]

def featureKeywords : List (List Char × List (List Char)) :=
  featureKeywordsText.map fun e => (e.1.toList, e.2.map String.toList)

/-- Whether the normalised keyword occurs in the normalised text (`norm_kw in norm_text`). -/
def keywordPresent (normText kw : List Char) : Bool := decide (normalizeForMatch kw <:+: normText)

/-- `keyword_coverage(doc_texts)`: for every category, every keyword and whether it is
present in the documents joined by `\n`. -/
def keywordCoverage (docTexts : List (List Char)) : List (List Char × List (List Char × Bool)) :=
  featureKeywords.map fun e =>
    (e.1, e.2.map fun kw => (kw, keywordPresent (normalizeForMatch (joinLines docTexts)) kw))

/-- The keywords `coverage_score` counts, and those it counts present. -/
def totalCount (cov : List (List Char × List (List Char × Bool))) : Nat :=
  (cov.map fun d => d.2.length).sum

def presentCount (cov : List (List Char × List (List Char × Bool))) : Nat :=
  (cov.map fun d => (d.2.filter (·.2)).length).sum

/-- `coverage_score(cov)`: the present keywords as a percentage of all, `0` if none. -/
def coverageScore (cov : List (List Char × List (List Char × Bool))) : ℚ :=
  if totalCount cov = 0 then 0 else (presentCount cov : ℚ) / totalCount cov * 100

/-- Whether a coverage table reports the keyword present in some category. -/
def isReported (cov : List (List Char × List (List Char × Bool))) (kw : List Char) : Bool :=
  cov.any fun d => d.2.any fun e => e.1 == kw && e.2

/-- A keyword of `FEATURE_KEYWORDS`. -/
def IsFeatureKeyword (kw : List Char) : Prop := ∃ e ∈ featureKeywords, kw ∈ e.2

theorem isReported_iff {cov : List (List Char × List (List Char × Bool))} {kw : List Char} :
    isReported cov kw = true ↔ ∃ d ∈ cov, (kw, true) ∈ d.2 := by
  simp only [isReported, List.any_eq_true, Bool.and_eq_true, beq_iff_eq]
  constructor
  · rintro ⟨d, hd, ⟨k, b⟩, he, rfl, rfl⟩; exact ⟨d, hd, he⟩
  · rintro ⟨d, hd, he⟩; exact ⟨d, hd, _, he, rfl, rfl⟩

/-- `keyword_coverage` reports exactly the keywords whose normalised form occurs in the
normalised joined documents. -/
theorem isReported_keywordCoverage {docs : List (List Char)} {kw : List Char} :
    isReported (keywordCoverage docs) kw = true ↔
      IsFeatureKeyword kw ∧ normalizeForMatch kw <:+: normalizeForMatch (joinLines docs) := by
  rw [isReported_iff]
  constructor
  · rintro ⟨d, hd, hk⟩
    obtain ⟨e, he, rfl⟩ := List.mem_map.mp hd
    obtain ⟨k, hk', hkk⟩ := List.mem_map.mp hk
    obtain ⟨rfl, hp⟩ := Prod.mk.inj hkk
    exact ⟨⟨e, he, hk'⟩, by simpa [keywordPresent] using hp⟩
  · rintro ⟨⟨e, he, hk⟩, hp⟩
    exact ⟨_, List.mem_map_of_mem _ he, List.mem_map.mpr ⟨kw, hk, by simp [keywordPresent, hp]⟩⟩

theorem presentCount_mono (table : List (List Char × List (List Char))) {f g : List Char → Bool}
    (h : ∀ k, f k = true → g k = true) :
    presentCount (table.map fun e => (e.1, e.2.map fun k => (k, f k))) ≤
      presentCount (table.map fun e => (e.1, e.2.map fun k => (k, g k))) := by
  induction table with
  | nil => simp [presentCount]
  | cons e t ih =>
    simp only [presentCount, List.map_cons, List.sum_cons, List.filter_map, List.length_map] at ih ⊢
    exact Nat.add_le_add ((List.monotone_filter_right _ fun k hk => h k hk).length_le) ih

theorem totalCount_table (table : List (List Char × List (List Char))) (f : List Char → Bool) :
    totalCount (table.map fun e => (e.1, e.2.map fun k => (k, f k))) =
      (table.map fun e => e.2.length).sum := by
  simp [totalCount, Function.comp_def]

theorem coverageScore_mono (table : List (List Char × List (List Char))) {f g : List Char → Bool}
    (h : ∀ k, f k = true → g k = true) :
    coverageScore (table.map fun e => (e.1, e.2.map fun k => (k, f k))) ≤
      coverageScore (table.map fun e => (e.1, e.2.map fun k => (k, g k))) := by
  unfold coverageScore
  rw [totalCount_table, totalCount_table]
  split_ifs
  · rfl
  · exact mul_le_mul_of_nonneg_right
      (div_le_div_of_nonneg_right (by exact_mod_cast presentCount_mono table h) (Nat.cast_nonneg _))
      (Nat.ofNat_nonneg _)

/-! ### Appending to a companion document -/

theorem joinLines_modify_append {D : List (List Char)} {i : Nat} (hi : i < D.length) (s : List Char) :
    joinLines (D.modify (· ++ '\n' :: s) i) = joinLines (D.take (i + 1)) ++ '\n' :: s ++
      (if D.drop (i + 1) = [] then [] else '\n' :: joinLines (D.drop (i + 1))) := by
  have last : joinLines (D.take i ++ [D[i] ++ '\n' :: s]) = joinLines (D.take (i + 1)) ++ '\n' :: s := by
    rw [List.take_succ, List.getElem?_eq_getElem hi, Option.toList_some]
    rcases eq_or_ne (D.take i) [] with h | h
    · simp [h]
    · rw [joinLines_append_singleton h, joinLines_append_singleton h]; simp
  rw [List.modify_eq_take_cons_drop hi, ← List.singleton_append, ← List.append_assoc]
  split
  · next h => rw [h, List.append_nil, last, List.append_nil]
  · next h => rw [joinLines_append (by simp) h, last]

theorem isReported_modify_append {D : List (List Char)} {i : Nat} (hi : i < D.length)
    (s : List Char) {kw : List Char} (hkw : IsFeatureKeyword kw)
    (h : normalizeForMatch kw <:+: normalizeForMatch (joinLines (D.take (i + 1))) ∨
      normalizeForMatch kw <:+: normalizeForMatch (joinLines (D.drop (i + 1))) ∨ kw <:+: s) :
    isReported (keywordCoverage (D.modify (· ++ '\n' :: s) i)) kw = true := by
  refine isReported_keywordCoverage.mpr ⟨hkw, ?_⟩
  rw [joinLines_modify_append hi]
  have hQ : joinLines (D.drop (i + 1)) <:+:
      (if D.drop (i + 1) = [] then [] else '\n' :: joinLines (D.drop (i + 1))) := by
    split
    · next he => rw [he]; exact List.nil_infix
    · exact List.infix_cons (List.infix_refl _)
  generalize (if D.drop (i + 1) = [] then [] else '\n' :: joinLines (D.drop (i + 1))) = R at hQ ⊢
  rcases h with h | h | h
  · exact h.trans (normalizeForMatch_isInfix ⟨[], '\n' :: s ++ R, by simp⟩)
  · exact h.trans (normalizeForMatch_isInfix
      (hQ.trans ⟨joinLines (D.take (i + 1)) ++ '\n' :: s, [], by simp⟩))
  · exact (normalizeForMatch_isInfix h).trans
      (normalizeForMatch_isInfix ⟨joinLines (D.take (i + 1)) ++ ['\n'], R, by simp⟩)

/-- Appending `'\n' + s` to companion document `i` keeps every keyword found on either side of the
insertion and adds those in `s`; appending to the last document loses nothing. -/
theorem keywordCoverage_modify_append (D : List (List Char)) (i : Nat) (s : List Char)
    (hi : i < D.length) :
    (∀ kw, IsFeatureKeyword kw →
      normalizeForMatch kw <:+: normalizeForMatch (joinLines (D.take (i + 1))) ∨
        normalizeForMatch kw <:+: normalizeForMatch (joinLines (D.drop (i + 1))) ∨ kw <:+: s →
      isReported (keywordCoverage (D.modify (· ++ '\n' :: s) i)) kw = true) ∧
    (i + 1 = D.length →
      (∀ kw, isReported (keywordCoverage D) kw = true →
        isReported (keywordCoverage (D.modify (· ++ '\n' :: s) i)) kw = true) ∧
      coverageScore (keywordCoverage D) ≤
        coverageScore (keywordCoverage (D.modify (· ++ '\n' :: s) i))) := by
  refine ⟨fun kw hkw h => isReported_modify_append hi s hkw h, fun hlast => ?_⟩
  have hD : D.take (i + 1) = D := List.take_of_length_le (by omega)
  have hgrow : normalizeForMatch (joinLines D) <:+:
      normalizeForMatch (joinLines (D.modify (· ++ '\n' :: s) i)) := by
    rw [joinLines_modify_append hi, hD, List.drop_of_length_le (by omega), if_pos rfl]
    exact normalizeForMatch_isInfix ⟨[], '\n' :: s, by simp⟩
  refine ⟨fun kw h => ?_, coverageScore_mono featureKeywords fun k hk => ?_⟩
  · obtain ⟨hkw, hp⟩ := isReported_keywordCoverage.mp h
    exact isReported_modify_append hi s hkw (.inl (by rw [hD]; exact hp))
  · simpa [keywordPresent] using (of_decide_eq_true hk).trans hgrow

theorem keywordCoverage_modify_append_low_power :
    0 < ["Low".toList].length ∧
      ((∀ kw, IsFeatureKeyword kw →
        normalizeForMatch kw <:+: normalizeForMatch (joinLines (["Low".toList].take 1)) ∨
          normalizeForMatch kw <:+: normalizeForMatch (joinLines (["Low".toList].drop 1)) ∨
            kw <:+: "Power".toList →
        isReported (keywordCoverage (["Low".toList].modify (· ++ '\n' :: "Power".toList) 0)) kw = true) ∧
      (0 + 1 = ["Low".toList].length →
        (∀ kw, isReported (keywordCoverage ["Low".toList]) kw = true →
          isReported (keywordCoverage (["Low".toList].modify (· ++ '\n' :: "Power".toList) 0)) kw = true) ∧
        coverageScore (keywordCoverage ["Low".toList]) ≤
          coverageScore (keywordCoverage (["Low".toList].modify (· ++ '\n' :: "Power".toList) 0)))) :=
  ⟨by decide, keywordCoverage_modify_append _ 0 _ (by decide)⟩

/-- Text inserted between the two documents a keyword spans removes it. -/
theorem low_power_lost_by_insertion :
    isReported (keywordCoverage ["Low".toList, "Power".toList]) "Low Power".toList = true ∧
      isReported (keywordCoverage (["Low".toList, "Power".toList].modify (· ++ '\n' :: "x".toList) 0))
        "Low Power".toList = false ∧
      coverageScore (keywordCoverage (["Low".toList, "Power".toList].modify (· ++ '\n' :: "x".toList) 0)) <
        coverageScore (keywordCoverage ["Low".toList, "Power".toList]) := by
  refine ⟨by decide, by decide, ?_⟩
  have hD : presentCount (keywordCoverage ["Low".toList, "Power".toList]) = 2 := by decide
  have hD' : presentCount (keywordCoverage
      (["Low".toList, "Power".toList].modify (· ++ '\n' :: "x".toList) 0)) = 0 := by decide
  have ht : ∀ docs, totalCount (keywordCoverage docs) = 32 := fun _ => by
    rw [keywordCoverage, totalCount_table]; decide
  simp only [coverageScore, hD, hD', ht]
  norm_num

/-- `_normalize_for_match` as its comment describes it: characters outside `[a-z0-9]`, other than
hyphens, underscores and whitespace, are deleted rather than turned into spaces. -/
def normalizeDocumented (text : List Char) : List Char :=
  strip (subRuns (· == ' ')
    ((subRuns isSpace (subRuns isHyphenOrUnderscore (lower text))).filter isAlnumOrSpace))

/-- The code finds `RS(255,223)` in `RS 255 223`, where the documented normalisation,
which deletes the parentheses and the comma, does not. -/
theorem rs_keyword_found_across_punctuation :
    isReported (keywordCoverage ["RS 255 223".toList]) "RS(255,223)".toList = true ∧
      ¬ normalizeDocumented "RS(255,223)".toList <:+:
        normalizeDocumented (joinLines ["RS 255 223".toList]) := by
  decide

end SpecTrace.Drift
