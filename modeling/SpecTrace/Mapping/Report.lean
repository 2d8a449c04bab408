import Mathlib.Algebra.Order.Field.Rat
import Mathlib.Tactic.NormNum.Ineq
import SpecTrace.Mapping.Scanner
import SpecTrace.Mapping.Sections
import SpecTrace.Python.Json

/-! The report of `spec_test_map.py`, written to `spec/spec_test_mapping.json`: `spec_map`,
the numbered sections of `SPEC_SECTIONS` (a title starting with `1.` to `10.`) that are not
keys of `spec_map` (`unmapped`), their number (`total_numbered`), and the coverage
`len(spec_map) / total_numbered * 100`, computed here as an exact rational.

`mapped_section_count` is `len(spec_map)`: the number of distinct annotation payloads bound
to a test, whether or not they are titles of the specification. Proved: the numbered
sections split into the unmapped ones and the ones that are keys of `spec_map`; when every
key is the title of a numbered section and these titles are distinct, the mapped and the
unmapped sections add up to the total and the coverage lies in `[0, 100]`. An annotation
that cites anything else breaks both. -/

namespace SpecTrace.Mapping

open Python

/-! ### Counts and coverage -/

/-- The prefixes `("1.", "2.", …, "10.")` of a numbered section. -/
def numberedPrefixes : List (List Char) :=
  ["1.", "2.", "3.", "4.", "5.", "6.", "7.", "8.", "9.", "10."].map String.toList

/-- `any(s.startswith(prefix) for prefix in (...))`. -/
def isNumbered (s : List Char) : Bool := numberedPrefixes.any (·.isPrefixOf s)

/-- `unmapped`: the numbered sections that are not keys of `spec_map`, in document order. -/
def unmappedSections (sections : List (List Char)) (m : SpecMap) : List (List Char) :=
  sections.filter fun s => isNumbered s && decide (s ∉ m.map Prod.fst)

/-- `total_numbered`. -/
def totalNumbered (sections : List (List Char)) : Nat := (sections.filter isNumbered).length

/-- `section_coverage`. -/
def sectionCoverage (sections : List (List Char)) (m : SpecMap) : ℚ :=
  if totalNumbered sections ≠ 0 then (m.length : ℚ) / totalNumbered sections * 100 else 0

/-- `report`. -/
structure MappingReport where
  sections : SpecMap
  unmappedSections : List (List Char)
  sectionCoveragePercent : ℚ
  mappedSectionCount : Nat
  totalSectionCount : Nat

/-- The report for the specification file `specRaw` and the scanned test files. -/
def mappingReport (specRaw : List Char) (files : List TestFile) : MappingReport :=
  let sections := specSections specRaw
  let m := scanFiles files
  ⟨m, unmappedSections sections m, sectionCoverage sections m, m.length, totalNumbered sections⟩

/-- The report as the value `json.dumps` prints. -/
def MappingReport.toJson (r : MappingReport) : JsonValue :=
  .dict [(pyStr "sections", .dict (r.sections.map fun e => (ofChars e.1, .list (e.2.map .str)))),
    (pyStr "unmapped_sections", .list (r.unmappedSections.map fun s => .str (ofChars s))),
    (pyStr "section_coverage_percent", .float (.finite r.sectionCoveragePercent)),
    (pyStr "mapped_section_count", .int r.mappedSectionCount),
    (pyStr "total_section_count", .int r.totalSectionCount)]

/-- No test identifier of the report holds a lone surrogate, so its table encodes as UTF-8. -/
def MappingReport.Encodes (r : MappingReport) : Prop :=
  ∀ e ∈ r.sections, ∀ ident ∈ e.2, (toChars ident).isSome

instance : DecidablePred MappingReport.Encodes := fun r =>
  inferInstanceAs (Decidable (∀ e ∈ r.sections, ∀ ident ∈ e.2, (toChars ident).isSome))

/-- Test files whose paths are UTF-8 give a report whose identifiers encode. -/
theorem mappingReport_encodes {files : List TestFile}
    (hpaths : ∀ file ∈ files, (toChars file.path).isSome) (specRaw : List Char) :
    (mappingReport specRaw files).Encodes := by
  intro e he ident hi
  obtain ⟨file, hfile, f, rfl, -⟩ := (bound_scanFiles files).mp ⟨e.2, he, hi⟩
  rw [testIdent, toChars_isSome_append]
  exact ⟨hpaths file hfile, toChars_isSome_ofChars _⟩

theorem unmappedSections_length_add (sections : List (List Char)) (m : SpecMap) :
    (unmappedSections sections m).length +
        (sections.filter fun s => isNumbered s && decide (s ∈ m.map Prod.fst)).length =
      totalNumbered sections := by
  rw [totalNumbered, @List.length_eq_length_filter_add _ (sections.filter isNumbered)
    fun s => decide (s ∉ m.map Prod.fst), List.filter_filter, List.filter_filter]
  simp only [unmappedSections, Bool.and_comm, decide_not, Bool.not_not]

theorem sectionCoverage_nonneg (sections : List (List Char)) (m : SpecMap) :
    0 ≤ sectionCoverage sections m := by
  unfold sectionCoverage
  split_ifs
  · exact mul_nonneg (div_nonneg (Nat.cast_nonneg _) (Nat.cast_nonneg _)) (by norm_num)
  · exact le_rfl

theorem sectionCoverage_le_hundred {sections : List (List Char)} {m : SpecMap}
    (h : m.length ≤ totalNumbered sections) : sectionCoverage sections m ≤ 100 := by
  unfold sectionCoverage
  split_ifs
  · calc (m.length : ℚ) / totalNumbered sections * 100 ≤ 1 * 100 :=
          mul_le_mul_of_nonneg_right (div_le_one_of_le₀ (Nat.cast_le.mpr h) (Nat.cast_nonneg _))
            (by norm_num)
      _ = 100 := one_mul _
  · norm_num

theorem length_eq_numbered_keys {sections : List (List Char)} {m : SpecMap} (hm : WF m)
    (hkeys : ∀ sec ∈ m.map Prod.fst, sec ∈ sections ∧ isNumbered sec = true)
    (hdist : (sections.filter isNumbered).Nodup) :
    m.length = (sections.filter fun s => isNumbered s && decide (s ∈ m.map Prod.fst)).length := by
  have hnd : (sections.filter fun s => isNumbered s && decide (s ∈ m.map Prod.fst)).Nodup := by
    have := hdist.filter fun s => decide (s ∈ m.map Prod.fst)
    rw [List.filter_filter] at this
    simpa only [Bool.and_comm] using this
  rw [← List.length_map m Prod.fst]
  refine ((List.perm_ext_iff_of_nodup hm.keys_nodup hnd).mpr fun sec => ?_).length_eq
  simp only [List.mem_filter, Bool.and_eq_true, decide_eq_true_eq]
  exact ⟨fun h => ⟨(hkeys sec h).1, (hkeys sec h).2, h⟩, fun h => h.2.2⟩

/-! ### The coverage law -/

/-- When every annotation bound to a test cites a distinct numbered section, mapped and unmapped
sections add up to the total and the coverage lies in `[0, 100]`. -/
theorem mappingReport_counts (specRaw : List Char) (files : List TestFile)
    (hkeys : ∀ sec ∈ (mappingReport specRaw files).sections.map Prod.fst,
      sec ∈ specSections specRaw ∧ isNumbered sec = true)
    (hdist : ((specSections specRaw).filter isNumbered).Nodup) :
    (mappingReport specRaw files).mappedSectionCount =
        ((specSections specRaw).filter fun s =>
          isNumbered s && decide (s ∈ (mappingReport specRaw files).sections.map Prod.fst)).length ∧
      (mappingReport specRaw files).mappedSectionCount +
          (mappingReport specRaw files).unmappedSections.length =
        (mappingReport specRaw files).totalSectionCount ∧
      0 ≤ (mappingReport specRaw files).sectionCoveragePercent ∧
      (mappingReport specRaw files).sectionCoveragePercent ≤ 100 := by
  dsimp only [mappingReport] at hkeys ⊢
  have hlen := length_eq_numbered_keys (wf_scanFiles files) hkeys hdist
  have hsum := unmappedSections_length_add (specSections specRaw) (scanFiles files)
  exact ⟨hlen, by omega, sectionCoverage_nonneg _ _, sectionCoverage_le_hundred (by omega)⟩

theorem mappingReport_counts_one_of_two :
    ∃ (_ : ∀ sec ∈ (mappingReport "## 1. A\n## 2. B\n".toList
        [⟨pyStr "t.rs", "/// @spec 1. A\nfn f() \x7b\x7d\n".toList, by decide⟩]).sections.map Prod.fst,
        sec ∈ specSections "## 1. A\n## 2. B\n".toList ∧ isNumbered sec = true)
      (_ : ((specSections "## 1. A\n## 2. B\n".toList).filter isNumbered).Nodup),
      (mappingReport "## 1. A\n## 2. B\n".toList
          [⟨pyStr "t.rs", "/// @spec 1. A\nfn f() \x7b\x7d\n".toList, by decide⟩]).mappedSectionCount +
          (mappingReport "## 1. A\n## 2. B\n".toList
            [⟨pyStr "t.rs", "/// @spec 1. A\nfn f() \x7b\x7d\n".toList, by decide⟩]).unmappedSections.length =
        (mappingReport "## 1. A\n## 2. B\n".toList
          [⟨pyStr "t.rs", "/// @spec 1. A\nfn f() \x7b\x7d\n".toList, by decide⟩]).totalSectionCount :=
  have hk : ∀ sec ∈ (mappingReport "## 1. A\n## 2. B\n".toList
      [⟨pyStr "t.rs", "/// @spec 1. A\nfn f() \x7b\x7d\n".toList, by decide⟩]).sections.map Prod.fst,
      sec ∈ specSections "## 1. A\n## 2. B\n".toList ∧ isNumbered sec = true := by decide
  have hd : ((specSections "## 1. A\n## 2. B\n".toList).filter isNumbered).Nodup := by decide
  ⟨hk, hd, (mappingReport_counts _ _ hk hd).2.1⟩

/-- Two annotations citing no section of a one-section specification: a coverage of 200%. A title
numbered `11.` is not numbered for the script. -/
theorem stray_annotations_break_counts :
    (mappingReport "## 1. A\n".toList
        [⟨pyStr "t.rs", "/// @spec zzz\n/// @spec yyy\nfn f() \x7b\x7d\n".toList, by decide⟩]).mappedSectionCount = 2 ∧
      (mappingReport "## 1. A\n".toList
        [⟨pyStr "t.rs", "/// @spec zzz\n/// @spec yyy\nfn f() \x7b\x7d\n".toList, by decide⟩]).unmappedSections =
        ["1. A".toList] ∧
      (mappingReport "## 1. A\n".toList
        [⟨pyStr "t.rs", "/// @spec zzz\n/// @spec yyy\nfn f() \x7b\x7d\n".toList, by decide⟩]).totalSectionCount = 1 ∧
      (mappingReport "## 1. A\n".toList
        [⟨pyStr "t.rs", "/// @spec zzz\n/// @spec yyy\nfn f() \x7b\x7d\n".toList, by decide⟩]).sectionCoveragePercent =
        200 ∧
      isNumbered "11. Appendix".toList = false := by
  have hm : (scanFiles [⟨pyStr "t.rs", "/// @spec zzz\n/// @spec yyy\nfn f() \x7b\x7d\n".toList, by decide⟩]).length = 2 := by
    decide
  have ht : totalNumbered (specSections "## 1. A\n".toList) = 1 := by decide
  refine ⟨hm, by decide, ht, ?_, by decide⟩
  simp only [mappingReport, sectionCoverage, hm, ht]
  norm_num

end SpecTrace.Mapping
