import SpecTrace.Store.RoundTrip
import SpecTrace.Drift.Main
import SpecTrace.Drift.Snapshot
import SpecTrace.Mapping.Report

/-! The two JSON files as bytes. `spec_diff.py` writes `spec/spec_diff_report.json` with
`write_text(json.dumps(report, indent=2), encoding="utf-8")` and reads it back at its next run in
`load_previous_report`; `spec_test_map.py` writes `spec/spec_test_mapping.json` the same way, and
`main` reads it as `mapping_data`. Both reads are `json.loads(path.read_text(encoding="utf-8"))`
inside a `try` that catches every `Exception`, after a check that the file exists. What
`json.dumps` prints is ASCII, so its `write_text` never raises.

Proved: a file written so reads back as the value written, its floats as they print
(`storedJson_jsonFile_mapFloats`), when no dict repeats a key, every node reads back and the
reading `json.loads` has a level for each level of the value; whatever a JSON file reads as
repeats no key; and the reports meet these conditions: no key repeats, each string is text or a
file name, and each nests three levels deep. -/

namespace SpecTrace.Store

open Python Drift Mapping

variable {repr : ℚ → List Char} {g : ℚ → ℚ}

/-! ### Writing and reading a JSON file -/

/-- `path.write_text(json.dumps(v, indent=2), encoding="utf-8")` once `json.dumps` has printed `v`:
the bytes of the file. -/
def jsonFile (repr : ℚ → List Char) (v : JsonValue) : List UInt8 := utf8Encode (dumpsAt repr 0 v)

/-- What `main` makes of a JSON file, `absent` when it does not exist: `json.loads` of the decoded
text at a call that leaves `depth` levels, with decoding and parsing errors caught alike. -/
def storedJson (depth : Nat) : Option (List UInt8) → StoredJson
  | none => .absent
  | some bytes =>
    match (utf8Decode bytes).bind fun text => loads depth (readText text) with
    | some v => .json v
    | none => .invalid

theorem writeText_dumpsAt (v : JsonValue) :
    writeText (ofChars (dumpsAt repr 0 v)) = (jsonFile repr v, .ok ()) :=
  writeText_ofChars _

theorem readText_dumpsAt {v : JsonValue} (hp : v.Every (Rereads repr g)) :
    readText (dumpsAt repr 0 v) = dumpsAt repr 0 v :=
  readText_of_forall_ne fun c hc hcr => by
    have h := List.all_eq_true.mp (asciiOut_dumpsAt v 0 hp) c hc
    rw [hcr] at h
    exact absurd h (by decide)

/-- A JSON file reads back as the value written, its floats as they print. -/
theorem storedJson_jsonFile_mapFloats {v : JsonValue} {d : Nat} (hk : v.Every JsonValue.DistinctKeys)
    (hp : v.Every (Rereads repr g)) (hd : v.nesting ≤ d) :
    storedJson d (some (jsonFile repr v)) = .json (v.mapFloats g) := by
  rw [storedJson, jsonFile, utf8Decode_utf8Encode, Option.some_bind, readText_dumpsAt hp,
    loads_dumpsAt_mapFloats hk hp hd]

/-- What a JSON file reads as repeats no key in any dict. -/
theorem distinctKeys_of_storedJson {d : Nat} {b : Option (List UInt8)} {v : JsonValue}
    (h : storedJson d b = .json v) : v.Every JsonValue.DistinctKeys := by
  cases b with
  | none => cases h
  | some bytes =>
    rw [storedJson] at h
    split at h
    · next w hw =>
      cases h
      obtain ⟨_, -, hl⟩ := Option.bind_eq_some.mp hw
      obtain ⟨-, _, hs, -⟩ := scanOnce_of_loads hl
      exact scanOnce_distinctKeys hs
    · cases h

/-! ### The values of the reports -/

@[simp] theorem pairFree_pyStr (s : String) : PairFree (pyStr s) := pairFree_ofChars _

theorem every_list_map {α : Type} {p : JsonValue → Prop} (hl : ∀ xs, p (.list xs)) (f : α → JsonValue)
    {ss : List α} (hs : ∀ s ∈ ss, (f s).Every p) : (JsonValue.list (ss.map f)).Every p :=
  JsonValue.every_list_iff.mpr ⟨hl _, List.forall_mem_map.mpr hs⟩

theorem every_rereads_strs (ss : List (List Char)) :
    (JsonValue.list (ss.map fun s => .str (ofChars s))).Every (Rereads repr g) :=
  every_list_map (fun _ => trivial) _ fun s _ => pairFree_ofChars s

theorem asdict_distinctKeys (s : SectionInfo) : s.asdict.Every JsonValue.DistinctKeys :=
  ⟨show ([pyStr "title", pyStr "hash", pyStr "changed"]).Nodup by decide, trivial, trivial,
    trivial, trivial⟩

theorem asdict_rereads (s : SectionInfo) : s.asdict.Every (Rereads repr g) :=
  ⟨by simp [SectionInfo.asdict, Rereads], pairFree_ofChars _, pairFree_ofChars _, trivial, trivial⟩

theorem asdict_nesting (s : SectionInfo) : s.asdict.nesting ≤ 1 := by
  simp [SectionInfo.asdict, JsonValue.nesting, JsonValue.nestingEntries]

theorem featureKeywords_nodup :
    (featureKeywords.map Prod.fst).Nodup ∧ ∀ e ∈ featureKeywords, e.2.Nodup := by
  decide

theorem keywordCoverage_distinctKeys (docs : List (List Char)) :
    ((keywordCoverage docs).map Prod.fst).Nodup ∧
      ∀ d ∈ keywordCoverage docs, (d.2.map Prod.fst).Nodup := by
  refine ⟨by simpa [keywordCoverage, Function.comp_def] using featureKeywords_nodup.1, ?_⟩
  intro d hd
  obtain ⟨e, he, rfl⟩ := List.mem_map.mp hd
  simpa [Function.comp_def] using featureKeywords_nodup.2 e he

theorem uncoveredKeywords_sublist (cov : List (List Char × List (List Char × Bool))) :
    List.Sublist ((uncoveredKeywords cov).map Prod.fst) (cov.map Prod.fst) := by
  induction cov with
  | nil => exact .slnil
  | cons d cov ih =>
    simp only [uncoveredKeywords, List.filterMap_cons] at ih ⊢
    split_ifs
    · exact ih.cons₂ _
    · exact ih.cons _

theorem distinctKeys_dict_ofChars {α : Type} {l : List (List Char × α)} (f : List Char × α → JsonValue)
    (h : (l.map Prod.fst).Nodup) : (JsonValue.dict (l.map fun d => (ofChars d.1, f d))).DistinctKeys := by
  show ((l.map fun d => (ofChars d.1, f d)).map Prod.fst).Nodup
  simpa [Function.comp_def] using h.map ofChars_injective

theorem DriftReport.toJson_distinctKeys {r : DriftReport} {infos : List SectionInfo}
    {docs : List (List Char)} (hsec : r.sections = sectionsDict infos)
    (hcov : r.keywordCoverage = keywordCoverage docs)
    (hunc : r.uncoveredKeywords = uncoveredKeywords r.keywordCoverage)
    (hmap : ∀ mm ∈ r.sectionMapping, mm.unmappedSections.Every JsonValue.DistinctKeys) :
    r.toJson.Every JsonValue.DistinctKeys := by
  obtain ⟨hcat, hkw⟩ := keywordCoverage_distinctKeys docs
  refine JsonValue.every_dict_iff.mpr ⟨show ([pyStr "timestamp", pyStr "spec_file", pyStr "sections",
    pyStr "new_sections", pyStr "removed_sections", pyStr "keyword_coverage_percent",
    pyStr "keyword_coverage", pyStr "uncovered_keywords", pyStr "section_mapping",
    pyStr "coverage_threshold_met"]).Nodup by decide, ?_⟩
  simp only [List.mem_cons, List.mem_singleton, forall_eq_or_imp, List.not_mem_nil,
    false_implies, implies_true, and_true]
  refine ⟨trivial, trivial, ?_, every_list_map (fun _ => trivial) _ fun _ _ => trivial,
    every_list_map (fun _ => trivial) _ fun _ _ => trivial, trivial, ?_, ?_, ?_, trivial⟩
  · rw [hsec]
    exact JsonValue.every_dict_iff.mpr ⟨nodup_sectionsDict _, fun e he => by
      obtain ⟨s, -, hs⟩ := mem_sectionsDict he
      exact hs ▸ asdict_distinctKeys s⟩
  · rw [hcov]
    refine JsonValue.every_dict_iff.mpr ⟨distinctKeys_dict_ofChars _ hcat, ?_⟩
    simp only [List.mem_map]
    rintro _ ⟨d, hd, rfl⟩
    refine JsonValue.every_dict_iff.mpr ⟨distinctKeys_dict_ofChars _ (hkw d hd), ?_⟩
    simp only [List.mem_map]
    rintro _ ⟨k, -, rfl⟩
    trivial
  · rw [hunc, hcov]
    refine JsonValue.every_dict_iff.mpr
      ⟨distinctKeys_dict_ofChars _ (hcat.sublist (uncoveredKeywords_sublist _)), ?_⟩
    simp only [List.mem_map]
    rintro _ ⟨d, -, rfl⟩
    exact every_list_map (fun _ => trivial) _ fun _ _ => trivial
  · refine JsonValue.every_dict_iff.mpr ⟨show ([pyStr "section_coverage_percent",
      pyStr "mapped_section_count", pyStr "total_section_count", pyStr "unmapped_sections"]).Nodup
        by decide, ?_⟩
    simp only [List.mem_cons, List.mem_singleton, forall_eq_or_imp, List.not_mem_nil,
      false_implies, implies_true, and_true]
    cases hm : r.sectionMapping with
    | none => exact ⟨trivial, trivial, trivial, trivial⟩
    | some mm => exact ⟨trivial, trivial, trivial, hmap mm hm⟩

/-- Every node of the JSON report reads back when its keyword coverage and the section mapping
it passes on do, and no new or removed title holds a high surrogate before a low one. -/
theorem DriftReport.toJson_rereads {r : DriftReport} {infos : List SectionInfo}
    (hsec : r.sections = sectionsDict infos) (hcov : RereadsAs repr g r.keywordCoveragePercent)
    (hnew : ∀ t ∈ r.newSections, PairFree t) (hrem : ∀ t ∈ r.removedSections, PairFree t)
    (hmap : ∀ mm ∈ r.sectionMapping, Rereads repr g (.float mm.sectionCoveragePercent) ∧
      intReprOk mm.mappedSectionCount = true ∧ intReprOk mm.totalSectionCount = true ∧
      mm.unmappedSections.Every (Rereads repr g)) :
    r.toJson.Every (Rereads repr g) := by
  refine JsonValue.every_dict_iff.mpr ⟨by simp only [DriftReport.toJson, Rereads,
    List.forall_mem_cons, pairFree_pyStr, List.not_mem_nil, false_implies, implies_true, and_self], ?_⟩
  simp only [List.mem_cons, List.mem_singleton, forall_eq_or_imp, List.not_mem_nil,
    false_implies, implies_true, and_true]
  refine ⟨pairFree_ofChars _, pairFree_ofChars _, ?_, every_list_map (fun _ => trivial) _ hnew,
    every_list_map (fun _ => trivial) _ hrem, hcov, ?_, ?_, ?_, trivial⟩
  · rw [hsec]
    refine JsonValue.every_dict_iff.mpr ⟨fun e he => ?_, fun e he => ?_⟩
    · obtain ⟨s, -, hs⟩ := List.mem_map.mp (mem_keys_sectionsDict.mp (List.mem_map_of_mem Prod.fst he))
      rw [← hs]
      exact pairFree_ofChars _
    · obtain ⟨s, -, hs⟩ := mem_sectionsDict he
      exact hs ▸ asdict_rereads s
  · refine JsonValue.every_dict_iff.mpr ⟨fun e he => ?_, ?_⟩
    · obtain ⟨d, -, rfl⟩ := List.mem_map.mp he
      exact pairFree_ofChars _
    simp only [List.mem_map]
    rintro _ ⟨d, -, rfl⟩
    refine JsonValue.every_dict_iff.mpr ⟨fun e he => ?_, ?_⟩
    · obtain ⟨k, -, rfl⟩ := List.mem_map.mp he
      exact pairFree_ofChars _
    simp only [List.mem_map]
    rintro _ ⟨k, -, rfl⟩
    trivial
  · refine JsonValue.every_dict_iff.mpr ⟨fun e he => ?_, ?_⟩
    · obtain ⟨d, -, rfl⟩ := List.mem_map.mp he
      exact pairFree_ofChars _
    simp only [List.mem_map]
    rintro _ ⟨d, -, rfl⟩
    exact every_rereads_strs _
  · refine JsonValue.every_dict_iff.mpr ⟨by simp [Rereads], ?_⟩
    simp only [List.mem_cons, List.mem_singleton, forall_eq_or_imp, List.not_mem_nil,
      false_implies, implies_true, and_true]
    cases hm : r.sectionMapping with
    | none => exact ⟨trivial, trivial, trivial, trivial⟩
    | some mm => exact hmap mm hm

/-- The JSON report nests three levels deep: the report, `sections`, and `asdict(s)`, when the
mapping's `unmapped_sections` nests at most one. -/
theorem DriftReport.toJson_nesting {r : DriftReport} {infos : List SectionInfo}
    (hsec : r.sections = sectionsDict infos)
    (hmap : ∀ mm ∈ r.sectionMapping, mm.unmappedSections.nesting ≤ 1) : r.toJson.nesting ≤ 3 := by
  have hstrs : ∀ {α : Type} (f : α → List PyChar) (l : List α),
      (JsonValue.list (l.map fun a => .str (f a))).nesting ≤ 1 := fun f l =>
    JsonValue.nesting_list_le_iff.mpr fun x hx => by
      obtain ⟨a, -, rfl⟩ := List.mem_map.mp hx
      exact Nat.le_refl 0
  refine JsonValue.nesting_dict_le_iff.mpr fun e he => ?_
  simp only [DriftReport.toJson, List.mem_cons, List.mem_singleton, List.not_mem_nil, or_false] at he
  rcases he with rfl | rfl | rfl | rfl | rfl | rfl | rfl | rfl | rfl | rfl
  · exact Nat.zero_le _
  · exact Nat.zero_le _
  · rw [hsec]
    exact JsonValue.nesting_dict_le_iff.mpr fun e he => by
      obtain ⟨s, -, hs⟩ := mem_sectionsDict he
      exact hs ▸ asdict_nesting s
  · exact (hstrs id _).trans (by decide)
  · exact (hstrs id _).trans (by decide)
  · exact Nat.zero_le _
  · refine JsonValue.nesting_dict_le_iff.mpr fun e he => ?_
    obtain ⟨d, -, rfl⟩ := List.mem_map.mp he
    refine JsonValue.nesting_dict_le_iff.mpr fun e he => ?_
    obtain ⟨k, -, rfl⟩ := List.mem_map.mp he
    exact Nat.zero_le _
  · refine JsonValue.nesting_dict_le_iff.mpr fun e he => ?_
    obtain ⟨d, -, rfl⟩ := List.mem_map.mp he
    exact hstrs ofChars _
  · refine JsonValue.nesting_dict_le_iff.mpr fun e he => ?_
    simp only [List.mem_cons, List.mem_singleton, List.not_mem_nil, or_false] at he
    cases hm : r.sectionMapping with
    | none => rcases he with rfl | rfl | rfl | rfl <;> simp [hm, JsonValue.nesting]
    | some mm =>
      rcases he with rfl | rfl | rfl | rfl <;> simp only [hm, Option.map_some', Option.getD_some]
      · exact Nat.zero_le _
      · exact Nat.zero_le _
      · exact Nat.zero_le _
      · exact (hmap mm hm).trans (by decide)
  · exact Nat.zero_le _

theorem every_unmappedSections {p : JsonValue → Prop} (hnil : p (.list [])) {rt : Runtime}
    {data : JsonValue} {mm : SectionMapping} (h : sectionMapping rt data = .ok (some mm))
    (hd : data.Every p) : mm.unmappedSections.Every p := by
  rcases sectionMapping_eq_ok h with ⟨-, h⟩ | ⟨es, mm', rfl, -, hmm, hu⟩
  · cases h
  · cases hmm
    rw [hu]
    cases hl : es.lookup (pyStr "unmapped_sections") with
    | none => exact ⟨hnil, trivial⟩
    | some v =>
      obtain ⟨l₁, l₂, rfl, -⟩ := List.lookup_eq_some_iff.mp hl
      exact (JsonValue.every_dict_iff.mp hd).2 _ (List.mem_append_right _ (.head _))

theorem jsonReport_fields {rt : Runtime} {inputs : DriftInputs} {threshold : ℚ} {r : DriftReport}
    (hr : (main rt inputs threshold).jsonReport = some r) :
    (∃ infos, r.sections = sectionsDict infos) ∧
      r.keywordCoverage = keywordCoverage [inputs.deltaEn.getD [], inputs.deltaJa.getD []] ∧
      r.uncoveredKeywords = uncoveredKeywords r.keywordCoverage ∧
      r.keywordCoveragePercent = coverageScore r.keywordCoverage ∧
      sectionMapping rt (mappingData inputs.mapping) = .ok r.sectionMapping := by
  obtain ⟨drift, hdr⟩ := driftReport_of_jsonReport hr
  obtain ⟨-, m, -, -, hm, rfl⟩ := driftReport_eq_ok.mp hdr
  exact ⟨⟨_, rfl⟩, rfl, by dsimp only, by dsimp only, hm⟩

theorem jsonReport_distinctKeys {rt : Runtime} {inputs : DriftInputs} {threshold : ℚ}
    {r : DriftReport} (hr : (main rt inputs threshold).jsonReport = some r)
    (hmap : ∀ v, inputs.mapping = .json v → v.Every JsonValue.DistinctKeys) :
    r.toJson.Every JsonValue.DistinctKeys := by
  obtain ⟨⟨infos, hsec⟩, hcov, hunc, -, hm⟩ := jsonReport_fields hr
  refine DriftReport.toJson_distinctKeys hsec hcov hunc fun mm hmm => ?_
  rw [Option.mem_def] at hmm
  rw [hmm] at hm
  refine every_unmappedSections trivial hm ?_
  cases h : inputs.mapping with
  | json v => exact hmap v h
  | _ => trivial

/-! ### The mapping report -/

theorem MappingReport.toJson_distinctKeys {rep : MappingReport}
    (hk : (rep.sections.map Prod.fst).Nodup) : rep.toJson.Every JsonValue.DistinctKeys := by
  refine JsonValue.every_dict_iff.mpr ⟨show ([pyStr "sections", pyStr "unmapped_sections",
    pyStr "section_coverage_percent", pyStr "mapped_section_count", pyStr "total_section_count"]).Nodup
      by decide, ?_⟩
  simp only [List.mem_cons, List.mem_singleton, forall_eq_or_imp, List.not_mem_nil,
    false_implies, implies_true, and_true]
  refine ⟨JsonValue.every_dict_iff.mpr ⟨distinctKeys_dict_ofChars _ hk, ?_⟩,
    every_list_map (fun _ => trivial) _ fun _ _ => trivial, trivial, trivial, trivial⟩
  simp only [List.mem_map]
  rintro _ ⟨e, -, rfl⟩
  exact every_list_map (fun _ => trivial) _ fun _ _ => trivial

theorem MappingReport.toJson_rereads {rep : MappingReport}
    (hcov : RereadsAs repr g rep.sectionCoveragePercent)
    (hcounts : intReprOk rep.mappedSectionCount = true ∧ intReprOk rep.totalSectionCount = true)
    (hids : ∀ e ∈ rep.sections, ∀ ident ∈ e.2, PairFree ident) :
    rep.toJson.Every (Rereads repr g) := by
  refine JsonValue.every_dict_iff.mpr ⟨by simp [MappingReport.toJson, Rereads], ?_⟩
  simp only [List.mem_cons, List.mem_singleton, forall_eq_or_imp, List.not_mem_nil,
    false_implies, implies_true, and_true]
  refine ⟨JsonValue.every_dict_iff.mpr ⟨fun e he => ?_, ?_⟩,
    every_rereads_strs _, hcov, hcounts.1, hcounts.2⟩
  · obtain ⟨d, -, rfl⟩ := List.mem_map.mp he
    exact pairFree_ofChars _
  simp only [List.mem_map]
  rintro _ ⟨e, he, rfl⟩
  exact every_list_map (fun _ => trivial) _ (hids e he)

theorem MappingReport.toJson_nesting (rep : MappingReport) : rep.toJson.nesting ≤ 3 := by
  refine JsonValue.nesting_dict_le_iff.mpr fun e he => ?_
  simp only [MappingReport.toJson, List.mem_cons, List.mem_singleton, List.not_mem_nil,
    or_false] at he
  rcases he with rfl | rfl | rfl | rfl | rfl
  · refine JsonValue.nesting_dict_le_iff.mpr fun e he => ?_
    obtain ⟨d, -, rfl⟩ := List.mem_map.mp he
    refine JsonValue.nesting_list_le_iff.mpr fun x hx => ?_
    obtain ⟨i, -, rfl⟩ := List.mem_map.mp hx
    exact Nat.zero_le _
  · refine le_trans (JsonValue.nesting_list_le_iff.mpr fun x hx => ?_) (by decide : 0 + 1 ≤ 2)
    obtain ⟨s, -, rfl⟩ := List.mem_map.mp hx
    exact Nat.le_refl 0
  all_goals exact Nat.zero_le _

/-- With three levels left, `json.dumps` prints the mapping report exactly when its counts print. -/
theorem dumpsError_mappingReport {rep : MappingReport} {d : Nat} (hd : 3 ≤ d) :
    dumpsError d rep.toJson = none ↔
      intReprOk rep.mappedSectionCount = true ∧ intReprOk rep.totalSectionCount = true := by
  obtain ⟨n, rfl⟩ : ∃ n, d = n + 3 := ⟨d - 3, by omega⟩
  simp only [MappingReport.toJson, dumpsError_succ_dict, entriesError_eq_none_iff,
    List.forall_mem_cons, List.forall_mem_map, dumpsError_succ_list, itemsError_eq_none_iff,
    dumpsError_str, dumpsError_succ_float, implies_true, List.not_mem_nil, false_implies, and_true,
    true_and, dumpsError_int, ite_eq_left_iff, reduceCtorEq, imp_false, not_not]

/-- No identifier of a mapping report holds a high surrogate: test files are named by
`surrogateescape`, which yields low ones only. -/
theorem mappingReport_pairFree (specRaw : List Char) (files : List TestFile) :
    ∀ e ∈ (mappingReport specRaw files).sections, ∀ ident ∈ e.2, PairFree ident := by
  intro e he ident hi
  obtain ⟨file, -, f, rfl, -⟩ := (bound_scanFiles files).mp ⟨e.2, he, hi⟩
  refine pairFree_of_not_isHigh fun c hc => ?_
  rcases List.mem_append.mp hc with hc | hc
  · have hesc := file.path_escaped c hc
    cases c with
    | char _ => rfl
    | surrogate u =>
      simp only [PyChar.IsEscapedByte] at hesc
      simp only [PyChar.isHigh, decide_eq_false_iff_not]
      omega
  · obtain ⟨c, -, rfl⟩ := List.mem_map.mp hc
    rfl

end SpecTrace.Store
