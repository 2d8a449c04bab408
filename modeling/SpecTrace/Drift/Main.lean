import SpecTrace.Drift.Detect
import SpecTrace.Drift.Keywords
import SpecTrace.Store.Dumps

/-! `main` of `spec_diff.py`: read the specification, the previous report and the mapping
artifact `spec/spec_test_mapping.json`, detect the drift, compute the keyword coverage of the
companion documents, write `spec/spec_diff_report.json`, then render and write
`docs/spec_diff_report.md`.

The files are inputs: decoded text for the specification and the companion documents, and for
the two JSON files either nothing, something `json.loads` refuses, or a JSON value, whose
strings may hold lone surrogates. The digest, Python's reading of numbers in strings, the
printing of values, the clock and the nesting the recursion limit leaves to `json.dumps` are a
`Runtime`. `json.dumps` builds the whole text before the JSON report is written, so when it
raises nothing is written; `write_text` empties the Markdown report before it encodes, so a
lone surrogate leaves that file empty and raises `UnicodeEncodeError`.

Proved: with a non-empty specification, `main` returns `0` exactly when the previous report and
the mapping artifact are usable (`PreviousOk`, `MappingOk`), the report prints
(`MappingPrints`) and the Markdown report encodes (`MarkdownEncodes`), and then it has written
both reports; when only the last fails it has written the JSON report and left the Markdown
one empty. A previous report that does not load is read as an absent one, and the reports carry
the mapping block exactly when the artifact loads as a true value. -/

namespace SpecTrace.Drift

open Python

/-! ### Inputs and the runtime -/

/-- The content of a JSON file that `main` reads: absent, present but refused by `json.loads`
or by the UTF-8 decoder (both inside the `try`), or a JSON value. -/
inductive StoredJson where
  | absent
  | invalid
  | json (v : JsonValue)

/-- What the model leaves open: `sha256`, `float()`, `int()`, `:.1f`, `str`, the clock, and the
levels the recursion limit leaves to `json.dumps` of the report and to each `json.loads`. -/
structure Runtime where
  hash : List Char → List Char
  floatOfStr : List PyChar → Option PyFloat
  intOfStr : List PyChar → Option Int
  fixed1 : PyFloat → List Char
  str : JsonValue → List Char
  now : List Char
  dumpsDepth : Nat
  previousDepth : Nat
  mappingDepth : Nat

/-- `f"{v}"`: a string as it is, any other value as `str` prints it. -/
def Runtime.strOf (rt : Runtime) : JsonValue → List PyChar
  | .str s => s
  | v => ofChars (rt.str v)

/-- The files `main` reads. A text file is its decoded content, `none` when absent
(`read_text` then returns `""`). -/
structure DriftInputs where
  spec : Option (List Char)
  deltaEn : Option (List Char)
  deltaJa : Option (List Char)
  previousReport : StoredJson
  mapping : StoredJson

/-- `load_previous_report()`. -/
def loadPreviousReport : StoredJson → JsonValue
  | .json v => v
  | _ => .dict []

/-- `mapping_data`, `None` unless the file loads. -/
def mappingData : StoredJson → JsonValue
  | .json v => v
  | _ => .null

/-! ### The JSON report -/

/-- `report["section_mapping"]` when `mapping_data` is true. -/
structure SectionMapping where
  sectionCoveragePercent : PyFloat
  mappedSectionCount : Int
  totalSectionCount : Int
  unmappedSections : JsonValue

/-- `report["section_mapping"]`, with all four fields `None` (here `none`) when
`mapping_data` is false. -/
def sectionMapping (rt : Runtime) (data : JsonValue) : Except PyError (Option SectionMapping) :=
  if data.truthy then do
    let pct ← pyFloat rt.floatOfStr (← data.get (pyStr "section_coverage_percent") (.float (.finite 0)))
    let mapped ← pyInt rt.intOfStr (← data.get (pyStr "mapped_section_count") (.int 0))
    let total ← pyInt rt.intOfStr (← data.get (pyStr "total_section_count") (.int 0))
    let unmapped ← data.get (pyStr "unmapped_sections") (.list [])
    pure (some ⟨pct, mapped, total, unmapped⟩)
  else pure none

/-- `report["uncovered_keywords"]`: the keywords not present, for each category missing one. -/
def uncoveredKeywords (cov : List (List Char × List (List Char × Bool))) :
    List (List Char × List (List Char)) :=
  cov.filterMap fun e =>
    if e.2.any (!·.2) then some (e.1, (e.2.filter (!·.2)).map Prod.fst) else none

/-- `report`, written to `spec/spec_diff_report.json`. -/
structure DriftReport where
  timestamp : List Char
  specFile : List Char
  sections : List (List PyChar × JsonValue)
  newSections : List (List PyChar)
  removedSections : List (List PyChar)
  keywordCoveragePercent : ℚ
  keywordCoverage : List (List Char × List (List Char × Bool))
  uncoveredKeywords : List (List Char × List (List Char))
  sectionMapping : Option SectionMapping
  coverageThresholdMet : Bool

/-- The report as the value `json.dumps` prints. -/
def DriftReport.toJson (r : DriftReport) : JsonValue :=
  .dict [(pyStr "timestamp", .str (ofChars r.timestamp)), (pyStr "spec_file", .str (ofChars r.specFile)),
    (pyStr "sections", .dict r.sections),
    (pyStr "new_sections", .list (r.newSections.map .str)),
    (pyStr "removed_sections", .list (r.removedSections.map .str)),
    (pyStr "keyword_coverage_percent", .float (.finite r.keywordCoveragePercent)),
    (pyStr "keyword_coverage", .dict (r.keywordCoverage.map fun d =>
      (ofChars d.1, .dict (d.2.map fun k => (ofChars k.1, .bool k.2))))),
    (pyStr "uncovered_keywords", .dict (r.uncoveredKeywords.map fun d =>
      (ofChars d.1, .list (d.2.map fun k => .str (ofChars k))))),
    (pyStr "section_mapping", .dict
      [(pyStr "section_coverage_percent",
          (r.sectionMapping.map fun m => .float m.sectionCoveragePercent).getD .null),
        (pyStr "mapped_section_count",
          (r.sectionMapping.map fun m => .int m.mappedSectionCount).getD .null),
        (pyStr "total_section_count",
          (r.sectionMapping.map fun m => .int m.totalSectionCount).getD .null),
        (pyStr "unmapped_sections", (r.sectionMapping.map (·.unmappedSections)).getD .null)]),
    (pyStr "coverage_threshold_met", .bool r.coverageThresholdMet)]

/-- `str(SPEC_FILE.relative_to(ROOT))`. -/
def specFile : List Char := "spec/Nyx_Protocol_v1.0_Spec_EN.md".toList

/-- `main` up to the JSON report: the drift, and the report. -/
def driftReport (rt : Runtime) (inputs : DriftInputs) (threshold : ℚ) :
    Except PyError (DriftResult × DriftReport) := do
  let prev ← (loadPreviousReport inputs.previousReport).get (pyStr "sections") (.dict [])
  let drift ← detectDrift rt.hash (inputs.spec.getD []) prev
  let cov := keywordCoverage [inputs.deltaEn.getD [], inputs.deltaJa.getD []]
  let covScore := coverageScore cov
  let mapping ← sectionMapping rt (mappingData inputs.mapping)
  pure (drift, ⟨rt.now, specFile, sectionsDict drift.sections, drift.newSections,
    drift.removedSections, covScore, cov, uncoveredKeywords cov, mapping,
    decide (threshold ≤ covScore)⟩)

/-! ### The Markdown report -/

/-- The lines of `generate_markdown` up to the end of the section table. -/
def hashLines (rt : Runtime) (sections : List SectionInfo) : List (List Char) :=
  ["# Spec / Docs Drift Report".toList, [], "Generated: ".toList ++ rt.now, [],
    "## Section Hashes".toList, [], "| Section | SHA256 | Changed |".toList,
    "|---------|--------|---------|".toList] ++
  sections.map (fun s => "| ".toList ++ s.title ++ " | \x60".toList ++ s.hash.take 12 ++
    "\x60 | ".toList ++ (if s.changed then "✅".toList else []) ++ " |".toList) ++
  [[]]

/-- The `Structure Changes` block, which names the new and the removed titles. -/
def structureLines (newSections removedSections : List (List PyChar)) : List (List PyChar) :=
  if newSections ≠ [] ∨ removedSections ≠ [] then
    [pyStr "## Structure Changes"] ++
      (if newSections ≠ [] then
        [pyStr "**New Sections:** " ++ (pyStr ", ").intercalate newSections] else []) ++
      (if removedSections ≠ [] then
        [pyStr "**Removed Sections:** " ++ (pyStr ", ").intercalate removedSections] else []) ++
      [[]]
  else []

/-- The keyword table, the uncovered keywords and the notes. -/
def coverageLines (rt : Runtime) (cov : List (List Char × List (List Char × Bool))) (covScore : ℚ) :
    List (List Char) :=
  ["## Feature Keyword Coverage".toList, [],
    "Overall Keyword Coverage: **".toList ++ rt.fixed1 (.finite covScore) ++ "%**".toList, [],
    "| Category | Keyword | Present |".toList, "|----------|---------|---------|".toList] ++
  cov.flatMap (fun e => e.2.map fun k => "| ".toList ++ e.1 ++ " | ".toList ++ k.1 ++ " | ".toList ++
    (if k.2 then "✅".toList else "❌".toList) ++ " |".toList) ++
  [[]] ++
  (if (uncoveredKeywords cov) ≠ [] then
    ["### Uncovered Keywords".toList, [], "以下のキーワードは diff ドキュメントで未検出です:".toList] ++
      (uncoveredKeywords cov).map (fun e => "- ".toList ++ e.1 ++ ": ".toList ++
        ", ".toList.intercalate e.2) ++
      [[]]
  else []) ++
  ["## Notes".toList,
    "- \x27Changed\x27 indicates hash difference vs previous run for that section body.".toList,
    "- Keyword coverage is heuristic (presence-based), not semantic validation.".toList]

/-- The lines of `generate_markdown` before the mapping block. -/
def reportLines (rt : Runtime) (sections : List SectionInfo)
    (cov : List (List Char × List (List Char × Bool))) (covScore : ℚ)
    (newSections removedSections : List (List PyChar)) : List (List PyChar) :=
  (hashLines rt sections).map ofChars ++ structureLines newSections removedSections ++
    (coverageLines rt cov covScore).map ofChars

/-- The mapping block of `generate_markdown`. `unmapped_sections` is iterated when true. -/
def mappingBlock (rt : Runtime) : Option SectionMapping → Except PyError (List (List PyChar))
  | none => .ok []
  | some m =>
    let head := [[], "## Section Mapping Coverage (@spec)".toList, [],
      "Section Coverage: **".toList ++ rt.fixed1 m.sectionCoveragePercent ++ "%**  ".toList,
      "Mapped Sections: ".toList ++ (toString m.mappedSectionCount).toList ++ "/".toList ++
        (toString m.totalSectionCount).toList]
    if m.unmappedSections.truthy then
      m.unmappedSections.iter.map fun items =>
        (head ++ [[], "Unmapped Sections:".toList]).map ofChars ++
          items.map (fun s => pyStr "- " ++ rt.strOf s) ++ [[]]
    else .ok ((head ++ [[]]).map ofChars)

/-- `generate_markdown(...)`. -/
def generateMarkdown (rt : Runtime) (sections : List SectionInfo)
    (cov : List (List Char × List (List Char × Bool))) (covScore : ℚ)
    (newSections removedSections : List (List PyChar)) (summary : Option SectionMapping) :
    Except PyError (List PyChar) :=
  (mappingBlock rt summary).map fun block =>
    joinPyLines (reportLines rt sections cov covScore newSections removedSections ++ block) ++
      [.char '\n']

/-! ### `main` -/

/-- What a run of `main` leaves: the JSON report it has written, the bytes of the Markdown
report when it has opened it, and its return value or the exception it raises. -/
structure MainRun where
  jsonReport : Option DriftReport
  markdownReport : Option (List UInt8)
  result : Except PyError Nat

/-- `main(threshold)`. `json.dumps` raises before the JSON report is opened; the Markdown report
is rendered, then written. -/
def main (rt : Runtime) (inputs : DriftInputs) (threshold : ℚ) : MainRun :=
  if inputs.spec.getD [] = [] then ⟨none, none, .ok 1⟩
  else
    match driftReport rt inputs threshold with
    | .error e => ⟨none, none, .error e⟩
    | .ok (drift, report) =>
      match Store.dumpsError rt.dumpsDepth report.toJson with
      | some e => ⟨none, none, .error e⟩
      | none =>
        match generateMarkdown rt drift.sections report.keywordCoverage report.keywordCoveragePercent
            drift.newSections drift.removedSections report.sectionMapping with
        | .error e => ⟨some report, none, .error e⟩
        | .ok md => ⟨some report, some (writeText md).1, (writeText md).2.map fun _ => 0⟩

/-! ### When each step succeeds -/

theorem exists_bind_eq_ok {ε α β : Type} {x : Except ε α} {f : α → Except ε β} :
    (∃ b, x.bind f = .ok b) ↔ ∃ a, x = .ok a ∧ ∃ b, f a = .ok b :=
  ⟨fun ⟨_, h⟩ => let ⟨a, ha, hb⟩ := bind_eq_ok_iff.mp h; ⟨a, ha, _, hb⟩,
    fun ⟨_, ha, _, hb⟩ => ⟨_, bind_eq_ok_iff.mpr ⟨_, ha, hb⟩⟩⟩

theorem exists_bind_eq_ok' {ε α β : Type} {x : Except ε α} {f : α → Except ε β} :
    (∃ b, (x >>= f) = .ok b) ↔ ∃ a, x = .ok a ∧ ∃ b, f a = .ok b :=
  exists_bind_eq_ok

theorem bind_eq_ok_iff' {ε α β : Type} {x : Except ε α} {f : α → Except ε β} {b : β} :
    (x >>= f) = .ok b ↔ ∃ a, x = .ok a ∧ f a = .ok b :=
  bind_eq_ok_iff

theorem exists_map_eq_ok {ε α β : Type} {x : Except ε α} {f : α → β} :
    (∃ b, x.map f = .ok b) ↔ ∃ a, x = .ok a :=
  ⟨fun ⟨_, h⟩ => let ⟨a, ha, _⟩ := map_eq_ok_iff.mp h; ⟨a, ha⟩,
    fun ⟨_, ha⟩ => ⟨_, map_eq_ok_iff.mpr ⟨_, ha, rfl⟩⟩⟩

theorem exists_mapM_eq_ok {α β ε : Type} {f : α → Except ε β} {l : List α} :
    (∃ bs, l.mapM f = .ok bs) ↔ ∀ a ∈ l, ∃ b, f a = .ok b :=
  ⟨fun ⟨_, h⟩ _ ha => by
    obtain ⟨b, hb⟩ := exists_of_forall₂_of_mem (forall₂_of_mapM_eq_ok h).flip ha
    exact ⟨b, hb.2⟩,
   fun h => (exists_forall₂_of_ok h).imp fun _ hbs => mapM_eq_ok_of_forall₂ hbs⟩

/-- Previous sections the detector runs against: false, or an object whose value under each
title of the specification, if any, is an object. -/
def PrevUsable (titles : List (List Char)) (prev : JsonValue) : Prop :=
  prev.truthy = false ∨
    ∃ es, prev = .dict es ∧ ∀ t ∈ titles, ∀ v, es.lookup (ofChars t) = some v → ∃ o, v = .dict o

theorem storedHash_ok_iff {prev : JsonValue} {t : List Char} :
    (∃ v, storedHash prev t = .ok v) ↔
      prev.truthy = false ∨
        ∃ es, prev = .dict es ∧ ∀ v, es.lookup (ofChars t) = some v → ∃ o, v = .dict o := by
  unfold storedHash
  cases prev.truthy
  · exact iff_of_true ⟨_, rfl⟩ (.inl rfl)
  · rw [if_pos rfl, exists_bind_eq_ok, or_iff_right (by decide)]
    constructor
    · rintro ⟨_, h, hd⟩
      obtain ⟨es, rfl, rfl⟩ := JsonValue.get_eq_ok_iff.mp h
      exact ⟨es, rfl, fun v hv => by rw [hv] at hd; exact JsonValue.exists_get_eq_ok.mp hd⟩
    · rintro ⟨es, rfl, hes⟩
      refine ⟨_, rfl, JsonValue.exists_get_eq_ok.mpr ?_⟩
      cases hl : es.lookup (ofChars t) with
      | none => exact ⟨[], rfl⟩
      | some v => exact hes v hl

theorem prevTitles_ok_iff {prev : JsonValue} :
    (∃ ks, (if prev.truthy then prev.keys else (.ok [] : Except PyError _)) = .ok ks) ↔
      prev.truthy = false ∨ ∃ es, prev = .dict es := by
  cases prev.truthy
  · exact iff_of_true ⟨_, rfl⟩ (.inl rfl)
  · rw [if_pos rfl, JsonValue.exists_keys_eq_ok, or_iff_right (by decide)]

theorem detectDrift_ok_iff (hash : List Char → List Char) {text : List Char} {prev : JsonValue} :
    (∃ d, detectDrift hash text prev = .ok d) ↔
      PrevUsable ((extractSections text).map Prod.fst) prev := by
  rw [detectDrift, exists_bind_eq_ok]
  simp only [exists_map_eq_ok, exists_and_right, buildSectionInfos, exists_mapM_eq_ok, sectionInfo,
    storedHash_ok_iff, prevTitles_ok_iff, PrevUsable, List.forall_mem_map]
  cases prev.truthy
  · exact iff_of_true ⟨fun _ _ => .inl rfl, .inl rfl⟩ (.inl rfl)
  · simp only [Bool.true_eq_false, false_or]
    constructor
    · rintro ⟨hs, es, rfl⟩
      refine ⟨es, rfl, fun t ht v hv => ?_⟩
      obtain ⟨_, he, h⟩ := hs t ht
      cases he
      exact h v hv
    · rintro ⟨es, rfl, h⟩
      exact ⟨fun t ht => ⟨es, rfl, h t ht⟩, es, rfl⟩

theorem detectDrift_titles_encode {hash : List Char → List Char} {text : List Char}
    {prev : JsonValue} {d : DriftResult} (h : detectDrift hash text prev = .ok d) :
    (∀ t ∈ d.newSections, (toChars t).isSome) ∧
      ((∀ t ∈ d.removedSections, (toChars t).isSome) ↔
        ∀ es, prev = .dict es → ∀ k ∈ es.map Prod.fst, (toChars k).isSome) := by
  obtain ⟨infos, -, hm⟩ := bind_eq_ok_iff.mp h
  have hcur : ∀ t ∈ infos.map (ofChars ·.title), (toChars t).isSome := fun t ht => by
    obtain ⟨s, -, rfl⟩ := List.mem_map.mp ht
    exact toChars_isSome_ofChars _
  cases ht : prev.truthy
  · rw [ht, if_neg Bool.false_ne_true] at hm
    obtain ⟨_, hk, rfl⟩ := map_eq_ok_iff.mp hm
    cases hk
    refine ⟨fun t ht' => hcur t (mem_sortedDiff.mp ht').1, iff_of_true
      (fun t ht' => absurd (mem_sortedDiff.mp ht').1 (List.not_mem_nil t)) ?_⟩
    rintro (_ | ⟨e, es⟩) rfl k hk
    · cases hk
    · cases ht
  · rw [ht, if_pos rfl] at hm
    obtain ⟨ks, hk, rfl⟩ := map_eq_ok_iff.mp hm
    obtain ⟨es, rfl⟩ := JsonValue.exists_keys_eq_ok.mp ⟨ks, hk⟩
    cases hk
    refine ⟨fun t ht' => hcur t (mem_sortedDiff.mp ht').1,
      fun hr es' he k hk => ?_, fun hall t ht' => hall es rfl t (mem_sortedDiff.mp ht').1⟩
    cases he
    by_cases hc : k ∈ infos.map (ofChars ·.title)
    · exact hcur k hc
    · exact hr k (mem_sortedDiff.mpr ⟨hk, hc⟩)

/-- The counts of a mapping artifact that is an object convert with `float()` and `int()`. -/
def CountsConvert (rt : Runtime) (es : List (List PyChar × JsonValue)) : Prop :=
  (∃ x, pyFloat rt.floatOfStr
      ((es.lookup (pyStr "section_coverage_percent")).getD (.float (.finite 0))) = .ok x) ∧
    (∃ n, pyInt rt.intOfStr ((es.lookup (pyStr "mapped_section_count")).getD (.int 0)) = .ok n) ∧
    (∃ n, pyInt rt.intOfStr ((es.lookup (pyStr "total_section_count")).getD (.int 0)) = .ok n)

theorem sectionMapping_ok_iff {rt : Runtime} {data : JsonValue} :
    (∃ m, sectionMapping rt data = .ok m) ↔
      data.truthy = false ∨ ∃ es, data = .dict es ∧ CountsConvert rt es := by
  unfold sectionMapping
  cases data.truthy
  · exact iff_of_true ⟨_, rfl⟩ (.inl rfl)
  · rw [if_pos rfl, or_iff_right (by decide)]
    cases data with
    | dict es =>
      simp only [exists_bind_eq_ok', JsonValue.get, Except.ok.injEq, exists_eq_left',
        JsonValue.dict.injEq, CountsConvert, pure, Except.pure, exists_eq', and_true,
        exists_and_right]
    | _ => exact iff_of_false (fun ⟨_, h⟩ => nomatch h) fun ⟨_, h, _⟩ => nomatch h

theorem sectionMapping_eq_ok {rt : Runtime} {data : JsonValue} {m : Option SectionMapping}
    (h : sectionMapping rt data = .ok m) :
    (data.truthy = false ∧ m = none) ∨ ∃ es mm, data = .dict es ∧ data.truthy = true ∧
      m = some mm ∧ mm.unmappedSections = (es.lookup (pyStr "unmapped_sections")).getD (.list []) := by
  unfold sectionMapping at h
  by_cases hT : data.truthy = true
  · rw [if_pos hT] at h
    right
    cases data with
    | dict es =>
      simp only [JsonValue.get, bind, Except.bind] at h
      split at h
      · cases h
      · split at h
        · cases h
        · split at h
          · cases h
          · cases h
            exact ⟨es, _, rfl, hT, rfl, rfl⟩
    | _ => simp [JsonValue.get, bind, Except.bind] at h
  · rw [if_neg hT] at h
    exact .inl ⟨by simpa using hT, (Except.ok.inj h).symm⟩

theorem mappingBlock_ok_iff {rt : Runtime} {mm : SectionMapping} :
    (∃ b, mappingBlock rt (some mm) = .ok b) ↔
      (mm.unmappedSections.truthy = true → ∃ xs, mm.unmappedSections.iter = .ok xs) := by
  dsimp only [mappingBlock]
  cases mm.unmappedSections.truthy
  · exact iff_of_true ⟨_, rfl⟩ nofun
  · rw [if_pos rfl, exists_map_eq_ok]
    exact ⟨fun h _ => h, fun h => h rfl⟩

/-! ### Text that encodes -/

theorem mappingBlock_encodes {rt : Runtime} {m : Option SectionMapping} {b : List (List PyChar)}
    (h : mappingBlock rt m = .ok b) :
    (∀ l ∈ b, (toChars l).isSome) ↔ ∀ mm ∈ m, mm.unmappedSections.truthy = true →
      ∀ xs, mm.unmappedSections.iter = .ok xs → ∀ s, .str s ∈ xs → (toChars s).isSome := by
  cases m with
  | none => cases h; exact iff_of_true (fun _ h => nomatch h) fun _ h => nomatch h
  | some mm =>
    dsimp only [mappingBlock] at h
    split at h
    · next hT =>
      obtain ⟨items, hi, rfl⟩ := map_eq_ok_iff.mp h
      simp only [List.mem_append, List.mem_map, List.mem_singleton]
      constructor
      · rintro hall _ hmm - xs hxs s hs
        cases Option.mem_def.mp hmm
        rw [hi] at hxs
        cases hxs
        have := hall _ (.inl (.inr ⟨_, hs, rfl⟩))
        rwa [toChars_isSome_append, Runtime.strOf, and_iff_right (toChars_isSome_pyStr _)] at this
      · rintro hall l ((⟨l', -, rfl⟩ | ⟨x, hx, rfl⟩) | rfl)
        · exact toChars_isSome_ofChars _
        · rw [toChars_isSome_append, and_iff_right (toChars_isSome_pyStr _)]
          cases x with
          | str s => exact hall mm rfl hT items hi s hx
          | _ => exact toChars_isSome_ofChars _
        · rfl
    · next hT =>
      cases h
      refine iff_of_true (fun l hl => ?_) fun _ he hT' => ?_
      · obtain ⟨l', -, rfl⟩ := List.mem_map.mp hl
        exact toChars_isSome_ofChars _
      · cases he
        exact absurd hT' hT

theorem generateMarkdown_encodes {rt : Runtime} {sections : List SectionInfo}
    {cov : List (List Char × List (List Char × Bool))} {covScore : ℚ}
    {new removed : List (List PyChar)} {block : List (List PyChar)}
    (hnew : ∀ t ∈ new, (toChars t).isSome) :
    (toChars (joinPyLines (reportLines rt sections cov covScore new removed ++ block) ++
        [.char '\n'])).isSome ↔
      (∀ t ∈ removed, (toChars t).isSome) ∧ ∀ l ∈ block, (toChars l).isSome := by
  have hsep : ∀ p : String, (toChars (pyStr p)).isSome := fun p => toChars_isSome_ofChars _
  have hjoin : ∀ (p : String) (L : List (List PyChar)),
      (toChars (pyStr p ++ (pyStr ", ").intercalate L)).isSome ↔ ∀ t ∈ L, (toChars t).isSome :=
    fun p L => by rw [toChars_isSome_append, toChars_isSome_intercalate (hsep _), and_iff_right (hsep _)]
  rw [toChars_isSome_append, toChars_isSome_char_cons, toChars, Option.isSome_some,
    and_iff_left rfl, toChars_isSome_joinPyLines, List.forall_mem_append, reportLines, List.forall_mem_append,
    List.forall_mem_append, List.forall_mem_map, List.forall_mem_map]
  simp only [toChars_isSome_ofChars, implies_true, true_and, and_true]
  refine and_congr_left fun _ => ?_
  unfold structureLines
  by_cases hn : new = [] <;> by_cases hr : removed = [] <;>
    simp only [hn, hr, ne_eq, not_true_eq_false, not_false_eq_true, or_true, true_or, or_self,
      if_true, if_false, List.nil_append, List.append_nil, List.forall_mem_append,
      List.forall_mem_singleton, List.forall_mem_cons, hsep, hjoin, true_and, and_true, toChars_nil,
      Option.isSome_some, List.not_mem_nil, false_implies, implies_true, eq_true hnew]

/-! ### What the report prints -/

theorem keywordCoverage_cons (docs : List (List Char)) :
    ∃ (c k : List Char) (b : Bool) (kws : List (List Char × Bool))
      (cats : List (List Char × List (List Char × Bool))),
      keywordCoverage docs = (c, (k, b) :: kws) :: cats :=
  ⟨_, _, _, _, _, rfl⟩

/-- The report prints exactly when `json.dumps` has three levels of nesting and the counts and
`unmapped_sections` of the mapping summary print. -/
theorem dumpsError_report_eq_none_iff {depth : Nat} {r : DriftReport} {infos : List SectionInfo}
    (hsec : r.sections = sectionsDict infos)
    (hcov : ∃ c k b kws cats, r.keywordCoverage = (c, (k, b) :: kws) :: cats) :
    Store.dumpsError depth r.toJson = none ↔
      3 ≤ depth ∧ ∀ mm ∈ r.sectionMapping, Store.intReprOk mm.mappedSectionCount = true ∧
        Store.intReprOk mm.totalSectionCount = true ∧
        Store.dumpsError (depth - 2) mm.unmappedSections = none := by
  obtain ⟨c, k, b, kws, cats, hcov⟩ := hcov
  match depth with
  | 0 => exact iff_of_false (fun h => nomatch h) (by omega)
  | 1 =>
    refine iff_of_false (fun h => ?_) (by omega)
    simp only [DriftReport.toJson, Store.dumpsError_succ_dict, Store.entriesError_eq_none_iff,
      List.forall_mem_cons] at h
    exact absurd h.2.2.2.2.2.1 (by simp)
  | 2 =>
    refine iff_of_false (fun h => ?_) (by omega)
    simp only [DriftReport.toJson, Store.dumpsError_succ_dict, Store.entriesError_eq_none_iff,
      List.forall_mem_cons, hcov, List.map_cons, Store.dumpsError_zero_dict_cons] at h
    exact Option.some_ne_none _ h.2.2.2.2.2.2.1.1
  | n + 3 =>
    have hsec : ∀ e ∈ r.sections, Store.dumpsError (n + 1) e.2 = none := fun e he => by
      obtain ⟨s, -, hs⟩ := mem_sectionsDict (hsec ▸ he)
      simp [hs, SectionInfo.asdict, Store.entriesError]
    simp only [DriftReport.toJson, Store.dumpsError_succ_dict, Store.entriesError_eq_none_iff,
      List.forall_mem_cons, Store.dumpsError_str, Store.dumpsError_bool, Store.dumpsError_succ_float,
      Store.dumpsError_succ_list, Store.itemsError_eq_none_iff, List.forall_mem_map, eq_true hsec,
      List.not_mem_nil, false_implies, implies_true, and_true, true_and]
    cases r.sectionMapping with
    | none => simp
    | some mm => simp

/-! ### When `main` succeeds -/

/-- A previous report that `main` can read: absent, not loading, or an object whose
`sections` entry, by default `{}`, is usable against the specification's titles. -/
def PreviousOk (titles : List (List Char)) (s : StoredJson) : Prop :=
  ∃ es, loadPreviousReport s = .dict es ∧
    PrevUsable titles ((es.lookup (pyStr "sections")).getD (.dict []))

/-- A mapping artifact that `main` can read: absent, not loading, a false value, or an object
whose counts convert and whose `unmapped_sections`, when true, can be iterated. -/
def MappingOk (rt : Runtime) (s : StoredJson) : Prop :=
  (mappingData s).truthy = false ∨ ∃ es, mappingData s = .dict es ∧ CountsConvert rt es ∧
    (((es.lookup (pyStr "unmapped_sections")).getD (.list [])).truthy = true →
      ∃ xs, ((es.lookup (pyStr "unmapped_sections")).getD (.list [])).iter = .ok xs)

/-- What the report takes of the mapping artifact prints: both counts within the digit limit of
`int.__repr__`, and `unmapped_sections`, two levels down, within the nesting left to `json.dumps`. -/
def MappingPrints (rt : Runtime) (s : StoredJson) : Prop :=
  ∀ mm, sectionMapping rt (mappingData s) = .ok (some mm) →
    Store.intReprOk mm.mappedSectionCount = true ∧ Store.intReprOk mm.totalSectionCount = true ∧
      Store.dumpsError (rt.dumpsDepth - 2) mm.unmappedSections = none

/-- The Markdown report encodes: no key of the previous `sections`, and no string that
`unmapped_sections` yields, holds a lone surrogate. -/
def MarkdownEncodes (rt : Runtime) (inputs : DriftInputs) : Prop :=
  (∀ es, (loadPreviousReport inputs.previousReport).get (pyStr "sections") (.dict []) =
      .ok (.dict es) → ∀ k ∈ es.map Prod.fst, (toChars k).isSome) ∧
    ∀ mm, sectionMapping rt (mappingData inputs.mapping) = .ok (some mm) →
      mm.unmappedSections.truthy = true → ∀ xs, mm.unmappedSections.iter = .ok xs →
        ∀ s, .str s ∈ xs → (toChars s).isSome

theorem previousOk_iff {titles : List (List Char)} {s : StoredJson} :
    PreviousOk titles s ↔ ∃ prev,
      (loadPreviousReport s).get (pyStr "sections") (.dict []) = .ok prev ∧
        PrevUsable titles prev := by
  simp only [PreviousOk, JsonValue.get_eq_ok_iff]
  constructor
  · rintro ⟨es, hes, h⟩
    exact ⟨_, ⟨es, hes, rfl⟩, h⟩
  · rintro ⟨_, ⟨es, hes, rfl⟩, h⟩
    exact ⟨es, hes, h⟩

theorem previousOk_absent (titles : List (List Char)) : PreviousOk titles .absent :=
  ⟨[], rfl, .inl rfl⟩

/-- What `main` computes before it prints the JSON report, step by step. -/
theorem driftReport_eq_ok {rt : Runtime} {inputs : DriftInputs} {threshold : ℚ}
    {drift : DriftResult} {r : DriftReport} :
    driftReport rt inputs threshold = .ok (drift, r) ↔ ∃ prev m,
      (loadPreviousReport inputs.previousReport).get (pyStr "sections") (.dict []) = .ok prev ∧
      detectDrift rt.hash (inputs.spec.getD []) prev = .ok drift ∧
      sectionMapping rt (mappingData inputs.mapping) = .ok m ∧
      r = ⟨rt.now, specFile, sectionsDict drift.sections, drift.newSections, drift.removedSections,
        coverageScore (keywordCoverage [inputs.deltaEn.getD [], inputs.deltaJa.getD []]),
        keywordCoverage [inputs.deltaEn.getD [], inputs.deltaJa.getD []],
        uncoveredKeywords (keywordCoverage [inputs.deltaEn.getD [], inputs.deltaJa.getD []]), m,
        decide (threshold ≤ coverageScore (keywordCoverage [inputs.deltaEn.getD [], inputs.deltaJa.getD []]))⟩ := by
  simp only [driftReport, bind_eq_ok_iff', pure, Except.pure, Except.ok.injEq, Prod.mk.injEq]
  constructor
  · rintro ⟨prev, hp, d, hd, m, hm, rfl, rfl⟩
    exact ⟨prev, m, hp, hd, hm, rfl⟩
  · rintro ⟨prev, m, hp, hd, hm, rfl⟩
    exact ⟨prev, hp, drift, hd, m, hm, rfl, rfl⟩

theorem driftReport_ok_iff {rt : Runtime} {inputs : DriftInputs} {threshold : ℚ} :
    (∃ r, driftReport rt inputs threshold = .ok r) ↔
      PreviousOk ((extractSections (inputs.spec.getD [])).map Prod.fst) inputs.previousReport ∧
        ((mappingData inputs.mapping).truthy = false ∨
          ∃ es, mappingData inputs.mapping = .dict es ∧ CountsConvert rt es) := by
  simp only [driftReport, exists_bind_eq_ok', previousOk_iff, ← detectDrift_ok_iff rt.hash,
    ← sectionMapping_ok_iff, pure, Except.pure, Except.ok.injEq, exists_eq', and_true]
  constructor
  · rintro ⟨prev, hp, d, hd, m, hm⟩
    exact ⟨⟨prev, hp, d, hd⟩, m, hm⟩
  · rintro ⟨⟨prev, hp, d, hd⟩, m, hm⟩
    exact ⟨prev, hp, d, hd, m, hm⟩

theorem sectionMapping_of_driftReport {rt : Runtime} {inputs : DriftInputs} {threshold : ℚ}
    {drift : DriftResult} {r : DriftReport} (h : driftReport rt inputs threshold = .ok (drift, r)) :
    sectionMapping rt (mappingData inputs.mapping) = .ok r.sectionMapping := by
  obtain ⟨_, _, -, -, hm, rfl⟩ := driftReport_eq_ok.mp h
  exact hm

theorem mappingBlock_ok_iff_mappingOk {rt : Runtime} {inputs : DriftInputs} {threshold : ℚ}
    {drift : DriftResult} {r : DriftReport} (hdr : driftReport rt inputs threshold = .ok (drift, r)) :
    (∃ b, mappingBlock rt r.sectionMapping = .ok b) ↔ MappingOk rt inputs.mapping := by
  have hcounts := (driftReport_ok_iff.mp ⟨_, hdr⟩).2
  rcases sectionMapping_eq_ok (sectionMapping_of_driftReport hdr) with
    ⟨hf, hm⟩ | ⟨es, mm, hes, hT, hm, hu⟩
  · rw [hm]
    exact iff_of_true ⟨[], rfl⟩ (.inl hf)
  · rw [hm, mappingBlock_ok_iff, hu]
    have hc : CountsConvert rt es := by
      rcases hcounts with hf | ⟨es', hes', hc⟩
      · exact absurd (hT.symm.trans hf) (by decide)
      · rwa [JsonValue.dict.inj (hes'.symm.trans hes)] at hc
    refine ⟨fun h => .inr ⟨es, hes, hc, h⟩, ?_⟩
    rintro (hf | ⟨es', hes', -, hiter⟩)
    · exact absurd (hT.symm.trans hf) (by decide)
    · rwa [JsonValue.dict.inj (hes'.symm.trans hes)] at hiter

theorem driftReport_of_usable {rt : Runtime} {inputs : DriftInputs} (threshold : ℚ)
    (hprev : PreviousOk ((extractSections (inputs.spec.getD [])).map Prod.fst) inputs.previousReport)
    (hmap : MappingOk rt inputs.mapping) :
    ∃ drift r block, driftReport rt inputs threshold = .ok (drift, r) ∧
      mappingBlock rt r.sectionMapping = .ok block := by
  obtain ⟨⟨drift, r⟩, hdr⟩ := driftReport_ok_iff.mpr
    ⟨hprev, hmap.imp_right fun ⟨es, h₁, h₂, _⟩ => ⟨es, h₁, h₂⟩⟩
  obtain ⟨block, hb⟩ := (mappingBlock_ok_iff_mappingOk hdr).mpr hmap
  exact ⟨drift, r, block, hdr, hb⟩

/-- Once the report is computed: it prints exactly under `3 ≤ dumpsDepth` and `MappingPrints`,
and the Markdown text encodes exactly under `MarkdownEncodes`. -/
theorem report_prints_encodes {rt : Runtime} {inputs : DriftInputs} {threshold : ℚ}
    {drift : DriftResult} {r : DriftReport} (hdr : driftReport rt inputs threshold = .ok (drift, r)) :
    (Store.dumpsError rt.dumpsDepth r.toJson = none ↔
        3 ≤ rt.dumpsDepth ∧ MappingPrints rt inputs.mapping) ∧
      ∀ block, mappingBlock rt r.sectionMapping = .ok block →
        ((toChars (joinPyLines (reportLines rt drift.sections r.keywordCoverage
            r.keywordCoveragePercent drift.newSections drift.removedSections ++ block) ++
            [.char '\n'])).isSome ↔ MarkdownEncodes rt inputs) := by
  obtain ⟨prev, m, hp, hd, hm, rfl⟩ := driftReport_eq_ok.mp hdr
  obtain ⟨hnew, hrem⟩ := detectDrift_titles_encode hd
  refine ⟨?_, fun block hb => ?_⟩
  · rw [dumpsError_report_eq_none_iff rfl (keywordCoverage_cons _), MappingPrints]
    simp only [hm, Except.ok.injEq, Option.mem_def]
  · rw [generateMarkdown_encodes hnew, hrem, mappingBlock_encodes hb, MarkdownEncodes]
    simp only [hp, hm, Except.ok.injEq, Option.mem_def]

/-! ### `main` -/

theorem main_of_driftReport {rt : Runtime} {inputs : DriftInputs} {threshold : ℚ}
    {drift : DriftResult} {r : DriftReport} (hspec : inputs.spec.getD [] ≠ [])
    (h : driftReport rt inputs threshold = .ok (drift, r)) :
    main rt inputs threshold = match Store.dumpsError rt.dumpsDepth r.toJson with
      | some e => ⟨none, none, .error e⟩
      | none =>
        match generateMarkdown rt drift.sections r.keywordCoverage r.keywordCoveragePercent
            drift.newSections drift.removedSections r.sectionMapping with
        | .error e => ⟨some r, none, .error e⟩
        | .ok md => ⟨some r, some (writeText md).1, (writeText md).2.map fun _ => 0⟩ := by
  rw [main, if_neg hspec, h]

/-- `main` returns `0` exactly when the report is computed, prints, and renders to a text that
encodes. -/
theorem main_result_eq_ok_iff {rt : Runtime} {inputs : DriftInputs} {threshold : ℚ}
    (hspec : inputs.spec.getD [] ≠ []) :
    (main rt inputs threshold).result = .ok 0 ↔
      ∃ drift r, driftReport rt inputs threshold = .ok (drift, r) ∧
        Store.dumpsError rt.dumpsDepth r.toJson = none ∧
        ∃ md, generateMarkdown rt drift.sections r.keywordCoverage r.keywordCoveragePercent
          drift.newSections drift.removedSections r.sectionMapping = .ok md ∧ (toChars md).isSome := by
  cases hdr : driftReport rt inputs threshold with
  | error e =>
    rw [show (main rt inputs threshold).result = .error e by rw [main, if_neg hspec, hdr]]
    exact iff_of_false nofun fun ⟨_, _, h, _⟩ => nomatch h
  | ok dr =>
    obtain ⟨drift, r⟩ := dr
    rw [main_of_driftReport hspec hdr]
    constructor
    · intro h
      split at h
      · cases h
      · next hd =>
        split at h
        · cases h
        · next md hmd =>
          refine ⟨drift, r, rfl, hd, md, hmd, ?_⟩
          rcases writeText_cases md with ⟨s, hs, -⟩ | ⟨-, hw⟩
          · rw [hs]; rfl
          · rw [hw] at h; cases h
    · rintro ⟨_, _, he, hd, md, hmd, henc⟩
      cases he
      obtain ⟨s, hs⟩ := Option.isSome_iff_exists.mp henc
      simp only [hd, hmd, writeText, hs]
      rfl

theorem main_reports_of_ok {rt : Runtime} {inputs : DriftInputs} {threshold : ℚ}
    (h : (main rt inputs threshold).result = .ok 0) :
    (main rt inputs threshold).jsonReport.isSome ∧ (main rt inputs threshold).markdownReport.isSome := by
  by_cases hspec : inputs.spec.getD [] = []
  · rw [main, if_pos hspec] at h
    cases h
  obtain ⟨drift, r, hdr, hd, md, hmd, -⟩ := (main_result_eq_ok_iff hspec).mp h
  simp only [main_of_driftReport hspec hdr, hd, hmd]
  exact ⟨rfl, rfl⟩

theorem main_result_cases {rt : Runtime} {inputs : DriftInputs} {threshold : ℚ}
    (hspec : inputs.spec.getD [] ≠ []) :
    (main rt inputs threshold).result = .ok 0 ∨ ∃ e, (main rt inputs threshold).result = .error e := by
  unfold main
  rw [if_neg hspec]
  split
  · exact .inr ⟨_, rfl⟩
  · split
    · exact .inr ⟨_, rfl⟩
    · split
      · exact .inr ⟨_, rfl⟩
      · rcases writeText_cases ‹List PyChar› with ⟨_, -, hw⟩ | ⟨-, hw⟩ <;> rw [hw]
        · exact .inl rfl
        · exact .inr ⟨_, rfl⟩

theorem driftReport_of_jsonReport {rt : Runtime} {inputs : DriftInputs} {threshold : ℚ}
    {r : DriftReport} (h : (main rt inputs threshold).jsonReport = some r) :
    ∃ drift, driftReport rt inputs threshold = .ok (drift, r) := by
  unfold main at h
  split at h
  · cases h
  · split at h
    · cases h
    · next drift report hdr =>
      split at h
      · cases h
      · split at h <;> exact ⟨drift, by cases h; exact hdr⟩

theorem main_ok_iff_usable {rt : Runtime} {inputs : DriftInputs} {threshold : ℚ}
    (hspec : inputs.spec.getD [] ≠ []) :
    (main rt inputs threshold).result = .ok 0 ↔
      PreviousOk ((extractSections (inputs.spec.getD [])).map Prod.fst) inputs.previousReport ∧
        MappingOk rt inputs.mapping ∧ 3 ≤ rt.dumpsDepth ∧ MappingPrints rt inputs.mapping ∧
        MarkdownEncodes rt inputs := by
  rw [main_result_eq_ok_iff hspec]
  constructor
  · rintro ⟨drift, r, hdr, hdump, md, hmd, henc⟩
    obtain ⟨hpr, hen⟩ := report_prints_encodes hdr
    obtain ⟨block, hb, rfl⟩ := map_eq_ok_iff.mp hmd
    exact ⟨(driftReport_ok_iff.mp ⟨_, hdr⟩).1, (mappingBlock_ok_iff_mappingOk hdr).mp ⟨block, hb⟩,
      (hpr.mp hdump).1, (hpr.mp hdump).2, (hen block hb).mp henc⟩
  · rintro ⟨hprev, hmap, hdepth, hprints, henc⟩
    obtain ⟨drift, r, block, hdr, hb⟩ := driftReport_of_usable threshold hprev hmap
    obtain ⟨hpr, hen⟩ := report_prints_encodes hdr
    exact ⟨drift, r, hdr, hpr.mpr ⟨hdepth, hprints⟩, _, by rw [generateMarkdown, hb]; rfl,
      (hen block hb).mpr henc⟩

/-- When the report is computed and prints, the mapping block renders and the Markdown text
encodes, `main` writes that report and returns `0`. -/
theorem main_of_encodes {rt : Runtime} {inputs : DriftInputs} {threshold : ℚ}
    {drift : DriftResult} {r : DriftReport} (hspec : inputs.spec.getD [] ≠ [])
    (hdr : driftReport rt inputs threshold = .ok (drift, r))
    (hdump : Store.dumpsError rt.dumpsDepth r.toJson = none) (hmap : MappingOk rt inputs.mapping)
    (henc : MarkdownEncodes rt inputs) :
    (main rt inputs threshold).result = .ok 0 ∧ (main rt inputs threshold).jsonReport = some r := by
  obtain ⟨block, hb⟩ := (mappingBlock_ok_iff_mappingOk hdr).mpr hmap
  obtain ⟨s, hs⟩ := Option.isSome_iff_exists.mp (((report_prints_encodes hdr).2 block hb).mpr henc)
  simp only [main_of_driftReport hspec hdr, hdump, generateMarkdown, hb, Except.map, writeText, hs,
    and_self]

/-- When the report is computed and prints but the Markdown text holds a lone surrogate, `main`
has written the JSON report, leaves the Markdown report empty and raises `UnicodeEncodeError`. -/
theorem main_of_not_encodes {rt : Runtime} {inputs : DriftInputs} {threshold : ℚ}
    (hspec : inputs.spec.getD [] ≠ [])
    (hprev : PreviousOk ((extractSections (inputs.spec.getD [])).map Prod.fst) inputs.previousReport)
    (hmap : MappingOk rt inputs.mapping) (hdepth : 3 ≤ rt.dumpsDepth)
    (hprints : MappingPrints rt inputs.mapping) (henc : ¬MarkdownEncodes rt inputs) :
    (main rt inputs threshold).result = .error .unicodeEncodeError ∧
      (main rt inputs threshold).jsonReport.isSome ∧
      (main rt inputs threshold).markdownReport = some [] := by
  obtain ⟨drift, r, block, hdr, hb⟩ := driftReport_of_usable threshold hprev hmap
  obtain ⟨hpr, hen⟩ := report_prints_encodes hdr
  have hnone := Option.not_isSome_iff_eq_none.mp fun h => henc ((hen block hb).mp h)
  simp only [main_of_driftReport hspec hdr, hpr.mpr ⟨hdepth, hprints⟩, generateMarkdown, hb,
    Except.map, writeText, hnone, Option.isSome_some, and_self]

end SpecTrace.Drift
