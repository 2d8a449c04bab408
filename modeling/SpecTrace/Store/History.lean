import SpecTrace.Store.Files

/-! The repository's files under any sequence of events: the specification and the companion
documents are edited, `spec_test_map.py` runs on some test files, or `spec_diff.py` runs at some
time. The two scripts alone write the two JSON files, and a run of `spec_diff.py` reads the JSON
report the run before it wrote as its previous report. The abstract view keeps the
specification as edited, the specification the last JSON report was computed from (empty before
the first report), and the last mapping report written.

Proved (`history_drift`): from files with neither JSON file, every run of `spec_diff.py` in any
such sequence ends and reports as the abstract view says. On an empty specification it returns
`1` and writes nothing. Otherwise it returns `0` and writes a JSON report whose sections, new
and removed titles are the drift of the specification against the specification of the last
report (`driftAgainst`), whatever was edited in between and whatever the titles. The documents
are decoded text, the test files are named by `surrogateescape`, and the recursion limit leaves
three levels to each `json.dumps` and `json.loads`; of `float.__repr__` it needs only that every
float prints as some number literal. -/

namespace SpecTrace.Store

open Python Drift Mapping

variable {repr : ℚ → List Char} {g : ℚ → ℚ}

/-! ### Files and events -/

/-- The files the two scripts read: the specification and the companion documents as decoded
text (`none` when absent), and the previous report and the mapping artifact as bytes. -/
structure DriftFiles where
  spec : Option (List Char)
  deltaEn : Option (List Char)
  deltaJa : Option (List Char)
  previousReport : Option (List UInt8)
  mapping : Option (List UInt8)

def DriftFiles.inputs (rt : Runtime) (fs : DriftFiles) : DriftInputs :=
  ⟨fs.spec, fs.deltaEn, fs.deltaJa, storedJson rt.previousDepth fs.previousReport,
    storedJson rt.mappingDepth fs.mapping⟩

/-- The files after a run of `main`: the JSON report is the one it wrote, if it wrote one. -/
def DriftFiles.afterRun (rt : Runtime) (repr : ℚ → List Char) (threshold : ℚ) (fs : DriftFiles) :
    DriftFiles :=
  match (main rt (fs.inputs rt) threshold).jsonReport with
  | some r => { fs with previousReport := some (jsonFile repr r.toJson) }
  | none => fs

/-- The files after `spec_test_map.py` ran on `files`: the mapping artifact is the report of the
specification, unless there is none or `json.dumps`, with `depth` levels left, raises. -/
def DriftFiles.afterMapping (repr : ℚ → List Char) (depth : Nat) (files : List TestFile)
    (fs : DriftFiles) : DriftFiles :=
  match fs.spec with
  | some text =>
    match dumps repr depth (mappingReport text files).toJson with
    | .ok out => { fs with mapping := some (writeText (ofChars out)).1 }
    | .error _ => fs
  | none => fs

/-- What happens to the files. -/
inductive Event where
  /-- The specification and the two companion documents are edited, or removed (`none`). -/
  | edit (spec deltaEn deltaJa : Option (List Char))
  /-- `spec_test_map.py` runs on these test files. -/
  | mapTests (files : List TestFile)
  /-- `spec_diff.py` runs at this time. -/
  | diff (now : List Char)

/-- The runs of `spec_diff.py` in a sequence of events, each on the files the events before
left; `spec_test_map.py`'s `json.dumps` has `mapDepth` levels. -/
def history (rt : Runtime) (repr : ℚ → List Char) (mapDepth : Nat) (threshold : ℚ) :
    DriftFiles → List Event → List MainRun
  | _, [] => []
  | fs, .edit spec en ja :: evs =>
    history rt repr mapDepth threshold { fs with spec := spec, deltaEn := en, deltaJa := ja } evs
  | fs, .mapTests files :: evs =>
    history rt repr mapDepth threshold (fs.afterMapping repr mapDepth files) evs
  | fs, .diff now :: evs =>
    main { rt with now := now } (fs.inputs { rt with now := now }) threshold ::
      history rt repr mapDepth threshold (fs.afterRun { rt with now := now } repr threshold) evs

/-! ### The abstract view -/

/-- The specification as edited, the specification of the last JSON report (empty before the
first), and the last mapping report `spec_test_map.py` wrote. -/
structure Tracked where
  spec : Option (List Char)
  last : List Char
  mapping : Option MappingReport

/-- `json.dumps` prints the counts of a mapping report: `int.__repr__` takes both. -/
def countsPrint (rep : MappingReport) : Bool :=
  intReprOk rep.mappedSectionCount && intReprOk rep.totalSectionCount

/-- A mapping report of the specification, once its counts print. -/
def Tracked.afterMapping (files : List TestFile) (t : Tracked) : Tracked :=
  match t.spec with
  | some text =>
    if countsPrint (mappingReport text files) then { t with mapping := some (mappingReport text files) }
    else t
  | none => t

/-- The runs the abstract view predicts: nothing on an empty specification, else the drift against
the last report's specification, with the last mapping report. -/
def trackedRuns (hash : List Char → List Char) :
    Tracked → List Event → List (Option (DriftResult × Option MappingReport))
  | _, [] => []
  | t, .edit spec _ _ :: evs => trackedRuns hash { t with spec := spec } evs
  | t, .mapTests files :: evs => trackedRuns hash (t.afterMapping files) evs
  | t, .diff _ :: evs =>
    if t.spec.getD [] = [] then none :: trackedRuns hash t evs
    else some (driftAgainst hash t.last (t.spec.getD []), t.mapping) ::
      trackedRuns hash { t with last := t.spec.getD [] } evs

/-- `report["section_mapping"]` of a mapping report read back, its coverage as it prints. -/
def passthrough (g : ℚ → ℚ) (rep : MappingReport) : SectionMapping :=
  ⟨.finite (g rep.sectionCoveragePercent), rep.mappedSectionCount, rep.totalSectionCount,
    .list (rep.unmappedSections.map fun s => .str (ofChars s))⟩

/-- What a run shows: its return value, and the sections, new and removed titles and section
mapping of the JSON report it wrote. -/
def observedRun (run : MainRun) : Except PyError Nat × Option (List (List PyChar × JsonValue) ×
    List (List PyChar) × List (List PyChar) × Option SectionMapping) :=
  (run.result, run.jsonReport.map fun r =>
    (r.sections, r.newSections, r.removedSections, r.sectionMapping))

def predictedRun (g : ℚ → ℚ) : Option (DriftResult × Option MappingReport) →
    Except PyError Nat × Option (List (List PyChar × JsonValue) × List (List PyChar) ×
      List (List PyChar) × Option SectionMapping)
  | none => (.ok 1, none)
  | some (d, m) =>
    (.ok 0, some (sectionsDict d.sections, d.newSections, d.removedSections, m.map (passthrough g)))

/-! ### What the JSON report takes of the mapping report -/

theorem countsPrint_iff {rep : MappingReport} :
    countsPrint rep = true ↔
      intReprOk rep.mappedSectionCount = true ∧ intReprOk rep.totalSectionCount = true := by
  rw [countsPrint, Bool.and_eq_true]

/-- What the JSON report takes of a mapping report whose counts print: it prints, it reads back,
and its `unmapped_sections` nests one level and encodes. -/
theorem passthrough_spec (hg : ∀ x, RereadsAs repr g x) {rep : MappingReport}
    (hc : countsPrint rep = true) :
    (Rereads repr g (.float (passthrough g rep).sectionCoveragePercent) ∧
      intReprOk (passthrough g rep).mappedSectionCount = true ∧
      intReprOk (passthrough g rep).totalSectionCount = true ∧
      (passthrough g rep).unmappedSections.Every (Rereads repr g)) ∧
    (passthrough g rep).unmappedSections.nesting ≤ 1 ∧
    (∀ d, dumpsError (d + 1) (passthrough g rep).unmappedSections = none) ∧
    ∀ s, .str s ∈ rep.unmappedSections.map (fun s => JsonValue.str (ofChars s)) → (toChars s).isSome := by
  refine ⟨⟨hg _, (countsPrint_iff.mp hc).1, (countsPrint_iff.mp hc).2, every_rereads_strs _⟩,
    JsonValue.nesting_list_le_iff.mpr fun x hx => ?_, fun d => ?_, fun s hs => ?_⟩
  · obtain ⟨s, -, rfl⟩ := List.mem_map.mp hx
    exact Nat.le_refl 0
  · simp [passthrough, itemsError_eq_none_iff]
  · obtain ⟨u, -, hu⟩ := List.mem_map.mp hs
    cases hu
    exact toChars_isSome_ofChars _

/-! ### Reading the JSON files back -/

theorem MappingReport.toJson_mapFloats (rep : MappingReport) :
    rep.toJson.mapFloats g = { rep with sectionCoveragePercent := g rep.sectionCoveragePercent }.toJson := by
  simp [MappingReport.toJson, Function.comp_def]

theorem mapFloats_sectionsDict (infos : List SectionInfo) :
    (JsonValue.dict (sectionsDict infos)).mapFloats g = .dict (sectionsDict infos) := by
  rw [JsonValue.mapFloats_dict]
  refine congrArg _ ((List.map_congr_left fun e he => ?_).trans (List.map_id _))
  obtain ⟨s, -, hs⟩ := mem_sectionsDict he
  show (e.1, e.2.mapFloats g) = e
  rw [hs, show s.asdict.mapFloats g = s.asdict from rfl, ← hs]

/-- The next run reads back the sections of the JSON report, whatever its floats print as. -/
theorem sections_mapFloats {r : DriftReport} {infos : List SectionInfo}
    (hsec : r.sections = sectionsDict infos) :
    (loadPreviousReport (.json (r.toJson.mapFloats g))).get (pyStr "sections") (.dict []) =
      .ok (.dict r.sections) := by
  rw [DriftReport.toJson, JsonValue.mapFloats_dict, hsec]
  simp only [List.map_cons, loadPreviousReport, JsonValue.get, lookup_cons_ite,
    if_neg (show pyStr "sections" ≠ pyStr "timestamp" by decide),
    if_neg (show pyStr "sections" ≠ pyStr "spec_file" by decide), if_pos rfl, ite_true,
    Option.getD_some, mapFloats_sectionsDict]

/-! ### The invariant -/

/-- The files as the abstract state sees them: the same specification, the snapshot of a run on
`t.last`, and the last mapping report, which prints, or none. -/
def Tracks (rt : Runtime) (g : ℚ → ℚ) (fs : DriftFiles) (t : Tracked) : Prop :=
  fs.spec = t.spec ∧
  (∃ infos, InfosOf rt.hash t.last infos ∧
    (loadPreviousReport (storedJson rt.previousDepth fs.previousReport)).get (pyStr "sections")
      (.dict []) = .ok (.dict (sectionsDict infos))) ∧
  (fs.mapping = none ∧ t.mapping = none ∨ ∃ rep, t.mapping = some rep ∧ countsPrint rep = true ∧
    storedJson rt.mappingDepth fs.mapping =
      .json { rep with sectionCoveragePercent := g rep.sectionCoveragePercent }.toJson)

variable {rt : Runtime} {fs : DriftFiles} {t : Tracked}

theorem tracks_init (hp : fs.previousReport = none) (hm : fs.mapping = none) :
    Tracks rt g fs ⟨fs.spec, [], none⟩ :=
  ⟨rfl, ⟨[], infosOf_nil rt.hash, by rw [hp]; rfl⟩, .inl ⟨hm, rfl⟩⟩

theorem Tracks.edit (h : Tracks rt g fs t) (spec en ja : Option (List Char)) :
    Tracks rt g { fs with spec := spec, deltaEn := en, deltaJa := ja } { t with spec := spec } :=
  ⟨rfl, h.2⟩

/-- `spec_test_map.py` writes the mapping report of the specification when its counts print, and
the file reads back. -/
theorem Tracks.afterMapping (hg : ∀ x, RereadsAs repr g x) (hmd : 3 ≤ rt.mappingDepth) {depth : Nat}
    (hd : 3 ≤ depth) (h : Tracks rt g fs t) (files : List TestFile) :
    Tracks rt g (fs.afterMapping repr depth files) (t.afterMapping files) := by
  obtain ⟨hs, hsnap, hm⟩ := h
  unfold DriftFiles.afterMapping Tracked.afterMapping
  rw [← hs]
  cases fs.spec with
  | none => exact ⟨hs, hsnap, hm⟩
  | some text =>
    dsimp only
    have hdump := @dumpsError_mappingReport (mappingReport text files) depth hd
    unfold dumps
    by_cases hc : countsPrint (mappingReport text files) = true
    · rw [hdump.mpr (countsPrint_iff.mp hc), if_pos hc]
      dsimp only
      rw [writeText_dumpsAt]
      refine ⟨rfl, hsnap, .inr ⟨_, rfl, hc, ?_⟩⟩
      rw [storedJson_jsonFile_mapFloats
        (MappingReport.toJson_distinctKeys (wf_scanFiles files).keys_nodup)
        (MappingReport.toJson_rereads (hg _) (countsPrint_iff.mp hc) (mappingReport_pairFree text files))
        ((MappingReport.toJson_nesting _).trans hmd), MappingReport.toJson_mapFloats]
    · obtain ⟨e, he⟩ := Option.ne_none_iff_exists'.mp (mt hdump.mp (mt countsPrint_iff.mpr hc))
      rw [he, if_neg hc]
      exact ⟨hs, hsnap, hm⟩

theorem main_empty (threshold : ℚ) (hs : fs.spec.getD [] = []) :
    observedRun (main rt (fs.inputs rt) threshold) = predictedRun g none ∧
      fs.afterRun rt repr threshold = fs := by
  have hm : main rt (fs.inputs rt) threshold = ⟨none, none, .ok 1⟩ := if_pos hs
  rw [DriftFiles.afterRun, hm]
  exact ⟨rfl, rfl⟩

/-- On a non-empty specification `main` returns `0` and writes the drift the abstract view predicts;
its report, read back, is the snapshot of its own specification. -/
theorem Tracks.main (hg : ∀ x, RereadsAs repr g x) (hdumps : 3 ≤ rt.dumpsDepth)
    (hprev : 3 ≤ rt.previousDepth) (threshold : ℚ) (h : Tracks rt g fs t) (hs : fs.spec.getD [] ≠ []) :
    observedRun (main rt (fs.inputs rt) threshold) =
        predictedRun g (some (driftAgainst rt.hash t.last (fs.spec.getD []), t.mapping)) ∧
      Tracks rt g (fs.afterRun rt repr threshold) { t with last := fs.spec.getD [] } := by
  obtain ⟨hspec, ⟨infos, hinf, hget⟩, hmap⟩ := h
  have hcounts : ∀ rep ∈ t.mapping, countsPrint rep = true := by
    rcases hmap with ⟨-, ht⟩ | ⟨rep, ht, hc, -⟩ <;> rw [ht]
    · exact fun _ h => nomatch h
    · exact fun _ h => Option.some.inj h ▸ hc
  have hm : sectionMapping rt (mappingData (storedJson rt.mappingDepth fs.mapping)) =
      .ok (t.mapping.map (passthrough g)) := by
    rcases hmap with ⟨hn, ht⟩ | ⟨rep, ht, -, hrep⟩
    · rw [hn, ht]
      rfl
    · rw [hrep, ht]
      rfl
  have hmapOk : MappingOk rt (storedJson rt.mappingDepth fs.mapping) := by
    rcases hmap with ⟨hn, -⟩ | ⟨rep, -, -, hrep⟩
    · rw [hn]
      exact .inl rfl
    · rw [hrep]
      exact .inr ⟨_, rfl, ⟨⟨_, rfl⟩, ⟨_, rfl⟩, ⟨_, rfl⟩⟩, fun _ => ⟨_, rfl⟩⟩
  have henc : MarkdownEncodes rt (fs.inputs rt) := by
    refine ⟨fun es hes k hk => ?_, fun mm hmm _ xs hxs s hs => ?_⟩
    · cases hget.symm.trans hes
      obtain ⟨s, -, rfl⟩ := List.mem_map.mp (mem_keys_sectionsDict.mp hk)
      exact toChars_isSome_ofChars _
    · replace hmm := hm.symm.trans hmm
      cases ht : t.mapping with
      | none => rw [ht] at hmm; cases hmm
      | some rep =>
        rw [ht] at hmm
        cases hmm
        cases hxs
        exact (passthrough_spec hg (hcounts rep ht)).2.2.2 s hs
  have hdr := (@driftReport_eq_ok rt (fs.inputs rt) threshold _ _).mpr
    ⟨_, _, hget, detectDrift_snapshot hinf _, hm, rfl⟩
  obtain ⟨hres, hj⟩ := main_of_encodes hs hdr ((dumpsError_report_eq_none_iff rfl (keywordCoverage_cons _)).mpr ⟨hdumps,
    Option.forall_mem_map.mpr fun rep hrep => ⟨(countsPrint_iff.mp (hcounts rep hrep)).1,
      (countsPrint_iff.mp (hcounts rep hrep)).2, by
        rw [show rt.dumpsDepth - 2 = rt.dumpsDepth - 3 + 1 by omega]
        exact (passthrough_spec hg (hcounts rep hrep)).2.2.1 _⟩⟩) hmapOk henc
  rw [DriftFiles.afterRun, hj]
  refine ⟨by rw [observedRun, hres, hj]; rfl, hspec,
    ⟨_, infosOf_driftAgainst rt.hash t.last (fs.spec.getD []), ?_⟩, hmap⟩
  have hofChars : ∀ {a b : List (List PyChar)}, (∀ x ∈ a, ∃ c, x = ofChars c) →
      ∀ x ∈ sortedDiff a b, PairFree x := fun ha x hx => by
    obtain ⟨c, rfl⟩ := ha x (mem_sortedDiff.mp hx).1
    exact pairFree_ofChars c
  have htitles : ∀ text : List Char, ∀ x ∈ (extractSections text).map (ofChars ·.1), ∃ c, x = ofChars c :=
    fun _ x hx => by
      obtain ⟨sec, -, rfl⟩ := List.mem_map.mp hx
      exact ⟨_, rfl⟩
  rw [storedJson_jsonFile_mapFloats (jsonReport_distinctKeys hj fun _ hv => distinctKeys_of_storedJson hv)
    (DriftReport.toJson_rereads rfl (hg _) (hofChars (htitles _)) (hofChars (htitles _))
      (Option.forall_mem_map.mpr fun rep hrep => (passthrough_spec hg (hcounts rep hrep)).1))
    ((DriftReport.toJson_nesting rfl (Option.forall_mem_map.mpr fun rep hrep =>
      (passthrough_spec hg (hcounts rep hrep)).2.1)).trans hprev)]
  exact sections_mapFloats rfl

/-! ### Whole histories -/

theorem history_tracks (rt : Runtime) (mapDepth : Nat) (threshold : ℚ) (hg : ∀ x, RereadsAs repr g x)
    (hdumps : 3 ≤ rt.dumpsDepth) (hprev : 3 ≤ rt.previousDepth) (hmd : 3 ≤ rt.mappingDepth)
    (hmap : 3 ≤ mapDepth) :
    ∀ (evs : List Event) {fs : DriftFiles} {t : Tracked}, Tracks rt g fs t →
      (history rt repr mapDepth threshold fs evs).map observedRun =
        (trackedRuns rt.hash t evs).map (predictedRun g)
  | [], _, _, _ => rfl
  | .edit spec en ja :: evs, _, _, h =>
    history_tracks rt mapDepth threshold hg hdumps hprev hmd hmap evs (h.edit spec en ja)
  | .mapTests files :: evs, _, _, h =>
    history_tracks rt mapDepth threshold hg hdumps hprev hmd hmap evs (h.afterMapping hg hmd hmap files)
  | .diff now :: evs, fs, t, h => by
    rw [history, trackedRuns, List.map_cons]
    split_ifs with hs
    · obtain ⟨hd, hfs⟩ := @main_empty repr g { rt with now := now } fs threshold (h.1 ▸ hs)
      rw [List.map_cons, hd, hfs]
      exact congrArg _ (history_tracks rt mapDepth threshold hg hdumps hprev hmd hmap evs h)
    · obtain ⟨hd, h'⟩ := @Tracks.main repr g { rt with now := now } fs t hg hdumps hprev threshold h
        (h.1 ▸ hs)
      rw [h.1] at hd h'
      rw [List.map_cons, hd]
      exact congrArg _ (history_tracks rt mapDepth threshold hg hdumps hprev hmd hmap evs h')

/-- Any sequence of edits and runs of the two scripts from no JSON file: every run of `spec_diff.py`
reports what the abstract view predicts. -/
theorem history_drift (rt : Runtime) (repr : ℚ → List Char) (g : ℚ → ℚ) (mapDepth : Nat)
    (threshold : ℚ) (hg : ∀ x, RereadsAs repr g x) (hdumps : 3 ≤ rt.dumpsDepth)
    (hprevious : 3 ≤ rt.previousDepth) (hmapping : 3 ≤ rt.mappingDepth) (hmapDepth : 3 ≤ mapDepth)
    (fs : DriftFiles) (hprev : fs.previousReport = none) (hmap : fs.mapping = none)
    (evs : List Event) :
    (history rt repr mapDepth threshold fs evs).map observedRun =
      (trackedRuns rt.hash ⟨fs.spec, [], none⟩ evs).map (predictedRun g) :=
  history_tracks rt mapDepth threshold hg hdumps hprevious hmapping hmapDepth evs (tracks_init hprev hmap)

theorem history_drift_edit_between :
    (history ⟨id, fun _ => none, fun _ => none, fun _ => [], fun _ => [], [], 3, 3, 3⟩
        (fun _ => "0.0".toList) 3 70 ⟨some "## A\nx\n".toList, none, none, none, none⟩
        [.diff "1".toList, .mapTests [], .edit (some "## A\ny\n## B\nz\n".toList) none none,
          .diff "2".toList]).map observedRun =
      (trackedRuns id ⟨some "## A\nx\n".toList, [], none⟩
        [.diff "1".toList, .mapTests [], .edit (some "## A\ny\n## B\nz\n".toList) none none,
          .diff "2".toList]).map (predictedRun fun _ => 0) :=
  history_drift ⟨id, fun _ => none, fun _ => none, fun _ => [], fun _ => [], [], 3, 3, 3⟩
    (fun _ => "0.0".toList) (fun _ => 0) 3 70 rereadsAs_zero (Nat.le_refl 3) (Nat.le_refl 3)
    (Nat.le_refl 3) (Nat.le_refl 3) ⟨some "## A\nx\n".toList, none, none, none, none⟩ rfl rfl _

end SpecTrace.Store
